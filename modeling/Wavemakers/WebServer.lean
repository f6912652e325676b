/-
`web_server.py`: starting a wave from the web page, and the topics to the bridge and back.

A call of `WebNode.start` runs in the thread of its HTTP request; it leaves behind a thread of
`_check_start`, which is taken as the same thread going on. Calls are named by their
position in `calls`. What a thread does under the lock, and each publication, is one step;
threads and callbacks interleave freely, and a sleeping thread wakes at its time or later.

Every topic is a queue. Messages of one topic are delivered in order, and there is no order
between topics. A message may be dropped once as many later ones are behind it as the topic keeps:
ten for height, period, start and stop, one for the two status topics. A command that arrives
while the bridge has no subscription is lost. A start carries the call it belongs to, which
the bridge does not see.

Times are in nanoseconds. Left out: the notice and the other things the page shows, log
output, the plot, the heartbeat (an event of the bridge here), `return_to_upright` and the
count of the idle timer, which may run out at any time.
-/
import Wavemakers.BridgeProtocol
import Wavemakers.Doubles
import Wavemakers.NearestDouble

set_option autoImplicit false

namespace WavemakerWeb

open WavemakerBridge Binary64

/-! ## `STARTING_RE` -/

/-- The characters of `[-+0-9.eE]`. -/
def in_class (c : Char) : Bool := c.isDigit || ['-', '+', '.', 'e', 'E'].contains c

def literal (text cs : List Char) : Option (List Char) :=
  if text.isPrefixOf cs then some (cs.drop text.length) else none

/-- `([-+0-9.eE]+)`. In the expression a blank follows, which is not in the class, so the
longest run is the only one that can match. -/
def group (cs : List Char) : Option (List Char × List Char) :=
  if cs.takeWhile in_class = [] then none
  else some (cs.takeWhile in_class, cs.dropWhile in_class)

/-- A match of `STARTING_RE` at the front, by its two groups. -/
def starting_at (cs : List Char) : Option (List Char × List Char) :=
  (literal "height ".toList cs).bind fun cs =>
    (group cs).bind fun height =>
      (literal " m, period ".toList height.2).bind fun cs =>
        (group cs).bind fun period =>
          (literal " s".toList period.2).map fun _ => (height.1, period.1)

/-- `STARTING_RE.search`: the first match from the left. -/
def search : List Char → Option (List Char × List Char)
  | [] => none
  | c :: cs => (starting_at (c :: cs)).or (search cs)

/-! ## `float` -/

def split_sign : List Char → Bool × List Char
  | '-' :: cs => (true, cs)
  | '+' :: cs => (false, cs)
  | cs => (false, cs)

/-- The exponent of a number, with its letter. -/
def exponent_part : List Char → Option ℤ
  | [] => some 0
  | c :: cs =>
      let (negative, digits) := split_sign cs
      if (c = 'e' ∨ c = 'E') ∧ digits ≠ [] ∧ digits.all Char.isDigit then
        let n : ℤ := Nat.ofDigitChars 10 digits 0
        some (if negative then -n else n)
      else none

def fraction_part : List Char → List Char × List Char
  | '.' :: cs => (cs.takeWhile Char.isDigit, cs.dropWhile Char.isDigit)
  | cs => ([], cs)

/-- The nearest double, an infinity where there is none that large. -/
def to_double (x : ℚ) : Double :=
  if |nearest x| < 2 ^ 1024 then .fin (nearest x) else .inf (x < 0)

/-- `float(text)` of a text of such characters. `none` is a `ValueError`. -/
def float (text : List Char) : Option Double :=
  let (negative, cs) := split_sign text
  let whole := cs.takeWhile Char.isDigit
  let (fraction, rest) := fraction_part (cs.dropWhile Char.isDigit)
  if whole ++ fraction = [] then none
  else
    (exponent_part rest).map fun e =>
      let x : ℚ := Nat.ofDigitChars 10 (whole ++ fraction) 0 * 10 ^ (e - (fraction.length : ℤ))
      to_double (if negative then -x else x)

/-- `abs(used - sent) > tolerance`, in doubles. -/
def differs (used : Double) (sent tolerance : ℚ) : Bool :=
  match used with
  | .fin q => nearest tolerance < |nearest (q - sent)|
  | .inf _ => true
  | .nan => false

/-! ## The node -/

def START_DELAY_S : ℕ := 300000000

def START_CHECK_S : ℕ := 2000000000

/-- Between two looks of `_check_start`. -/
def CHECK_PERIOD_S : ℕ := 50000000

def ACTIVE_STATES : List String := ["starting", "running", "stopping"]

/-- Where the thread of a start is. -/
inductive Point where
  | publish_height
  | publish_period
  | sleep (wake : ℕ)
  /-- start is published, `_check_start` has not begun -/
  | spawned
  | poll (wake deadline : ℕ)
  | ended
  deriving DecidableEq, Repr

structure Call where
  height : ℚ
  period : ℚ
  first_message : ℕ
  point : Point
  deriving DecidableEq

structure WebNode where
  /-- the process has not ended -/
  running : Bool
  state : String
  message : String
  message_count : ℕ
  /-- the message count, height and period of the last start -/
  started_with : Option (ℕ × Double × Double)
  auto_stopping : Bool
  calls : List Call
  /-- what the page is told -/
  replies : List (Bool × String)
  deriving DecidableEq

namespace WebNode

def reply (w : WebNode) (ok : Bool) (text : String) : WebNode :=
  { w with replies := w.replies ++ [(ok, text)] }

def on_state (w : WebNode) (data : String) : WebNode := { w with state := data }

def on_message (w : WebNode) (data : String) : WebNode :=
  let t := { w with message := data, message_count := w.message_count + 1 }
  match search data.toList with
  | none => t
  | some (height, period) =>
      match float height, float period with
      | some height, some period =>
          { t with started_with := some (t.message_count, height, period) }
      | _, _ => { t with running := false } -- the executor raises what a callback raises

/-- `start` up to its first publication. -/
def start (w : WebNode) (height period : ℚ) : WebNode :=
  if w.auto_stopping then w.reply false "The wavemaker is stopping after the idle timeout."
  else if w.state ≠ "idle" then
    w.reply false ("The bridge is " ++ w.state ++ "; it must be idle to start a wave.")
  else { w with calls := w.calls ++ [⟨height, period, w.message_count, .publish_height⟩] }

/-- The request handler. -/
def post_start (w : WebNode) (height period : Double) : WebNode :=
  match height, period with
  | .fin height, .fin period =>
      if 0 < height ∧ 0 < period then w.start height period
      else w.reply false "Height and period must be positive."
  | _, _ => w.reply false "Height and period must be positive."

/-- `_check_idle` when the time is up. -/
def check_idle (w : WebNode) : WebNode :=
  if ACTIVE_STATES.contains w.state then w else { w with auto_stopping := true }

def goto (w : WebNode) (c : ℕ) (point : Point) : WebNode :=
  { w with calls := w.calls.modify c fun call => { call with point := point } }

end WebNode

/-! ## The topics -/

/-- What the server publishes. -/
inductive Command where
  | height (x : ℚ)
  | period (x : ℚ)
  | start (call : ℕ)
  /-- with the check that publishes it, or from the stop button -/
  | stop (call : Option ℕ)
  deriving DecidableEq

structure System where
  bridge : Bridge
  web : WebNode
  heights : List ℚ
  periods : List ℚ
  starts : List ℕ
  stops : List (Option ℕ)
  states : List String
  messages : List String
  /-- everything the server published -/
  out : List Command

/-- A message is dropped from a topic that keeps the last `depth`. -/
def overwritten {α : Type} (depth : ℕ) (q : List α) (i : ℕ) : Option (List α) :=
  if i + depth < q.length then some (q.eraseIdx i) else none

def status : Output → Option (String × String)
  | .publish state message => some (state_name state, message)
  | _ => none

namespace System

def publish (s : System) (command : Command) : System :=
  let s := { s with out := s.out ++ [command] }
  match command with
  | .height x => { s with heights := s.heights ++ [x] }
  | .period x => { s with periods := s.periods ++ [x] }
  | .start call => { s with starts := s.starts ++ [call] }
  | .stop call => { s with stops := s.stops ++ [call] }

/-- What the bridge published on its way to `b`. -/
def news (s : System) (b : Bridge) : List (String × String) :=
  (b.out.drop s.bridge.out.length).filterMap status

/-- The bridge takes a step to `b`. -/
def hear (s : System) (b : Bridge) : System :=
  { s with bridge := b
           states := s.states ++ (s.news b).map Prod.fst
           messages := s.messages ++ (s.news b).map Prod.snd }

/-- A command reaches the bridge; without a subscription it is lost. -/
def deliver (s : System) (e : Event) : System :=
  match step s.bridge e with
  | some b => s.hear b
  | none => s

def goto (s : System) (c : ℕ) (point : Point) : System := { s with web := s.web.goto c point }

/-- One look of `_check_start`. -/
def check_start (s : System) (c : ℕ) (call : Call) (deadline : ℕ) : System :=
  if s.bridge.now < deadline then
    match s.web.started_with with
    | some (count, used_height, used_period) =>
        if call.first_message < count then
          if differs used_height call.height (6 / 100000) ||
              differs used_period call.period (6 / 10000) then
            (s.publish (.stop (some c))).goto c .ended
          else s.goto c .ended
        else s.goto c (.poll (s.bridge.now + CHECK_PERIOD_S) deadline)
    | none => s.goto c (.poll (s.bridge.now + CHECK_PERIOD_S) deadline)
  else s.goto c .ended

/-- The next step of the thread of a call. -/
def advance (s : System) (c : ℕ) (call : Call) : Option System :=
  match call.point with
  | .publish_height => some ((s.publish (.height call.height)).goto c .publish_period)
  | .publish_period =>
      some ((s.publish (.period call.period)).goto c (.sleep (s.bridge.now + START_DELAY_S)))
  | .sleep wake =>
      if wake ≤ s.bridge.now then
        let t := (s.publish (.start c)).goto c .spawned
        some { t with web := t.web.reply true "Start sent." }
      else none
  | .spawned => some (s.goto c (.poll s.bridge.now (s.bridge.now + START_CHECK_S)))
  | .poll wake deadline =>
      if wake ≤ s.bridge.now then some (s.check_start c call deadline) else none
  | .ended => none

end System

/-! ## The system -/

inductive SystemEvent where
  /-- the controller, the clock, timers, lifecycle transitions and other clients -/
  | bridge (e : Event)
  | deliver_height | deliver_period | deliver_start | deliver_stop
  | drop_height (i : ℕ) | drop_period (i : ℕ) | drop_start (i : ℕ) | drop_stop (i : ℕ)
  | drop_state (i : ℕ) | drop_message (i : ℕ)
  | on_state | on_message
  | post_start (height period : Double)
  | post_stop
  | check_idle
  | thread (c : ℕ)
  /-- the process ends -/
  | exit
  deriving DecidableEq

/-- Numbers in messages and requests are doubles. -/
def well_typed : SystemEvent → Bool
  | .bridge (.height (some x)) | .bridge (.period (some x)) => is_double x
  | .post_start (.fin height) (.fin period) => is_double height && is_double period
  | _ => true

/-- A step of the web server, while it runs. -/
def by_web (s : System) (t : Option System) : Option System := if s.web.running then t else none

def act (s : System) : SystemEvent → Option System
  | .bridge e => (step s.bridge e).map s.hear
  | .deliver_height =>
      s.heights.head?.map fun x => { s with heights := s.heights.tail }.deliver (.height (some x))
  | .deliver_period =>
      s.periods.head?.map fun x => { s with periods := s.periods.tail }.deliver (.period (some x))
  | .deliver_start =>
      s.starts.head?.map fun _ => { s with starts := s.starts.tail }.deliver (.start_topic true)
  | .deliver_stop =>
      s.stops.head?.map fun _ => { s with stops := s.stops.tail }.deliver (.stop_topic true)
  | .drop_height i => (overwritten 10 s.heights i).map fun q => { s with heights := q }
  | .drop_period i => (overwritten 10 s.periods i).map fun q => { s with periods := q }
  | .drop_start i => (overwritten 10 s.starts i).map fun q => { s with starts := q }
  | .drop_stop i => (overwritten 10 s.stops i).map fun q => { s with stops := q }
  | .drop_state i => (overwritten 1 s.states i).map fun q => { s with states := q }
  | .drop_message i => (overwritten 1 s.messages i).map fun q => { s with messages := q }
  | .on_state =>
      by_web s (s.states.head?.map fun data =>
        { s with web := s.web.on_state data, states := s.states.tail })
  | .on_message =>
      by_web s (s.messages.head?.map fun data =>
        { s with web := s.web.on_message data, messages := s.messages.tail })
  | .post_start height period => by_web s (some { s with web := s.web.post_start height period })
  | .post_stop => by_web s (some (s.publish (.stop none)))
  | .check_idle => by_web s (some { s with web := s.web.check_idle })
  | .thread c => by_web s (s.web.calls[c]?.bind (s.advance c))
  | .exit => by_web s (some { s with web := { s.web with running := false } })

def system_step (s : System) (e : SystemEvent) : Option System :=
  if well_typed e then act s e else none

/-- The server before it has heard of anything. -/
def web_init : WebNode where
  running := true
  state := "unknown"
  message := ""
  message_count := 0
  started_with := none
  auto_stopping := false
  calls := []
  replies := []

def SystemInit (s : System) : Prop :=
  Init s.bridge ∧ s.web = web_init ∧ s.heights = [] ∧ s.periods = [] ∧ s.starts = [] ∧
    s.stops = [] ∧ s.states = [] ∧ s.messages = [] ∧ s.out = []

end WavemakerWeb
