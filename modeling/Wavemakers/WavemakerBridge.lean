/-
`wavemaker_bridge.cpp`: the node between topic-based clients and the controller.

The executor runs one callback at a time, so a callback is one step. What the
bridge waits for is kept beside its own fields: the goals that were sent and have
no response yet, the accepted goals without a result, and the calls of
`async_cancel_all_goals` whose reply is still to come, each with what its callback
captured. Any of them may be delivered next or never, a goal's result after its
response. They belong to the action client: when it is destroyed or replaced they
are dropped.

A goal is named by the generation its callbacks captured, a stop request by its
request id. `goal_generation_` counts in ℕ. Everything the bridge sends is
recorded in `out`. The bond and the log output are left out, and so are replies of
`async_cancel_goal`, which have no callback.
-/
import Wavemakers.Interleave
import Mathlib.Algebra.Order.Ring.Rat
import Mathlib.Data.Finset.Basic
import Mathlib.Data.Rat.Floor

set_option autoImplicit false

namespace WavemakerBridge

inductive State where
  | Inactive | Idle | Starting | Running | Stopping
  deriving DecidableEq, Repr

def state_name : State → String
  | .Inactive => "inactive"
  | .Idle => "idle"
  | .Starting => "starting"
  | .Running => "running"
  | .Stopping => "stopping"

inductive ResultCode where
  | CANCELED | SUCCEEDED | ABORTED | UNKNOWN
  deriving DecidableEq, Repr

inductive Primary where
  | unconfigured | inactive | active | finalized
  deriving DecidableEq, Repr

/-- What the bridge sends. -/
inductive Output where
  | publish (state : State) (message : String)
  | send_goal (n : ℕ) (height period : ℚ)
  | cancel_goal (n : ℕ)
  | cancel_all_goals
  /-- the reply to a stop service request -/
  | reply (id : ℕ) (ok : Bool) (message : String)
  deriving DecidableEq, Repr

/-- What the callback of an `async_cancel_all_goals` captured. -/
structure CancelCall where
  done : Option ℕ
  ours : Bool
  deriving DecidableEq, Repr

structure Bridge where
  primary : Primary
  /-- `action_client_` is not null -/
  action_client_ : Bool
  /-- the two publishers exist -/
  publishers : Bool
  /-- the subscriptions, the stop service, the watch timer and the pre-shutdown
  callback exist -/
  subscribed : Bool
  heartbeat_seen_ : Bool
  last_heartbeat_ : ℕ
  heartbeat_timeout_ : ℚ
  watch_ticks_ : UInt32
  /-- `none` is a value that is not finite -/
  height_ : Option ℚ
  period_ : Option ℚ
  goal_requested_ : Bool
  cancel_on_accept_ : Bool
  goal_handle_ : Option ℕ
  goal_generation_ : ℕ
  stop_done_ : Option ℕ
  /-- `stop_timeout_` is armed -/
  stop_timeout_ : Bool
  state_ : State
  last_message_ : String
  now : ℕ
  /-- `action_server_is_ready()` -/
  ready : Bool
  responses : Finset ℕ
  results : Finset ℕ
  cancels : List CancelCall
  out : List Output

/-! ## Messages -/

/-- `%.<digits>f` of a value that is not negative, ties to even. -/
def to_fixed (digits : ℕ) (x : ℚ) : String :=
  let scaled := x * 10 ^ digits
  let low := ⌊scaled⌋.toNat
  let rest := scaled - low
  let n := if rest < 1 / 2 ∨ rest = 1 / 2 ∧ low % 2 = 0 then low else low + 1
  let frac := Nat.repr (n % 10 ^ digits)
  Nat.repr (n / 10 ^ digits) ++ "." ++
    String.ofList (List.replicate (digits - frac.length) '0') ++ frac

/-- The text of a start, cut to the size of its buffer. -/
def starting_text (height period : ℚ) : String :=
  String.ofList (("Starting wave: height " ++ to_fixed 4 height ++ " m, period " ++
    to_fixed 3 period ++ " s").toList.take 95)

def result_message (code : ResultCode) (message : String) : String :=
  match code with
  | .CANCELED => "Stopped, holding position."
  | .SUCCEEDED => "Wave finished successfully"
  | .ABORTED => "Wave aborted: " ++ message
  | .UNKNOWN => "Wave ended"

namespace Bridge

def send (s : Bridge) (o : Output) : Bridge := { s with out := s.out ++ [o] }

def publish_state (s : Bridge) (state : State) (message : String) : Bridge :=
  let t := { s with state_ := state, last_message_ := message }
  if s.publishers then t.send (.publish state message) else t

/-- Reports a refused command without changing the state. -/
def report (s : Bridge) (message : String) : Bridge := s.publish_state s.state_ message

def idle_unless_inactive (s : Bridge) : State :=
  if s.state_ = .Inactive then .Inactive else .Idle

/-- The call of a `StopDone`, where there is one. -/
def done (s : Bridge) (d : Option ℕ) (ok : Bool) (message : String) : Bridge :=
  match d with
  | some id => s.send (.reply id ok message)
  | none => s

def finish_stop (s : Bridge) (ok : Bool) (message : String) : Bridge :=
  { s with stop_timeout_ := false, stop_done_ := none }.done s.stop_done_ ok message

/-- Gives up on our goal when the controller does not confirm a stop. -/
def abandon_goal (s : Bridge) (reason : String) : Bridge :=
  let message := reason ++ "; stop not confirmed by controller, verify"
  let t := { s with goal_generation_ := s.goal_generation_ + 1, goal_handle_ := none
                    goal_requested_ := false, cancel_on_accept_ := false }
  (t.publish_state t.idle_unless_inactive message).finish_stop false message

/-! ## Start and stop -/

def heartbeat_alive (s : Bridge) : Bool :=
  s.heartbeat_seen_ && decide (((s.now : ℚ) - s.last_heartbeat_) < s.heartbeat_timeout_)

/-- Both values are positive and finite. -/
def wave (s : Bridge) : Option (ℚ × ℚ) :=
  match s.height_, s.period_ with
  | some height, some period => if 0 < height ∧ 0 < period then some (height, period) else none
  | _, _ => none

/-- There is an action server to talk to. -/
def available (s : Bridge) : Bool := s.action_client_ && s.ready

def start (s : Bridge) : Bridge :=
  if s.state_ ≠ .Idle then
    s.report ("start refused: wave is " ++ state_name s.state_ ++ "; stop it first")
  else
    match s.wave with
    | none => s.report "start refused: height and period must be positive and finite"
    | some (height, period) =>
        if s.heartbeat_alive = false then
          s.report "start refused: no client heartbeat (LabVIEW or web page)"
        else if s.available = false then s.report "start refused: action server not available"
        else
          let n := s.goal_generation_ + 1
          let t := { s with goal_generation_ := n, goal_requested_ := true }
          let u := t.publish_state .Starting (starting_text height period)
          { u.send (.send_goal n height period) with responses := insert n s.responses }

/-- The goal is ours: a response or a result is due. -/
def ours (s : Bridge) : Bool := s.goal_requested_ || s.goal_handle_.isSome

/-- `stop` up to the check of the action server. -/
def begin_stop (s : Bridge) (reason : String) (d : Option ℕ) : Bridge :=
  let t := if s.goal_requested_ then { s with cancel_on_accept_ := true } else s
  if s.ours then
    let u := t.publish_state .Stopping reason
    { u with stop_done_ := d.or u.stop_done_, stop_timeout_ := true }
  else t

def stop (s : Bridge) (reason : String) (d : Option ℕ) : Bridge :=
  let t := s.begin_stop reason d
  if s.available = false then
    if s.ours then t.abandon_goal "Move Wavemaker action is not available"
    else
      (t.report "Stop: Move Wavemaker action is not available").done d false
        "Move Wavemaker action is not available"
  else { t.send .cancel_all_goals with cancels := t.cancels ++ [⟨d, s.ours⟩] }

def watch (s : Bridge) : Bridge :=
  let t :=
    if (s.state_ = .Starting ∨ s.state_ = .Running) ∧ s.heartbeat_alive = false then
      s.stop "Stopped: client heartbeat (LabVIEW or web page) lost" none
    else s
  let u := { t with watch_ticks_ := t.watch_ticks_ + 1 }
  if u.watch_ticks_ % 10 = 0 then u.publish_state u.state_ u.last_message_ else u

/-! ## What comes back -/

def on_goal_response (s : Bridge) (handle : Option ℕ) : Bridge :=
  let s := { s with goal_requested_ := false }
  match handle with
  | none =>
      let t := { s with cancel_on_accept_ := false }
      (t.publish_state t.idle_unless_inactive
        "Goal rejected by controller (see its log)").finish_stop true "stopped"
  | some n =>
      let t := { s with goal_handle_ := some n }
      if t.cancel_on_accept_ then { t with cancel_on_accept_ := false }.send (.cancel_goal n)
      else t.publish_state .Running "Wave running"

/-- The response callback of the goal `n`. -/
def goal_response_callback (s : Bridge) (n : ℕ) (accepted : Bool) : Bridge :=
  if n ≠ s.goal_generation_ then
    -- abandoned: make sure it does not run
    if accepted then s.send (.cancel_goal n) else s
  else s.on_goal_response (if accepted then some n else none)

def on_goal_result (s : Bridge) (code : ResultCode) (text : String) : Bridge :=
  let t := { s with goal_handle_ := none }
  let message := result_message code text
  (t.publish_state t.idle_unless_inactive message).finish_stop true message

/-- The result callback of the goal `n`. -/
def result_callback (s : Bridge) (n : ℕ) (code : ResultCode) (text : String) : Bridge :=
  if n = s.goal_generation_ then s.on_goal_result code text else s

/-- The callback of an `async_cancel_all_goals`. -/
def cancel_callback (s : Bridge) (c : CancelCall) (ok empty : Bool) : Bridge :=
  if c.ours then s -- the result callback or the timer finishes the stop
  else s.done c.done ok (if empty then "Nothing running" else "Cancel accepted")

/-- The response of the goal `n` is not due any more; an accepted goal has a
result. -/
def responded (s : Bridge) (n : ℕ) (accepted : Bool) : Bridge :=
  { s with responses := s.responses.erase n
           results := if accepted then insert n s.results else s.results }

/-! ## Lifecycle -/

/-- Destroying the action client drops its pending callbacks. -/
def drop_client (s : Bridge) : Bridge := { s with responses := ∅, results := ∅, cancels := [] }

def on_configure (s : Bridge) : Bridge :=
  { s.drop_client with action_client_ := true, publishers := true }.publish_state .Inactive
    "configured"

def on_activate (s : Bridge) (heartbeat_timeout : ℚ) : Bridge :=
  { s with heartbeat_timeout_ := heartbeat_timeout, subscribed := true }.publish_state .Idle "ready"

def cleanup_helper (s : Bridge) (reason : String) : Bridge :=
  let t := (s.stop reason none).finish_stop false "Bridge is no longer active"
  { t with subscribed := false }.publish_state .Inactive reason

def on_cleanup (s : Bridge) : Bridge :=
  { s.drop_client with action_client_ := false, publishers := false }

end Bridge

/-! ## The system -/

inductive Event where
  | configure
  | activate (heartbeat_timeout : ℚ)
  | deactivate | cleanup | shutdown | error
  | heartbeat
  | watch
  | height (x : Option ℚ)
  | period (x : Option ℚ)
  | stop_topic (data : Bool)
  | start_topic (data : Bool)
  | stop_service (id : ℕ)
  | pre_shutdown
  | goal_response (n : ℕ) (accepted : Bool)
  | goal_result (n : ℕ) (code : ResultCode) (text : String)
  | cancel_reply (i : ℕ) (ok empty : Bool)
  | stop_timeout
  /-- the action server appears or disappears -/
  | server (ready : Bool)
  | clock (ns : ℕ)
  deriving DecidableEq

def step (s : Bridge) : Event → Option Bridge
  | .configure =>
      if s.primary = .unconfigured then some { s.on_configure with primary := .inactive } else none
  | .activate timeout =>
      if s.primary = .inactive then some { s.on_activate timeout with primary := .active } else none
  | .deactivate =>
      if s.primary = .active then
        some { s.cleanup_helper "Bridge is deactivating" with primary := .inactive }
      else none
  | .cleanup =>
      if s.primary = .inactive then some { s.on_cleanup with primary := .unconfigured } else none
  | .shutdown =>
      if s.primary ≠ .finalized then
        some { s.cleanup_helper "Bridge is shutting down" with primary := .finalized }
      else none
  | .error =>
      if s.primary ≠ .finalized then
        some { s.cleanup_helper "Bridge error" with primary := .unconfigured }
      else none
  | .heartbeat =>
      if s.subscribed then some { s with last_heartbeat_ := s.now, heartbeat_seen_ := true } else none
  | .watch => if s.subscribed then some s.watch else none
  | .height x => if s.subscribed then some { s with height_ := x } else none
  | .period x => if s.subscribed then some { s with period_ := x } else none
  | .stop_topic data =>
      if s.subscribed then some (if data then s.stop "Operator pressed stop" none else s) else none
  | .start_topic data => if s.subscribed then some (if data then s.start else s) else none
  | .stop_service id =>
      if s.subscribed then some (s.stop "Stopped by stop service" (some id)) else none
  | .pre_shutdown => if s.subscribed then some (s.stop "Bridge is shutting down" none) else none
  | .goal_response n accepted =>
      if n ∈ s.responses then some ((s.responded n accepted).goal_response_callback n accepted)
      else none
  | .goal_result n code text =>
      if n ∈ s.results then
        some ({ s with results := s.results.erase n }.result_callback n code text)
      else none
  | .cancel_reply i ok empty =>
      match s.cancels[i]? with
      | some c => some ({ s with cancels := s.cancels.eraseIdx i }.cancel_callback c ok empty)
      | none => none
  | .stop_timeout =>
      if s.stop_timeout_ then some (s.abandon_goal "No result from the controller") else none
  | .server ready => some { s with ready := ready }
  | .clock ns => some { s with now := s.now + ns }

/-- A constructed bridge. -/
def Init (s : Bridge) : Prop :=
  s.primary = .unconfigured ∧ s.action_client_ = false ∧ s.publishers = false ∧
    s.subscribed = false ∧ s.heartbeat_seen_ = false ∧ s.watch_ticks_ = 0 ∧
    s.height_ = some 0 ∧ s.period_ = some 0 ∧ s.goal_requested_ = false ∧
    s.cancel_on_accept_ = false ∧ s.goal_handle_ = none ∧ s.goal_generation_ = 0 ∧
    s.stop_done_ = none ∧ s.stop_timeout_ = false ∧ s.state_ = .Inactive ∧
    s.last_message_ = "" ∧ s.responses = ∅ ∧ s.results = ∅ ∧ s.cancels = [] ∧ s.out = []

/-! ## On the bench -/

def constructed : Bridge where
  primary := .unconfigured
  action_client_ := false
  publishers := false
  subscribed := false
  heartbeat_seen_ := false
  last_heartbeat_ := 0
  heartbeat_timeout_ := 1000000000
  watch_ticks_ := 0
  height_ := some 0
  period_ := some 0
  goal_requested_ := false
  cancel_on_accept_ := false
  goal_handle_ := none
  goal_generation_ := 0
  stop_done_ := none
  stop_timeout_ := false
  state_ := .Inactive
  last_message_ := ""
  now := 0
  ready := true
  responses := ∅
  results := ∅
  cancels := []
  out := []

theorem constructed_init : Init constructed := by
  simp only [Init, constructed, and_self]

/-- Up to an active bridge that has all it needs for a start. -/
def boot : List Event :=
  [.configure, .activate 1000000000, .heartbeat, .height (some (1 / 20)), .period (some 2)]

end WavemakerBridge
