/-
`web_server.py` and `app.js`: what the open pages are sent, the heartbeat, the idle timer.

`WebServer.lean` has the thread of a start; this is the rest of what the server keeps under its
lock, and the pages. The node's callbacks share one callback group, so one runs at a time. Each
of the four that look at the clock or at the lock before they act is two steps, with `callback`
in between, and the request handlers and the threads of a start may come there. The thread of
`_auto_stop` is `auto_stop`.

A page has one connection at a time. Its events arrive in order, and when it is lost so is what
was still on its way. The thread of a lost connection goes on for a while and reaches nobody, so
it is left out. `recorded` and `logged` are everything the server took in, for the statements;
nothing reads them.

Times are in nanoseconds since the node was made. `none` in `last_ack` is minus infinity. What
the node itself logs is in `printed`; it comes back through `/rosout` like the lines of the other
nodes. Left out: the served files, the requests' JSON, and how a page draws what it has.
-/
import Wavemakers.Backlog
import Wavemakers.WebServer

set_option autoImplicit false

namespace WavemakerWeb

open Binary64

/-! ## Durations -/

/-- Python's `round`, ties to even. -/
def round_half_even (x : ℚ) : ℤ :=
  let rest := x - ⌊x⌋
  if rest < 1 / 2 ∨ rest = 1 / 2 ∧ ⌊x⌋ % 2 = 0 then ⌊x⌋ else ⌊x⌋ + 1

/-- `format_duration`, of a finite number of seconds. -/
def format_duration (seconds : ℚ) : String :=
  let total := (round_half_even (nearest (seconds / 60))).toNat
  let hours := total / 60
  let minutes := total % 60
  if hours ≠ 0 ∧ minutes ≠ 0 then Nat.repr hours ++ " h " ++ Nat.repr minutes ++ " min"
  else if hours ≠ 0 then Nat.repr hours ++ " h" else Nat.repr minutes ++ " min"

/-- A time in seconds. -/
def in_seconds (ns : ℚ) : ℚ := ns / 10 ^ 9

def warn_text (idle remaining : ℚ) : String :=
  "No wave for " ++ format_duration (in_seconds idle) ++ ": the wavemaker stops in " ++
    format_duration (in_seconds remaining) ++ ". Press Keep running on the page to stay on."

/-! ## Samples and log lines -/

def ACK_TIMEOUT_S : ℕ := 500000000

def EVENT_PERIOD_S : ℕ := 100000000

def PLOT_WINDOW_S : ℕ := 30000000000

def RETURN_TIMEOUT_S : ℕ := 60000000000

def EXIT_DELAY_S : ℕ := 2000000000

def LOG_HISTORY : ℕ := 300

inductive Kind where
  | setpoint | position
  deriving DecidableEq, Repr

structure Sample where
  time : ℕ
  kind : Kind
  value : Double
  deriving DecidableEq

/-- A message of `/rosout`. -/
structure Log where
  sec : ℤ
  nanosec : ℕ
  level : ℕ
  name : List Char
  msg : String
  deriving DecidableEq

structure Entry where
  stamp : ℚ
  level : String
  node : List Char
  text : String
  deriving DecidableEq

def LOG_LEVELS : List (ℕ × String) :=
  [(10, "debug"), (20, "info"), (30, "warn"), (40, "error"), (50, "fatal")]

def level_name (level : ℕ) : String := (LOG_LEVELS.lookup level).getD (Nat.repr level)

/-- `_log_prefix`: `get_namespace().strip('/').replace('/', '.')`. -/
def log_prefix_of (name_space : List Char) : List Char :=
  let stripped := ((name_space.dropWhile (· = '/')).reverse.dropWhile (· = '/')).reverse
  stripped.map fun c => if c = '/' then '.' else c

/-- The line is from a node of the namespace. -/
def from_namespace (name_space name : List Char) : Bool :=
  let own := log_prefix_of name_space
  own.isEmpty || name == own || (own ++ ['.']).isPrefixOf name

def entry_of (name_space : List Char) (msg : Log) : Entry where
  stamp := nearest (msg.sec + nearest (msg.nanosec * nearest (1 / 10 ^ 9)))
  level := level_name msg.level
  node :=
    let rest := (msg.name.drop (log_prefix_of name_space).length).dropWhile (· = '.')
    if rest = [] then msg.name else rest
  text := msg.msg

/-! ## The server -/

/-- A callback between its look at the clock or the lock and what it does then. -/
inductive Callback where
  | sample (time : ℕ) (kind : Kind) (value : Double)
  | heartbeat (checked : ℕ)
  | idle (time : ℕ)
  | warn (idle remaining : ℚ)
  deriving DecidableEq

/-- Where the thread of `_auto_stop` is. -/
inductive AutoStop where
  | off | started | printed | noticed
  /-- the lifecycle manager was asked to shut the nodes down -/
  | asked
  | sleep (wake : ℕ)
  | ended
  deriving DecidableEq, Repr

/-- Where a request handler is in `return_to_upright`. -/
inductive ReturnCall where
  /-- it waits for the service -/
  | service
  | reply (deadline : ℕ)
  | ended
  deriving DecidableEq, Repr

structure PageServer where
  /-- the fields of `WebServer.lean` -/
  web : WebNode
  now : ℕ
  name_space : List Char
  idle_timeout : ℚ
  idle_warning : ℚ
  notice : String
  samples : Backlog Sample
  logs : Backlog Entry
  last_ack : Option ℕ
  last_activity : ℕ
  idle_warned : Bool
  callback : Option Callback
  auto_stop : AutoStop
  returns : List ReturnCall
  /-- heartbeats on their way, by the time of the check before them -/
  heartbeats : List ℕ
  recorded : List Sample
  logged : List Entry
  /-- level and text of the node's own log lines, with their time -/
  printed : List (ℕ × String × String)

/-- What a page is sent. -/
structure Update where
  name_space : List Char
  state : String
  message : String
  notice : String
  time : ℕ
  idle_timeout : ℚ
  idle_stop_in : Option ℚ
  samples : List Sample
  logs : List Entry
  deriving DecidableEq

namespace PageServer

def print (s : PageServer) (level text : String) : PageServer :=
  { s with printed := s.printed ++ [(s.now, level, text)] }

/-- The bridge's state counts as a running wave. -/
def active (s : PageServer) : Bool := ACTIVE_STATES.contains s.web.state

/-! ### Callbacks -/

/-- `_on_sample` under the lock; `now` was read before. -/
def on_sample (s : PageServer) (now : ℕ) (kind : Kind) (value : Double) : PageServer :=
  let sample : Sample := ⟨now, kind, value⟩
  { s with samples := (s.samples.push sample).expire fun e => e.time + PLOT_WINDOW_S < now
           recorded := s.recorded ++ [sample] }

def on_log (s : PageServer) (msg : Log) : PageServer :=
  if from_namespace s.name_space msg.name then
    let entry := entry_of s.name_space msg
    { s with logs := (s.logs.push entry).bound LOG_HISTORY, logged := s.logged ++ [entry] }
  else s

def page_alive (s : PageServer) : Bool :=
  match s.last_ack with
  | none => false
  | some ack => s.now - ack < ACK_TIMEOUT_S

def send_heartbeat (s : PageServer) : PageServer :=
  if s.page_alive then { s with callback := some (.heartbeat s.now) } else s

def remaining (s : PageServer) (now : ℕ) : ℚ := s.idle_timeout - ((now : ℚ) - s.last_activity)

/-- `_check_idle` under the lock; `now` was read before. -/
def check_idle (s : PageServer) (now : ℕ) : PageServer :=
  if s.web.auto_stopping then s
  else if s.active then { s with last_activity := now, idle_warned := false }
  else
    let remaining := s.remaining now
    let warn : Bool := remaining ≤ s.idle_warning && !s.idle_warned
    let t := { s with idle_warned := s.idle_warned || warn }
    if remaining ≤ 0 then
      { t with web := { t.web with auto_stopping := true }, auto_stop := .started }
    else if warn then { t with callback := some (.warn ((now : ℚ) - s.last_activity) remaining) }
    else t

/-- The callback goes on. -/
def resume (s : PageServer) (c : Callback) : PageServer :=
  let t := { s with callback := none }
  match c with
  | .sample time kind value => t.on_sample time kind value
  | .heartbeat checked => { t with heartbeats := t.heartbeats ++ [checked] }
  | .idle time => t.check_idle time
  | .warn idle remaining => t.print "warn" (warn_text idle remaining)

/-! ### `_auto_stop` -/

def timeout_text (s : PageServer) : String := format_duration (in_seconds s.idle_timeout)

/-- The next step of `_auto_stop`. `manager` is how the lifecycle manager answers: it is not
there, it does not reply in time, or it reports success or failure. -/
def auto_stop_step (s : PageServer) (manager : Option (Option Bool)) : Option PageServer :=
  match s.auto_stop with
  | .off | .ended => none
  | .started =>
      some { s.print "warn" ("No wave for " ++ s.timeout_text ++ ": stopping the wavemaker") with
        auto_stop := .printed }
  | .printed =>
      some { s with
        notice := "Stopped after " ++ s.timeout_text ++
          " without a wave. Start the wavemaker again to continue."
        auto_stop := .noticed }
  | .noticed =>
      if manager.isSome then some { s with auto_stop := .asked }
      else
        let t := s.print "error"
          "Lifecycle manager not available; exiting, the launch stops the nodes"
        some { t with auto_stop := .sleep (s.now + EXIT_DELAY_S) }
  | .asked =>
      let t :=
        match manager.join with
        | none => s.print "error" "No reply from the lifecycle manager; exiting anyway"
        | some false => s.print "error" "The lifecycle manager reported a failed shutdown"
        | some true => s.print "info" "Managed nodes shut down"
      some { t with auto_stop := .sleep (s.now + EXIT_DELAY_S) }
  | .sleep wake =>
      if wake ≤ s.now then
        some { s with auto_stop := .ended, web := { s.web with running := false } }
      else none

/-! ### Requests -/

def acknowledge (s : PageServer) : PageServer := { s with last_ack := some s.now }

def keep_running (s : PageServer) : PageServer :=
  if s.web.auto_stopping then
    { s with web := s.web.reply false "The wavemaker is already stopping after the idle timeout." }
  else
    let t := { s with last_activity := s.now, idle_warned := false }
    let u := t.print "info" ("Keep running pressed: the wavemaker stops after " ++ s.timeout_text ++
      " without a wave from now")
    let text := "Keeping the wavemaker on for another " ++ s.timeout_text ++ " without a wave."
    { u with web := u.web.reply true text }

/-- The request handler of a start; `start` clears the notice. -/
def post_start (s : PageServer) (height period : Double) : PageServer :=
  let accepted : Bool :=
    match height, period with
    | .fin height, .fin period => decide (0 < height ∧ 0 < period) && !s.web.auto_stopping
    | _, _ => false
  { s with web := s.web.post_start height period, notice := if accepted then "" else s.notice }

def RETURN_STATUS : List (ℕ × String) :=
  [(0, "SUCCESS"), (1, "CONTROLLER_INACTIVE"), (2, "BUSY"), (3, "ACTUATOR_NOT_READY"),
    (4, "TIMEOUT"), (5, "ACTUATOR_FAULT"), (6, "POSITION_INVALID")]

def return_to_upright (s : PageServer) : PageServer :=
  if s.web.auto_stopping then
    { s with web := s.web.reply false "The wavemaker is stopping after the idle timeout." }
  else { s with returns := s.returns ++ [.service] }

/-- The handler of a return tells its page how it went. -/
def returned (s : PageServer) (i : ℕ) (ok : Bool) (text : String) : PageServer :=
  { s with returns := s.returns.set i .ended, web := s.web.reply ok text }

/-- `wait_for_service` comes back; where the service is there, the request is sent. -/
def return_service (s : PageServer) (i : ℕ) (available : Bool) : Option PageServer :=
  match s.returns[i]? with
  | some .service =>
      if available then
        some { s with returns := s.returns.set i (.reply (s.now + RETURN_TIMEOUT_S)) }
      else some (s.returned i false "The return_to_upright service is not available.")
  | _ => none

def return_reply (s : PageServer) (i status : ℕ) (message : String) : Option PageServer :=
  match s.returns[i]? with
  | some (.reply _) =>
      let name := (RETURN_STATUS.lookup status).getD (Nat.repr status)
      let text := if message = "" then name else name ++ ": " ++ message
      some (s.returned i (status == 0) text)
  | _ => none

def return_timeout (s : PageServer) (i : ℕ) : Option PageServer :=
  match s.returns[i]? with
  | some (.reply deadline) =>
      if deadline ≤ s.now then some (s.returned i false "No reply from return_to_upright.")
      else none
  | _ => none

/-! ### Updates -/

def idle_stop_in (s : PageServer) : Option ℚ :=
  if 0 < s.idle_timeout ∧ s.web.auto_stopping = false ∧ s.active = false then
    if s.remaining s.now ≤ s.idle_warning then some (max (s.remaining s.now) 0) else none
  else none

/-- The update, and the indices of the last sample and log line it contains. -/
def snapshot (s : PageServer) (after_sample after_log : ℕ) : Update × ℕ × ℕ :=
  ({ name_space := s.name_space
     state := s.web.state
     message := s.web.message
     notice := s.notice
     time := s.now
     idle_timeout := s.idle_timeout
     idle_stop_in := s.idle_stop_in
     samples := s.samples.after after_sample
     logs := s.logs.after after_log }, s.samples.count, s.logs.count)

end PageServer

/-! ## Steps of the server -/

inductive WebEvent where
  | clock (ns : ℕ)
  | on_state (data : String)
  | on_message (data : String)
  | on_log (msg : Log)
  | on_sample (kind : Kind) (value : Double)
  /-- the timers -/
  | send_heartbeat | check_idle
  | resume
  | auto_stop (manager : Option (Option Bool))
  | post_ack | post_keep_running
  | post_start (height period : Double)
  | post_return
  | return_service (i : ℕ) (available : Bool)
  | return_reply (i status : ℕ) (message : String)
  | return_timeout (i : ℕ)
  /-- the thread of a start goes on, `_check_start` sets the notice -/
  | thread (c : ℕ) (point : Point)
  | mismatch (text : String)
  /-- a heartbeat arrives or is lost -/
  | take_heartbeat (i : ℕ)
  deriving DecidableEq

/-- A callback begins where none is under way. -/
def calls_back (s t : PageServer) : Option PageServer := if s.callback = none then some t else none

def web_act (s : PageServer) : WebEvent → Option PageServer
  | .clock ns => some { s with now := s.now + ns }
  | .on_state data => calls_back s { s with web := s.web.on_state data }
  | .on_message data => calls_back s { s with web := s.web.on_message data }
  | .on_log msg => calls_back s (s.on_log msg)
  | .on_sample kind value => calls_back s { s with callback := some (.sample s.now kind value) }
  | .send_heartbeat => calls_back s s.send_heartbeat
  | .check_idle =>
      if 0 < s.idle_timeout then calls_back s { s with callback := some (.idle s.now) } else none
  | .resume => s.callback.map s.resume
  | .auto_stop manager => s.auto_stop_step manager
  | .post_ack => some s.acknowledge
  | .post_keep_running => some s.keep_running
  | .post_start height period => some (s.post_start height period)
  | .post_return => some s.return_to_upright
  | .return_service i available => s.return_service i available
  | .return_reply i status message => s.return_reply i status message
  | .return_timeout i => s.return_timeout i
  | .thread c point => some { s with web := s.web.goto c point }
  | .mismatch text => some { s with notice := text }
  | .take_heartbeat i =>
      if i < s.heartbeats.length then some { s with heartbeats := s.heartbeats.eraseIdx i } else none

/-- Nothing but the clock and what is on its way moves once the process has ended. -/
def web_step (s : PageServer) (e : WebEvent) : Option PageServer :=
  match e with
  | .clock _ | .take_heartbeat _ => web_act s e
  | _ => if s.web.running then web_act s e else none

theorem calls_back_eq {s t u : PageServer} (h : calls_back s t = some u) :
    s.callback = none ∧ u = t := by
  unfold calls_back at h
  split at h
  · rename_i hc
    exact ⟨hc, by simpa using h.symm⟩
  · cases h

theorem web_step_act {s t : PageServer} {e : WebEvent} (h : web_step s e = some t) :
    web_act s e = some t := by
  unfold web_step at h
  split at h
  · exact h
  · exact h
  · split at h
    · exact h
    · cases h

/-- A node just made. -/
def WebInit (s : PageServer) : Prop :=
  s.web = web_init ∧ s.now = 0 ∧ s.notice = "" ∧ s.samples = .empty ∧ s.logs = .empty ∧
    s.last_ack = none ∧ s.last_activity = 0 ∧ s.idle_warned = false ∧ s.callback = none ∧
    s.auto_stop = .off ∧ s.returns = [] ∧ s.heartbeats = [] ∧ s.recorded = [] ∧ s.logged = [] ∧
    s.printed = []

/-! ## The pages -/

/-- Twenty seconds of plot. -/
def PLOT_SECONDS : ℕ := 20000000000

def LOG_LINES : ℕ := 500

/-- A connection: the cursors of its `_events`, and what is written and not delivered. -/
structure Link where
  last_sample : ℕ
  last_log : ℕ
  wake : ℕ
  /-- each update with the indices that came with it, which stay with the server -/
  wire : List (Update × ℕ × ℕ)
  /-- how many log lines there were when it was made -/
  since : ℕ
  /-- the page has seen it open -/
  opened : Bool
  deriving DecidableEq

structure Page where
  /-- how often the page has connected -/
  connections : ℕ
  state : String
  message : String
  notice : String
  idle_stop_in : Option ℚ
  serverTime : ℕ
  series : Kind → List (ℕ × Double)
  log : List Entry
  /-- the indices that came with the last update on this connection -/
  seen : ℕ × ℕ

/-- `JSON.parse` takes an update whose numbers are finite. Python writes the others as `NaN` and
`Infinity`, which are not JSON. -/
def Update.parses (u : Update) : Bool := u.samples.all fun e => Numeric.isfinite e.value

namespace Page

def blank : Page where
  connections := 0
  state := "unknown"
  message := ""
  notice := ""
  idle_stop_in := none
  serverTime := 0
  series := fun _ => []
  log := []
  seen := (0, 0)

def appendLogs (p : Page) (entries : List Entry) : Page :=
  let log := p.log ++ entries
  if entries = [] then p else { p with log := log.drop (log.length - LOG_LINES) }

def onUpdate (p : Page) (u : Update) : Page :=
  let push (k : Kind) : List (ℕ × Double) :=
    p.series k ++ (u.samples.filter fun e => e.kind = k).map fun e => (e.time, e.value)
  let t := { p with
    state := u.state, message := u.message, notice := u.notice, idle_stop_in := u.idle_stop_in
    serverTime := u.time
    series := fun k => (push k).dropWhile fun point => point.1 + PLOT_SECONDS < u.time }
  t.appendLogs u.logs

/-- `onmessage`: an update that does not parse throws, after the request that acknowledges it. -/
def onmessage (p : Page) (u : Update × ℕ × ℕ) : Page :=
  if u.1.parses then { p.onUpdate u.1 with seen := u.2 } else p

def onopen (p : Page) : Page := { p with log := [] }

def connect (p : Page) : Page := { p with connections := p.connections + 1, seen := (0, 0) }

end Page

structure Site where
  server : PageServer
  pages : ℕ → Page
  links : ℕ → Option Link
  /-- requests of `api/ack` on their way -/
  acks : ℕ

inductive SiteEvent where
  | web (e : WebEvent)
  /-- an event source connects, its connection opens, an event arrives -/
  | connect (p : ℕ)
  | onopen (p : ℕ)
  | onmessage (p : ℕ)
  /-- `_events` sends an update -/
  | events (p : ℕ)
  /-- the connection of a page is lost -/
  | lost (p : ℕ)
  | logClear (p : ℕ)
  | ack
  | ack_lost
  deriving DecidableEq

/-- One round of `_events`. -/
def PageServer.events (s : PageServer) (l : Link) : Link :=
  let update := s.snapshot l.last_sample l.last_log
  { l with last_sample := update.2.1, last_log := update.2.2, wake := s.now + EVENT_PERIOD_S
           wire := l.wire ++ [update] }

def Site.show (s : Site) (p : ℕ) (page : Page) : Site :=
  { s with pages := Function.update s.pages p page }

def Site.relink (s : Site) (p : ℕ) (link : Option Link) : Site :=
  { s with links := Function.update s.links p link }

def site_step (s : Site) : SiteEvent → Option Site
  | .web .post_ack => none -- only a page sends these
  | .web e => (web_step s.server e).map fun t => { s with server := t }
  | .connect p =>
      if s.links p = none ∧ s.server.web.running then
        some ((s.show p (s.pages p).connect).relink p
          (some ⟨0, 0, 0, [], s.server.logs.count, false⟩))
      else none
  | .onopen p =>
      match s.links p with
      | some l =>
          if l.opened then none
          else some ((s.show p (s.pages p).onopen).relink p (some { l with opened := true }))
      | none => none
  | .onmessage p =>
      match s.links p with
      | some l =>
          match l.opened, l.wire with
          | true, u :: wire =>
              let t := s.show p ((s.pages p).onmessage u)
              some { t.relink p (some { l with wire := wire }) with acks := s.acks + 1 }
          | _, _ => none
      | none => none
  | .events p =>
      match s.links p with
      | some l =>
          if s.server.web.running ∧ l.wake ≤ s.server.now then
            some (s.relink p (some (s.server.events l)))
          else none
      | none => none
  | .lost p => some (s.relink p none)
  | .logClear p => some (s.show p { s.pages p with log := [] })
  | .ack =>
      if 0 < s.acks then
        (web_step s.server .post_ack).map fun t => { s with server := t, acks := s.acks - 1 }
      else none
  | .ack_lost => if 0 < s.acks then some { s with acks := s.acks - 1 } else none

def SiteInit (s : Site) : Prop :=
  WebInit s.server ∧ s.pages = (fun _ => .blank) ∧ s.links = (fun _ => none) ∧ s.acks = 0

/-! ## On the bench -/

def built : PageServer where
  web := web_init
  now := 0
  name_space := "/wavemakers/ladertanken".toList
  idle_timeout := 7200000000000
  idle_warning := 600000000000
  notice := ""
  samples := .empty
  logs := .empty
  last_ack := none
  last_activity := 0
  idle_warned := false
  callback := none
  auto_stop := .off
  returns := []
  heartbeats := []
  recorded := []
  logged := []
  printed := []

theorem built_init : WebInit built := by
  simp only [WebInit, built, and_self]

def launched : Site where
  server := built
  pages := fun _ => .blank
  links := fun _ => none
  acks := 0

theorem launched_init : SiteInit launched := ⟨built_init, rfl, rfl, rfl⟩

end WavemakerWeb
