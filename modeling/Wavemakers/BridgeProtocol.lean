/-
The stop protocol of the bridge.

`View` is the part of the bridge that decides what becomes of a goal and of a stop
request: its state, the two flags, the handle and the generation, the pending
stop with its timer, what the action client still owes, and from what was sent
the goals canceled one by one and the requests answered. Its actions are what the
callbacks of `wavemaker_bridge.cpp` do to it, with messages, heartbeats and
lifecycle bookkeeping gone. `view_step` connects the two: every step of the
bridge is an action on its view.
-/
import Wavemakers.WavemakerBridge

set_option autoImplicit false

namespace WavemakerBridge

structure View where
  /-- the lifecycle node is active -/
  active : Bool
  state : State
  requested : Bool
  cancel_on_accept : Bool
  handle : Option ℕ
  generation : ℕ
  done : Option ℕ
  timer : Bool
  responses : Finset ℕ
  results : Finset ℕ
  cancels : List CancelCall
  canceled : List ℕ
  replied : List ℕ

namespace View

def ours (c : View) : Bool := c.requested || c.handle.isSome

/-- Idle, or inactive if it is. -/
def idle (c : View) : View := { c with state := if c.state = .Inactive then .Inactive else .Idle }

def finish (c : View) : View :=
  { c with timer := false, done := none, replied := c.replied ++ c.done.toList }

/-- The goal is forgotten. -/
def forget (c : View) : View :=
  { c with generation := c.generation + 1, handle := none, requested := false
           cancel_on_accept := false }

def abandon (c : View) : View := c.forget.idle.finish

/-- A stop of our own goal begins. -/
def begin_stop (c : View) (d : Option ℕ) : View :=
  { c with cancel_on_accept := c.cancel_on_accept || c.requested, state := .Stopping
           done := d.or c.done, timer := true }

def stop (c : View) (d : Option ℕ) (available : Bool) : View :=
  if c.ours then
    if available then
      { c.begin_stop d with cancels := c.cancels ++ [⟨d, true⟩] }
    else (c.begin_stop d).abandon
  else if available then { c with cancels := c.cancels ++ [⟨d, false⟩] }
  else { c with replied := c.replied ++ d.toList }

/-- The node leaves the active state. -/
def leave (c : View) (available : Bool) : View :=
  { (c.stop none available).finish with active := false, state := .Inactive }

def start (c : View) : View :=
  { c with state := .Starting, requested := true, generation := c.generation + 1
           responses := insert (c.generation + 1) c.responses }

/-- A goal is accepted. -/
def accept (c : View) (n : ℕ) : View :=
  if n ≠ c.generation then { c with canceled := c.canceled ++ [n] }
  else if c.cancel_on_accept then
    { c with requested := false, handle := some n, cancel_on_accept := false
             canceled := c.canceled ++ [n] }
  else { c with requested := false, handle := some n, state := .Running }

/-- A goal is rejected. -/
def reject (c : View) (n : ℕ) : View :=
  if n ≠ c.generation then c
  else { c with requested := false, cancel_on_accept := false }.idle.finish

def respond (c : View) (n : ℕ) (accepted : Bool) : View :=
  if accepted then
    { c with responses := c.responses.erase n, results := insert n c.results }.accept n
  else { c with responses := c.responses.erase n }.reject n

def result (c : View) (n : ℕ) : View :=
  let t := { c with results := c.results.erase n }
  if n = c.generation then { t with handle := none }.idle.finish else t

def cancel_reply (c : View) (i : ℕ) (call : CancelCall) : View :=
  let t := { c with cancels := c.cancels.eraseIdx i }
  if call.ours then t else { t with replied := t.replied ++ call.done.toList }

/-- The action client is destroyed or replaced. -/
def drop (c : View) : View :=
  { c with active := false, responses := ∅, results := ∅, cancels := [] }

/-- What a callback does. -/
inductive Act where
  | skip
  | start
  | stop (d : Option ℕ) (available : Bool)
  | leave (available : Bool)
  | respond (n : ℕ) (accepted : Bool)
  | result (n : ℕ)
  | cancel_reply (i : ℕ)
  | timeout
  | configure
  | activate
  | cleanup

inductive Does (c : View) : Act → View → Prop where
  | skip : Does c .skip c
  | start : c.active = true → c.state = .Idle → Does c .start c.start
  | stop {d : Option ℕ} {available : Bool} : c.active = true →
      Does c (.stop d available) (c.stop d available)
  | leave {available : Bool} : Does c (.leave available) (c.leave available)
  | respond {n : ℕ} {accepted : Bool} : n ∈ c.responses →
      Does c (.respond n accepted) (c.respond n accepted)
  | result {n : ℕ} : n ∈ c.results → Does c (.result n) (c.result n)
  | cancel_reply {i : ℕ} {call : CancelCall} : c.cancels[i]? = some call →
      Does c (.cancel_reply i) (c.cancel_reply i call)
  | timeout : c.timer = true → Does c .timeout c.abandon
  | configure : c.active = false → Does c .configure { c.drop with state := .Inactive }
  | activate : c.active = false → Does c .activate { c with active := true, state := .Idle }
  | cleanup : c.active = false → Does c .cleanup c.drop

end View

/-! ## The view of a bridge -/

def canceled_goal : Output → Option ℕ
  | .cancel_goal n => some n
  | _ => none

def replied_request : Output → Option ℕ
  | .reply id _ _ => some id
  | _ => none

def view (s : Bridge) : View where
  active := decide (s.primary = .active)
  state := s.state_
  requested := s.goal_requested_
  cancel_on_accept := s.cancel_on_accept_
  handle := s.goal_handle_
  generation := s.goal_generation_
  done := s.stop_done_
  timer := s.stop_timeout_
  responses := s.responses
  results := s.results
  cancels := s.cancels
  canceled := s.out.filterMap canceled_goal
  replied := s.out.filterMap replied_request

section Views

variable (s : Bridge)

theorem view_publish_state (state : State) (message : String) :
    view (s.publish_state state message) = { view s with state := state } := by
  unfold Bridge.publish_state
  by_cases hp : s.publishers = true
  · simp only [hp, if_true, view, Bridge.send, List.filterMap_append, List.filterMap_cons,
      canceled_goal, replied_request, List.filterMap_nil, List.append_nil]
  · simp only [hp, view]
    rfl

theorem view_report (message : String) : view (s.report message) = view s := by
  rw [Bridge.report, view_publish_state]
  rfl

theorem view_done (d : Option ℕ) (ok : Bool) (message : String) :
    view (s.done d ok message) = { view s with replied := (view s).replied ++ d.toList } := by
  cases d with
  | none => simp only [Bridge.done, Option.toList_none, List.append_nil]
  | some id =>
      simp only [Bridge.done, view, Bridge.send, List.filterMap_append, List.filterMap_cons,
        canceled_goal, replied_request, List.filterMap_nil, List.append_nil, Option.toList_some]
      rfl

theorem view_finish_stop (ok : Bool) (message : String) :
    view (s.finish_stop ok message) = (view s).finish := by
  rw [Bridge.finish_stop, view_done]
  rfl

theorem view_abandon_goal (reason : String) : view (s.abandon_goal reason) = (view s).abandon := by
  rw [Bridge.abandon_goal, view_finish_stop, view_publish_state]
  rfl

theorem view_send (o : Output) (hc : canceled_goal o = none) (hr : replied_request o = none) :
    view (s.send o) = view s := by
  simp only [view, Bridge.send, List.filterMap_append, List.filterMap_cons, hc, hr,
    List.filterMap_nil, List.append_nil]
  rfl

theorem view_cancel_goal (n : ℕ) :
    view (s.send (.cancel_goal n)) = { view s with canceled := (view s).canceled ++ [n] } := by
  simp only [view, Bridge.send, List.filterMap_append, List.filterMap_cons, canceled_goal,
    replied_request, List.filterMap_nil, List.append_nil]
  rfl

theorem view_begin_stop (reason : String) (d : Option ℕ) (ho : s.ours = true) :
    view (s.begin_stop reason d) = (view s).begin_stop d := by
  rw [Bridge.begin_stop, if_pos ho]
  generalize ht : (if s.goal_requested_ = true then { s with cancel_on_accept_ := true } else s) = t
  have hview : view t = { view s with
      cancel_on_accept := s.cancel_on_accept_ || s.goal_requested_ } := by
    rw [← ht]
    by_cases hr : s.goal_requested_ = true
    · have hset : (s.cancel_on_accept_ || s.goal_requested_) = true := by rw [hr, Bool.or_true]
      rw [if_pos hr, hset]
      rfl
    · have hset : (s.cancel_on_accept_ || s.goal_requested_) = s.cancel_on_accept_ := by
        rw [Bool.eq_false_iff.mpr hr, Bool.or_false]
      rw [if_neg hr, hset]
      rfl
  have hpub := view_publish_state t .Stopping reason
  show { view (t.publish_state .Stopping reason) with
    done := d.or (view (t.publish_state .Stopping reason)).done, timer := true } = _
  rw [hpub, hview]
  rfl

theorem begin_stop_not_ours {reason : String} {d : Option ℕ} (ho : s.ours = false) :
    s.begin_stop reason d = s := by
  obtain ⟨hr, -⟩ := Bool.or_eq_false_iff.mp ho
  simp only [Bridge.begin_stop, ho, hr, if_false, Bool.false_eq_true]

theorem view_cancels (l : List CancelCall) :
    view { s with cancels := l } = { view s with cancels := l } := rfl

theorem view_stop (reason : String) (d : Option ℕ) :
    view (s.stop reason d) = (view s).stop d s.available := by
  have hours : (view s).ours = s.ours := rfl
  unfold Bridge.stop View.stop
  dsimp only
  rw [hours]
  by_cases ho : s.ours = true
  · have hbegin := view_begin_stop s reason d ho
    rw [if_pos ho, if_pos ho]
    by_cases ha : s.available = true
    · have hcancels : (s.begin_stop reason d).cancels = s.cancels := congrArg View.cancels hbegin
      rw [if_neg (ne_false_of_eq_true ha), if_pos ha, view_cancels, view_send _ _ rfl rfl, hbegin,
        hcancels, ho]
      rfl
    · rw [if_pos (Bool.eq_false_iff.mpr ha), if_neg ha, view_abandon_goal, hbegin]
  · rw [begin_stop_not_ours s (Bool.eq_false_iff.mpr ho), if_neg ho, if_neg ho]
    by_cases ha : s.available = true
    · rw [if_neg (ne_false_of_eq_true ha), if_pos ha, view_cancels, view_send _ _ rfl rfl,
        Bool.eq_false_iff.mpr ho]
      rfl
    · rw [if_pos (Bool.eq_false_iff.mpr ha), if_neg ha, view_done, view_report]

theorem view_responses (l : Finset ℕ) :
    view { s with responses := l } = { view s with responses := l } := rfl

/-- The checks of `start`. -/
def Bridge.starts : Bool :=
  decide (s.state_ = .Idle) && s.wave.isSome && s.heartbeat_alive && s.available

/-- A start is refused, or it sends a goal. -/
theorem view_start : view s.start = if s.starts then (view s).start else view s := by
  unfold Bridge.start
  split
  · rename_i hstate
    -- the four refusals of `start`, in the source's order
    have hno : ¬ s.starts = true := by
      simp only [Bridge.starts, decide_eq_false hstate, Bool.false_and, Bool.false_eq_true,
        not_false_eq_true]
    rw [if_neg hno, view_report]
  · rename_i hidle
    have hidle : s.state_ = .Idle := not_not.mp hidle
    split
    · rename_i hwave
      have hno : ¬ s.starts = true := by
        simp only [Bridge.starts, hwave, Option.isSome_none, Bool.and_false, Bool.false_and,
          Bool.false_eq_true, not_false_eq_true]
      rw [if_neg hno, view_report]
    · rename_i height period hwave
      split
      · rename_i halive
        have hno : ¬ s.starts = true := by
          simp only [Bridge.starts, halive, Bool.and_false, Bool.false_and, Bool.false_eq_true,
            not_false_eq_true]
        rw [if_neg hno, view_report]
      · rename_i halive
        split
        · rename_i havailable
          have hno : ¬ s.starts = true := by
            simp only [Bridge.starts, havailable, Bool.and_false, Bool.false_eq_true,
              not_false_eq_true]
          rw [if_neg hno, view_report]
        · rename_i havailable
          -- all four checks passed
          have hyes : s.starts = true := by
            rw [Bool.not_eq_false] at halive havailable
            simp only [Bridge.starts, hidle, hwave, halive, havailable, decide_true,
              Option.isSome_some, Bool.and_self]
          rw [if_pos hyes, view_responses, view_send _ _ rfl rfl, view_publish_state]
          rfl

/-- The heartbeat is lost while a wave is starting or running. -/
def Bridge.lost : Bool :=
  (decide (s.state_ = .Starting) || decide (s.state_ = .Running)) && !s.heartbeat_alive

theorem view_watch : view s.watch = if s.lost then (view s).stop none s.available else view s := by
  unfold Bridge.watch
  dsimp only
  generalize ht : (if (s.state_ = .Starting ∨ s.state_ = .Running) ∧ s.heartbeat_alive = false then
    s.stop "Stopped: client heartbeat (LabVIEW or web page) lost" none else s) = t
  have hview : view t = if s.lost then (view s).stop none s.available else view s := by
    rw [← ht]
    by_cases hlost : (s.state_ = .Starting ∨ s.state_ = .Running) ∧ s.heartbeat_alive = false
    · have hyes : s.lost = true := by
        simpa only [Bridge.lost, Bool.and_eq_true, Bool.or_eq_true, decide_eq_true_eq,
          Bool.not_eq_true'] using hlost
      rw [if_pos hlost, if_pos hyes, view_stop]
    · have hno : ¬ s.lost = true := by
        simpa only [Bridge.lost, Bool.and_eq_true, Bool.or_eq_true, decide_eq_true_eq,
          Bool.not_eq_true'] using hlost
      rw [if_neg hlost, if_neg hno]
  rw [← hview]
  split
  · rw [view_publish_state]
    rfl
  · rfl

theorem view_on_goal_response (n : ℕ) (accepted : Bool) :
    view (s.goal_response_callback n accepted) =
      if accepted then (view s).accept n else (view s).reject n := by
  have hgen : (view s).generation = s.goal_generation_ := rfl
  unfold Bridge.goal_response_callback View.accept View.reject
  rw [hgen]
  by_cases hn : n ≠ s.goal_generation_
  · simp only [if_pos hn]
    cases accepted with
    | true =>
        rw [if_pos rfl, if_pos rfl]
        exact view_cancel_goal s n
    | false => rfl
  · simp only [if_neg hn]
    cases accepted with
    | true =>
        simp only [if_true, Bridge.on_goal_response]
        by_cases hc : s.cancel_on_accept_ = true
        · have hc' : (view s).cancel_on_accept = true := hc
          rw [if_pos hc, if_pos hc', view_cancel_goal]
          rfl
        · have hc' : ¬ (view s).cancel_on_accept = true := hc
          rw [if_neg hc, if_neg hc', view_publish_state]
          rfl
    | false =>
        simp only [if_false, Bool.false_eq_true, Bridge.on_goal_response]
        rw [view_finish_stop, view_publish_state]
        rfl

theorem view_result_callback (n : ℕ) (code : ResultCode) (text : String) :
    view (s.result_callback n code text) =
      if n = (view s).generation then { view s with handle := none }.idle.finish else view s := by
  have hgen : (view s).generation = s.goal_generation_ := rfl
  unfold Bridge.result_callback
  rw [hgen]
  by_cases hn : n = s.goal_generation_
  · rw [if_pos hn, if_pos hn, Bridge.on_goal_result, view_finish_stop, view_publish_state]
    rfl
  · rw [if_neg hn, if_neg hn]

theorem view_cancel_callback (c : CancelCall) (ok empty : Bool) :
    view (s.cancel_callback c ok empty) =
      if c.ours then view s else { view s with replied := (view s).replied ++ c.done.toList } := by
  unfold Bridge.cancel_callback
  by_cases hc : c.ours = true
  · rw [if_pos hc, if_pos hc]
  · rw [if_neg hc, if_neg hc, view_done]

theorem view_cleanup_helper (reason : String) (p : Primary) (hp : p ≠ .active) :
    view { s.cleanup_helper reason with primary := p } = (view s).leave s.available := by
  have hactive : ∀ t : Bridge, view { t with primary := p } = { view t with active := false } := by
    intro t
    simp only [view, decide_eq_false hp]
  rw [hactive, Bridge.cleanup_helper, view_publish_state]
  have hsub : ∀ t : Bridge, view { t with subscribed := false } = view t := fun _ => rfl
  rw [hsub, view_finish_stop, view_stop]
  rfl

end Views

/-! ## Every step is an action -/

/-- What the step does, in the words of the protocol. -/
def action (s : Bridge) : Event → View.Act
  | .configure => .configure
  | .activate _ => .activate
  | .deactivate | .shutdown | .error => .leave s.available
  | .cleanup => .cleanup
  | .watch => if s.lost then .stop none s.available else .skip
  | .stop_topic data => if data then .stop none s.available else .skip
  | .start_topic data => if data && s.starts then .start else .skip
  | .stop_service id => .stop (some id) s.available
  | .pre_shutdown => .stop none s.available
  | .goal_response n accepted => .respond n accepted
  | .goal_result n _ _ => .result n
  | .cancel_reply i _ _ => .cancel_reply i
  | .stop_timeout => .timeout
  | .heartbeat | .height _ | .period _ | .server _ | .clock _ => .skip

/-- The subscriptions exist in the active node only. -/
def Subscribed (s : Bridge) : Prop := s.subscribed = true → s.primary = .active

/-- What the callbacks of goals, stops and the watch timer leave alone. -/
structure Held where
  primary : Primary
  subscribed : Bool
  publishers : Bool
  height : Option ℚ
  period : Option ℚ

def held (s : Bridge) : Held where
  primary := s.primary
  subscribed := s.subscribed
  publishers := s.publishers
  height := s.height_
  period := s.period_

section Held

variable (s : Bridge)

@[simp] theorem held_publish_state (state : State) (message : String) :
    held (s.publish_state state message) = held s := by
  unfold Bridge.publish_state
  split
  · rfl
  · rfl

@[simp] theorem held_report (message : String) : held (s.report message) = held s :=
  held_publish_state s _ _

@[simp] theorem held_done (d : Option ℕ) (ok : Bool) (message : String) :
    held (s.done d ok message) = held s := by
  cases d with
  | none => rfl
  | some id => rfl

@[simp] theorem held_finish_stop (ok : Bool) (message : String) :
    held (s.finish_stop ok message) = held s := by
  rw [Bridge.finish_stop, held_done]
  rfl

@[simp] theorem held_abandon_goal (reason : String) :
    held (s.abandon_goal reason) = held s := by
  rw [Bridge.abandon_goal, held_finish_stop, held_publish_state]
  rfl

@[simp] theorem held_begin_stop (reason : String) (d : Option ℕ) :
    held (s.begin_stop reason d) = held s := by
  unfold Bridge.begin_stop
  generalize ht : (if s.goal_requested_ = true then { s with cancel_on_accept_ := true } else s) = t
  have hheld : held t = held s := by
    rw [← ht]
    split
    · rfl
    · rfl
  rw [← hheld]
  split
  · exact held_publish_state t .Stopping reason
  · rfl

@[simp] theorem held_stop (reason : String) (d : Option ℕ) :
    held (s.stop reason d) = held s := by
  unfold Bridge.stop
  dsimp only
  split
  · split
    · rw [held_abandon_goal, held_begin_stop]
    · rw [held_done, held_report, held_begin_stop]
  · exact held_begin_stop s reason d

@[simp] theorem held_start : held s.start = held s := by
  unfold Bridge.start
  split
  · exact held_report s _
  · split
    · exact held_report s _
    · split
      · exact held_report s _
      · split
        · exact held_report s _
        · exact held_publish_state _ _ _

@[simp] theorem held_watch : held s.watch = held s := by
  unfold Bridge.watch
  generalize ht : (if (s.state_ = .Starting ∨ s.state_ = .Running) ∧ s.heartbeat_alive = false then
    s.stop "Stopped: client heartbeat (LabVIEW or web page) lost" none else s) = t
  have hheld : held t = held s := by
    rw [← ht]
    split
    · exact held_stop s _ _
    · rfl
  rw [← hheld]
  dsimp only
  split
  · exact held_publish_state _ _ _
  · rfl

@[simp] theorem held_goal_response_callback (n : ℕ) (accepted : Bool) :
    held (s.goal_response_callback n accepted) = held s := by
  unfold Bridge.goal_response_callback
  split
  · split
    · rfl
    · rfl
  · cases accepted with
    | true =>
        simp only [if_true, Bridge.on_goal_response]
        split
        · rfl
        · rw [held_publish_state]
          rfl
    | false =>
        simp only [if_false, Bool.false_eq_true, Bridge.on_goal_response]
        rw [held_finish_stop, held_publish_state]
        rfl

@[simp] theorem held_result_callback (n : ℕ) (code : ResultCode) (text : String) :
    held (s.result_callback n code text) = held s := by
  unfold Bridge.result_callback
  split
  · rw [Bridge.on_goal_result, held_finish_stop, held_publish_state]
    rfl
  · rfl

@[simp] theorem held_cancel_callback (c : CancelCall) (ok empty : Bool) :
    held (s.cancel_callback c ok empty) = held s := by
  unfold Bridge.cancel_callback
  split
  · rfl
  · exact held_done s _ _ _

theorem held_cleanup_helper (reason : String) :
    held (s.cleanup_helper reason) = { held s with subscribed := false } := by
  have hstop : held ((s.stop reason none).finish_stop false "Bridge is no longer active") =
      held s := by
    rw [held_finish_stop, held_stop]
  rw [Bridge.cleanup_helper, held_publish_state, ← hstop]
  rfl

end Held

/-- What an event does to it. -/
def Held.after (k : Held) : Event → Held
  | .configure => { k with primary := .inactive, publishers := true }
  | .activate _ => { k with primary := .active, subscribed := true }
  | .deactivate => { k with primary := .inactive, subscribed := false }
  | .cleanup => { k with primary := .unconfigured, publishers := false }
  | .shutdown => { k with primary := .finalized, subscribed := false }
  | .error => { k with primary := .unconfigured, subscribed := false }
  | .height x => { k with height := x }
  | .period x => { k with period := x }
  | _ => k

theorem held_step {s t : Bridge} {e : Event} (h : step s e = some t) :
    held t = (held s).after e := by
  -- the lifecycle library sets the primary state after the callback
  have primary : ∀ (u : Bridge) (p : Primary), held { u with primary := p } =
      { held u with primary := p } := fun _ _ => rfl
  cases e with
  | configure =>
      obtain ⟨-, heq⟩ := Option.ite_none_right_eq_some.mp h
      cases heq
      rw [primary, Bridge.on_configure, held_publish_state]
      rfl
  | activate timeout =>
      obtain ⟨-, heq⟩ := Option.ite_none_right_eq_some.mp h
      cases heq
      rw [primary, Bridge.on_activate, held_publish_state]
      rfl
  | deactivate | shutdown | error =>
      obtain ⟨-, heq⟩ := Option.ite_none_right_eq_some.mp h
      cases heq
      rw [primary, held_cleanup_helper]
      rfl
  | stop_topic data | start_topic data =>
      obtain ⟨-, heq⟩ := Option.ite_none_right_eq_some.mp h
      cases heq
      cases data with
      | true => simp [Held.after]
      | false => rfl
  | watch | stop_service id | pre_shutdown | stop_timeout =>
      obtain ⟨-, heq⟩ := Option.ite_none_right_eq_some.mp h
      cases heq
      simp [Held.after]
  | goal_response n accepted =>
      obtain ⟨-, heq⟩ := Option.ite_none_right_eq_some.mp h
      cases heq
      exact held_goal_response_callback _ n accepted
  | goal_result n code text =>
      obtain ⟨-, heq⟩ := Option.ite_none_right_eq_some.mp h
      cases heq
      exact held_result_callback _ n code text
  | cancel_reply i ok empty =>
      simp only [step] at h
      split at h
      · rename_i c _
        cases h
        exact held_cancel_callback _ c ok empty
      · cases h
  | cleanup | heartbeat | height x | period x =>
      obtain ⟨-, heq⟩ := Option.ite_none_right_eq_some.mp h
      cases heq
      rfl
  | server ready | clock ns =>
      cases h
      rfl

theorem step_subscribed {s t : Bridge} {e : Event} (hsub : Subscribed s) (h : step s e = some t) :
    Subscribed t := by
  have hheld := held_step h
  have hp : t.primary = ((held s).after e).primary := congrArg Held.primary hheld
  have hs : t.subscribed = ((held s).after e).subscribed := congrArg Held.subscribed hheld
  unfold Subscribed
  rw [hp, hs]
  -- a node that has not been active has no subscriptions
  have none_yet : s.primary ≠ .active → ((held s).subscribed = true → False) :=
    fun hne hs => hne (hsub hs)
  cases e with
  | configure =>
      obtain ⟨hprimary, -⟩ := Option.ite_none_right_eq_some.mp h
      exact fun hs => (none_yet (by rw [hprimary]; nofun) hs).elim
  | cleanup =>
      obtain ⟨hprimary, -⟩ := Option.ite_none_right_eq_some.mp h
      exact fun hs => (none_yet (by rw [hprimary]; nofun) hs).elim
  | activate timeout => exact fun _ => rfl
  | deactivate | shutdown | error => exact nofun
  | _ => exact hsub

theorem view_step {s t : Bridge} {e : Event} (hsub : Subscribed s) (h : step s e = some t) :
    (view s).Does (action s e) (view t) := by
  -- the topics and the watch timer exist only while the node is active
  have active : s.subscribed = true → (view s).active = true := fun hs => decide_eq_true (hsub hs)
  cases e with
  | configure =>
      obtain ⟨hp, heq⟩ := Option.ite_none_right_eq_some.mp h
      cases heq
      have hview : view { s.on_configure with primary := .inactive } =
          { (view s).drop with state := .Inactive } := by
        have hactive : ∀ u : Bridge, view { u with primary := .inactive } =
            { view u with active := false } := fun _ => rfl
        rw [hactive, Bridge.on_configure, view_publish_state]
        rfl
      rw [hview]
      -- the new action client knows nothing of what the old one waited for
      exact .configure (decide_eq_false (by rw [hp]; nofun))
  | activate timeout =>
      obtain ⟨hp, heq⟩ := Option.ite_none_right_eq_some.mp h
      cases heq
      have hview : view { s.on_activate timeout with primary := .active } =
          { view s with active := true, state := .Idle } := by
        have hactive : ∀ u : Bridge, view { u with primary := .active } =
            { view u with active := true } := fun _ => rfl
        rw [hactive, Bridge.on_activate, view_publish_state]
        rfl
      rw [hview]
      exact .activate (decide_eq_false (by rw [hp]; nofun))
  | deactivate =>
      obtain ⟨-, heq⟩ := Option.ite_none_right_eq_some.mp h
      cases heq
      rw [view_cleanup_helper s _ .inactive nofun]
      exact .leave
  | cleanup =>
      obtain ⟨hp, heq⟩ := Option.ite_none_right_eq_some.mp h
      cases heq
      exact .cleanup (decide_eq_false (by rw [hp]; nofun))
  | shutdown =>
      obtain ⟨-, heq⟩ := Option.ite_none_right_eq_some.mp h
      cases heq
      rw [view_cleanup_helper s _ .finalized nofun]
      exact .leave
  | error =>
      obtain ⟨-, heq⟩ := Option.ite_none_right_eq_some.mp h
      cases heq
      rw [view_cleanup_helper s _ .unconfigured nofun]
      exact .leave
  | watch =>
      obtain ⟨hs, heq⟩ := Option.ite_none_right_eq_some.mp h
      cases heq
      rw [view_watch, action]
      by_cases hlost : s.lost = true
      · rw [if_pos hlost, if_pos hlost]
        exact .stop (active hs)
      · rw [if_neg hlost, if_neg hlost]
        exact .skip
  | stop_topic data =>
      obtain ⟨hs, heq⟩ := Option.ite_none_right_eq_some.mp h
      cases heq
      cases data with
      | true =>
          rw [if_pos rfl, view_stop]
          exact .stop (active hs)
      | false => exact .skip
  | start_topic data =>
      obtain ⟨hs, heq⟩ := Option.ite_none_right_eq_some.mp h
      cases heq
      cases data with
      | true =>
          rw [if_pos rfl, view_start, action, Bool.true_and]
          by_cases hstarts : s.starts = true
          · rw [if_pos hstarts, if_pos hstarts]
            refine .start (active hs) ?_
            simp only [Bridge.starts, Bool.and_eq_true, decide_eq_true_eq] at hstarts
            exact hstarts.1.1.1
          · rw [if_neg hstarts, if_neg hstarts]
            exact .skip
      | false => exact .skip
  | stop_service id | pre_shutdown =>
      obtain ⟨hs, heq⟩ := Option.ite_none_right_eq_some.mp h
      cases heq
      rw [view_stop]
      exact .stop (active hs)
  | goal_response n accepted =>
      obtain ⟨hn, heq⟩ := Option.ite_none_right_eq_some.mp h
      cases heq
      rw [view_on_goal_response (s.responded n accepted) n accepted]
      cases accepted with
      | true => exact .respond hn
      | false => exact .respond hn
  | goal_result n code text =>
      obtain ⟨hn, heq⟩ := Option.ite_none_right_eq_some.mp h
      cases heq
      have hview := view_result_callback { s with results := s.results.erase n } n code text
      rw [hview]
      exact .result hn
  | cancel_reply i ok empty =>
      simp only [step] at h
      split at h
      · rename_i c hc
        cases h
        have hview := view_cancel_callback { s with cancels := s.cancels.eraseIdx i } c ok empty
        rw [hview]
        exact .cancel_reply hc
      · cases h
  | stop_timeout =>
      obtain ⟨ht, heq⟩ := Option.ite_none_right_eq_some.mp h
      cases heq
      rw [view_abandon_goal]
      exact .timeout ht
  | heartbeat | height x | period x =>
      obtain ⟨-, heq⟩ := Option.ite_none_right_eq_some.mp h
      cases heq
      exact .skip
  | server ready | clock ns =>
      cases h
      exact .skip

end WavemakerBridge
