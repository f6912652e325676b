/-
The action between the bridge and the controller.

`WavemakerBridge.lean` leaves open what comes back to the action client, and `WavemakerNode.lean`
who sends what arrives at the action server. Here one is the other's: what the bridge sends is on
its way until it arrives or is lost, a goal request is answered with what `goal_callback` decided,
the result of a goal is the state it ended in, and a request to cancel all goals cancels one after
the other of those the server has when it arrives. The bridge is the one of the `Rig`, with the web
server and its pages.

Other clients of the controller have goals of their own and may cancel any goal. The reply to a
cancel request is not tied to the request: it may come at any time, which is more than can happen.
-/
import Wavemakers.GoalOwners
import Wavemakers.HeartbeatWatch

set_option autoImplicit false

/-! ## What the action client sends -/

namespace WavemakerBridge

inductive Message where
  | goal (n : ℕ) (height period : ℚ)
  | cancel (n : ℕ)
  | cancel_all
  deriving DecidableEq

def message : Output → Option Message
  | .send_goal n height period => some (.goal n height period)
  | .cancel_goal n => some (.cancel n)
  | .cancel_all_goals => some .cancel_all
  | _ => none

/-- Everything sent so far. -/
def posts (s : Bridge) : List Message := s.out.filterMap message

section Posts

variable (s : Bridge)

theorem posts_send (o : Output) : posts (s.send o) = posts s ++ (message o).toList := by
  unfold posts Bridge.send
  rw [List.filterMap_append]
  cases hm : message o <;> simp [hm]

@[simp] theorem posts_publish_state (state : State) (text : String) :
    posts (s.publish_state state text) = posts s := by
  unfold Bridge.publish_state
  split
  · rw [posts_send]
    simp [message, posts]
  · rfl

@[simp] theorem posts_report (text : String) : posts (s.report text) = posts s :=
  posts_publish_state s _ _

@[simp] theorem posts_done (d : Option ℕ) (ok : Bool) (text : String) :
    posts (s.done d ok text) = posts s := by
  cases d with
  | none => rfl
  | some id => simp [Bridge.done, posts_send, message]

@[simp] theorem posts_finish_stop (ok : Bool) (text : String) :
    posts (s.finish_stop ok text) = posts s := by
  rw [Bridge.finish_stop, posts_done]
  rfl

@[simp] theorem posts_abandon_goal (reason : String) :
    posts (s.abandon_goal reason) = posts s := by
  rw [Bridge.abandon_goal, posts_finish_stop, posts_publish_state]
  rfl

@[simp] theorem posts_begin_stop (reason : String) (d : Option ℕ) :
    posts (s.begin_stop reason d) = posts s := by
  unfold Bridge.begin_stop
  generalize ht : (if s.goal_requested_ = true then { s with cancel_on_accept_ := true } else s) = t
  have hposts : posts t = posts s := by
    rw [← ht]
    split <;> rfl
  rw [← hposts]
  split
  · exact posts_publish_state t .Stopping reason
  · rfl

/-- A stop asks for all goals to be canceled, where there is a server to ask. -/
theorem posts_stop (reason : String) (d : Option ℕ) :
    posts (s.stop reason d) = posts s ++ if s.available then [.cancel_all] else [] := by
  unfold Bridge.stop
  dsimp only
  by_cases ha : s.available = true
  · rw [if_neg (by simp [ha]), if_pos ha]
    have hsend := posts_send (s.begin_stop reason d) .cancel_all_goals
    rw [posts_begin_stop] at hsend
    exact hsend
  · rw [if_pos (by simpa using ha), if_neg ha, List.append_nil]
    split <;> simp

/-- A start sends one goal, with the values of the two topics. -/
theorem posts_start : posts s.start = posts s ++
    if s.starts then (s.wave.map fun w => .goal (s.goal_generation_ + 1) w.1 w.2).toList else [] := by
  unfold Bridge.start Bridge.starts
  split
  · rename_i hstate
    simp [hstate]
  · rename_i hidle
    have hidle : s.state_ = .Idle := not_not.mp hidle
    split
    · rename_i hwave
      simp [hwave]
    · rename_i height period hwave
      split
      · rename_i halive
        simp [halive]
      · rename_i halive
        split
        · rename_i havailable
          simp [havailable]
        · rename_i havailable
          rw [Bool.not_eq_false] at halive havailable
          have hsend := posts_send (Bridge.publish_state
            { s with goal_generation_ := s.goal_generation_ + 1, goal_requested_ := true }
            .Starting (starting_text height period)) (.send_goal (s.goal_generation_ + 1) height period)
          rw [posts_publish_state] at hsend
          simpa [hidle, hwave, halive, havailable, posts, message] using hsend

theorem posts_watch : posts s.watch =
    posts s ++ if s.lost && s.available then [.cancel_all] else [] := by
  unfold Bridge.watch
  dsimp only
  generalize ht : (if (s.state_ = .Starting ∨ s.state_ = .Running) ∧ s.heartbeat_alive = false then
    s.stop "Stopped: client heartbeat (LabVIEW or web page) lost" none else s) = t
  have hposts : posts t = posts s ++ if s.lost && s.available then [.cancel_all] else [] := by
    rw [← ht]
    have hlost : s.lost = true ↔
        (s.state_ = .Starting ∨ s.state_ = .Running) ∧ s.heartbeat_alive = false := by
      simp [Bridge.lost]
    split
    · rename_i h
      rw [posts_stop, hlost.mpr h, Bool.true_and]
    · rename_i h
      have hno : s.lost = false := by
        rw [Bool.eq_false_iff, ne_eq, hlost]
        exact h
      simp [hno]
  rw [← hposts]
  split
  · rw [posts_publish_state]
    rfl
  · rfl

/-- A goal accepted after all is canceled by its name. -/
theorem posts_goal_response (n : ℕ) (accepted : Bool) :
    posts (s.goal_response_callback n accepted) = posts s ++
      if accepted && (n != s.goal_generation_ || s.cancel_on_accept_) then [.cancel n] else [] := by
  unfold Bridge.goal_response_callback
  by_cases hn : n = s.goal_generation_
  · rw [if_neg (by simp [hn])]
    cases accepted with
    | false =>
        simp only [Bool.false_eq_true, if_false, Bridge.on_goal_response, posts_finish_stop,
          posts_publish_state]
        exact (List.append_nil _).symm
    | true =>
        simp only [if_true, Bridge.on_goal_response]
        by_cases hc : s.cancel_on_accept_ = true
        · rw [if_pos hc, posts_send, if_pos (by simp [hc])]
          rfl
        · rw [if_neg hc, posts_publish_state, if_neg (by simp [hn, hc]), List.append_nil]
          rfl
  · rw [if_pos hn]
    cases accepted <;> simp [hn, posts_send, message]

@[simp] theorem posts_result_callback (n : ℕ) (code : ResultCode) (text : String) :
    posts (s.result_callback n code text) = posts s := by
  unfold Bridge.result_callback
  split
  · rw [Bridge.on_goal_result, posts_finish_stop, posts_publish_state]
    rfl
  · rfl

@[simp] theorem posts_cancel_callback (c : CancelCall) (ok empty : Bool) :
    posts (s.cancel_callback c ok empty) = posts s := by
  unfold Bridge.cancel_callback
  split
  · rfl
  · exact posts_done s _ _ _

theorem posts_cleanup_helper (reason : String) : posts (s.cleanup_helper reason) =
    posts s ++ if s.available then [.cancel_all] else [] := by
  rw [Bridge.cleanup_helper, posts_publish_state, ← posts_stop s reason none]
  have hsub : ∀ t : Bridge, posts { t with subscribed := false } = posts t := fun _ => rfl
  rw [hsub, posts_finish_stop]

end Posts

/-- What the step sends. -/
def emits (s : Bridge) (e : Event) : List Message :=
  match action s e with
  | .start => (s.wave.map fun w => .goal (s.goal_generation_ + 1) w.1 w.2).toList
  | .stop _ true | .leave true => [.cancel_all]
  | .respond n true =>
      if n != s.goal_generation_ || s.cancel_on_accept_ then [.cancel n] else []
  | _ => []

theorem posts_step {s t : Bridge} {e : Event} (h : step s e = some t) :
    posts t = posts s ++ emits s e := by
  have primary : ∀ (u : Bridge) (p : Primary), posts { u with primary := p } = posts u :=
    fun _ _ => rfl
  cases e with
  | configure =>
      obtain ⟨-, heq⟩ := Option.ite_none_right_eq_some.mp h
      cases heq
      rw [primary, Bridge.on_configure, posts_publish_state]
      exact (List.append_nil _).symm
  | activate timeout =>
      obtain ⟨-, heq⟩ := Option.ite_none_right_eq_some.mp h
      cases heq
      rw [primary, Bridge.on_activate, posts_publish_state]
      exact (List.append_nil _).symm
  | deactivate | shutdown | error =>
      obtain ⟨-, heq⟩ := Option.ite_none_right_eq_some.mp h
      cases heq
      rw [primary, posts_cleanup_helper]
      cases ha : s.available <;> simp [emits, action, ha]
  | watch =>
      obtain ⟨-, heq⟩ := Option.ite_none_right_eq_some.mp h
      cases heq
      rw [posts_watch]
      cases hl : s.lost <;> cases ha : s.available <;> simp [emits, action, hl, ha]
  | stop_topic data =>
      obtain ⟨-, heq⟩ := Option.ite_none_right_eq_some.mp h
      cases heq
      cases data with
      | true =>
          rw [if_pos rfl, posts_stop]
          cases ha : s.available <;> simp [emits, action, ha]
      | false => simp [emits, action]
  | start_topic data =>
      obtain ⟨-, heq⟩ := Option.ite_none_right_eq_some.mp h
      cases heq
      cases data with
      | true =>
          rw [if_pos rfl, posts_start]
          cases hs : s.starts <;> simp [emits, action, hs]
      | false => simp [emits, action]
  | stop_service id | pre_shutdown =>
      obtain ⟨-, heq⟩ := Option.ite_none_right_eq_some.mp h
      cases heq
      rw [posts_stop]
      cases ha : s.available <;> simp [emits, action, ha]
  | goal_response n accepted =>
      obtain ⟨-, heq⟩ := Option.ite_none_right_eq_some.mp h
      cases heq
      rw [posts_goal_response]
      cases accepted with
      | true => rfl
      | false => rfl
  | goal_result n code text =>
      obtain ⟨-, heq⟩ := Option.ite_none_right_eq_some.mp h
      cases heq
      rw [posts_result_callback]
      exact (List.append_nil _).symm
  | cancel_reply i ok empty =>
      simp only [step] at h
      split at h
      · cases h
        rw [posts_cancel_callback]
        exact (List.append_nil _).symm
      · cases h
  | stop_timeout =>
      obtain ⟨-, heq⟩ := Option.ite_none_right_eq_some.mp h
      cases heq
      simp [emits, action]
  | cleanup | heartbeat | height x | period x =>
      obtain ⟨-, heq⟩ := Option.ite_none_right_eq_some.mp h
      cases heq
      exact (List.append_nil _).symm
  | server ready | clock ns =>
      cases h
      exact (List.append_nil _).symm

end WavemakerBridge

/-! ## What becomes of a goal nobody has asked to cancel -/

namespace WavemakerNode

variable {P : Plant} {s t : State P} {e : Event P} {g : ℕ}

/-- The goal is active, and nobody has asked to cancel it. -/
def Live (s : State P) (g : ℕ) : Prop :=
  s.status g = some .accepted ∨ s.status g = some .executing

theorem Live.of_status (h : t.status g = s.status g) (hl : Live t g) : Live s g := by
  unfold Live at hl ⊢
  rw [← h]
  exact hl

theorem not_live {st : GoalStatus} (h : s.status g = some st) (ha : st ≠ .accepted)
    (he : st ≠ .executing) : ¬ Live s g := by
  unfold Live
  rw [h]
  simp [ha, he]

theorem Live.known (h : Live s g) : (s.goals g).isSome = true := by
  have hst : ∃ st, s.status g = some st := h.elim (fun h => ⟨_, h⟩) fun h => ⟨_, h⟩
  obtain ⟨st, hst⟩ := hst
  obtain ⟨x, hx, -⟩ := Option.map_eq_some_iff.mp hst
  rw [hx]
  rfl

theorem worked_live (h : Worked s t) (hl : Live t g) : Live s g := by
  cases h with
  | @executes k hw hst =>
      by_cases hg : g = k
      · rw [hg]
        exact .inl hst
      · exact hl.of_status ((status_eq_set hst).trans (if_neg hg))
  | @aborts k pc m hw _ _ =>
      rcases status_abort (s := s) g k m with hsame | ⟨-, -, heq⟩
      · exact hl.of_status hsame
      · exact absurd hl (not_live heq (by simp) (by simp))
  | @cancels k m hw hst =>
      by_cases hg : g = k
      · subst hg
        have hset := (status_set_self hst : (s.set_status g .canceled m).status g = _)
        exact absurd hl (not_live hset (by simp) (by simp))
      · exact hl.of_status ((status_eq_set hst).trans (if_neg hg))
  | @succeeds k m hw hor =>
      obtain ⟨st, hst⟩ : ∃ st, s.status k = some st := hor.elim (⟨_, ·⟩) (⟨_, ·⟩)
      by_cases hg : g = k
      · subst hg
        have hset := (status_set_self hst : (s.set_status g .succeeded m).status g = _)
        exact absurd hl (not_live hset (by simp) (by simp))
      · exact hl.of_status ((status_eq_set hst).trans (if_neg hg))
  | @releases k e _ => exact hl.of_status (status_release s g k)
  | @rejects k message _ =>
      exact hl.of_status (status_release { s with accepting_goals_ := false } g k)
  | @retires k _ => exact hl.of_status (status_release s g k)
  | _ => exact hl

theorem live_reap (h : Live (reap s) g) : Live s g := by
  have hopen : (reap s).Open g := by
    rcases h with h | h
    · exact open_of_status h rfl
    · exact open_of_status h rfl
  exact h.of_status (status_reap (open_reap hopen).2)

/-- The request for the goal. -/
def Requests (g : ℕ) (e : Event P) : Prop := ∃ r, e = .goal_request r ∧ r.id = g

/-- Only a request makes a goal live. -/
theorem step_live (hu : s.UnderWay) (h : step s e = some t) (hl : Live t g) :
    Live s g ∨ s.goals g = none ∧ Requests g e := by
  obtain ⟨u, hx, rfl⟩ := step_eq_some h
  have hl : Live u g := live_reap hl
  cases restatus hu hx g with
  | same heq => exact .inl (hl.of_status heq)
  | accepted hid _ hnone _ => exact .inr ⟨hnone, _, rfl, hid⟩
  | canceling _ _ heq => exact absurd hl (not_live heq (by simp) (by simp))
  | worked _ _ _ _ =>
      cases happens hx with
      | worker hw => exact .inl (worked_live (worker_cases hw) hl)
  | aborted _ _ heq => exact absurd hl (not_live heq (by simp) (by simp))

theorem goals_isSome_reap (s : State P) (g : ℕ) :
    ((reap s).goals g).isSome = (s.goals g).isSome := by
  simp [reap]

theorem status_isSome (s : State P) (g : ℕ) : (s.status g).isSome = (s.goals g).isSome := by
  simp [State.status]

/-- Only a request makes a goal known. -/
theorem step_known (hu : s.UnderWay) (h : step s e = some t) (hk : (t.goals g).isSome = true) :
    (s.goals g).isSome = true ∨ Requests g e := by
  obtain ⟨u, hx, rfl⟩ := step_eq_some h
  rw [goals_isSome_reap, ← status_isSome] at hk
  rw [← status_isSome]
  cases restatus hu hx g with
  | same heq =>
      rw [← heq]
      exact .inl hk
  | accepted hid _ _ _ => exact .inr ⟨_, rfl, hid⟩
  | canceling _ hor _ =>
      refine .inl ?_
      rcases hor with hst | hst <;> rw [hst] <;> rfl
  | worked _ hopen _ _ =>
      obtain ⟨st, hst, -⟩ := State.open_iff.mp hopen
      refine .inl ?_
      rw [hst]
      rfl
  | aborted _ hor _ =>
      refine .inl ?_
      rcases hor with hst | hst <;> rw [hst] <;> rfl

/-- The server takes a request to cancel the goal; a goal that has ended is left alone. -/
def cancel (s : State P) (g : ℕ) : State P := (step s (.cancel g)).getD s

/-- A canceled goal is not live any more. -/
theorem cancel_ends (hact : s.act = .idle) (hconf : s.configured = true) (g : ℕ) :
    ¬ Live (cancel s g) g := by
  intro hl
  unfold cancel at hl
  cases hst : step s (.cancel g) with
  | some t =>
      rw [hst] at hl
      obtain ⟨u, hx, rfl⟩ := step_eq_some hst
      have hl : Live u g := live_reap hl
      cases happens hx with
      | cancel _ hor =>
          obtain ⟨st, hst⟩ : ∃ st, s.status g = some st := hor.elim (⟨_, ·⟩) (⟨_, ·⟩)
          have hset := (status_set_self hst : (s.set_status g .canceling "").status g = _)
          exact absurd hl (not_live hset (by simp) (by simp))
  | none =>
      rw [hst] at hl
      have hl : Live s g := hl
      have hcall : s.goal_call g .cancel_goal "" = none := by
        simpa [step, raw_step, hact, hconf] using hst
      rcases hl with hl | hl
      · simpa [GoalStatus.next] using State.goal_call_eq_none hcall _ hl
      · simpa [GoalStatus.next] using State.goal_call_eq_none hcall _ hl

theorem cancel_live (hu : s.UnderWay) {k : ℕ} (hl : Live (cancel s k) g) : Live s g := by
  unfold cancel at hl
  cases hst : step s (.cancel k) with
  | some t =>
      rw [hst] at hl
      rcases step_live hu hst hl with hl | ⟨-, r, hr, -⟩
      · exact hl
      · cases hr
  | none =>
      rw [hst] at hl
      exact hl

theorem cancel_known (hu : s.UnderWay) {k : ℕ} (hk : ((cancel s k).goals g).isSome = true) :
    (s.goals g).isSome = true := by
  unfold cancel at hk
  cases hst : step s (.cancel k) with
  | some t =>
      rw [hst] at hk
      rcases step_known hu hst hk with hk | ⟨r, hr, -⟩
      · exact hk
      · cases hr
  | none =>
      rw [hst] at hk
      exact hk

end WavemakerNode

/-! ## The action -/

namespace WavemakerLink

open Interleave WavemakerWeb WavemakerBridge

variable {P : WavemakerNode.Plant}

/-- The bridge's goals have the even ids, those of other clients the odd ones. -/
def goal_id (n : ℕ) : ℕ := 2 * n

structure Loop (P : WavemakerNode.Plant) where
  rig : Rig
  node : WavemakerNode.State P
  /-- what the bridge has sent and has not arrived -/
  wire : List Message
  /-- the responses on their way -/
  answers : List (ℕ × Bool)
  /-- the goals the server has taken -/
  handles : List ℕ
  /-- those still to be canceled for a request that named all -/
  asked : List ℕ

inductive LoopEvent (P : WavemakerNode.Plant) where
  /-- the pages, the web server and the bridge -/
  | rig (e : RigEvent)
  /-- the controller and its other clients -/
  | node (e : WavemakerNode.Event P)
  /-- the message `i` arrives; for a goal, what the actuator answers -/
  | arrive (i : ℕ) (start : Option ℚ) (faulted live : Bool)
  | cancel_next
  /-- the response `i` arrives, the result of the bridge's goal `n` arrives -/
  | response (i : ℕ)
  | result (n : ℕ)
  | lost (i : ℕ)
  | response_lost (i : ℕ)

def result_code : WavemakerNode.GoalStatus → Option ResultCode
  | .succeeded => some .SUCCEEDED
  | .canceled => some .CANCELED
  | .aborted => some .ABORTED
  | _ => none

/-- What comes back to the action client. -/
def returns : RigEvent → Bool
  | .bridge (.goal_response _ _) | .bridge (.goal_result _ _ _) => true
  | _ => false

/-- The server is there and its callback group is idle. -/
def serves (node : WavemakerNode.State P) : Bool := decide (node.act = .idle) && node.configured

namespace Loop

/-- The bridge has moved; what it has sent is on its way. -/
def put (s : Loop P) (rig : Rig) : Loop P :=
  { s with rig := rig, wire := s.wire ++ (posts rig.bridge).drop (posts s.rig.bridge).length }

/-- A goal request is answered. -/
def serve (s : Loop P) (g : ℕ) (node : WavemakerNode.State P) : Loop P :=
  { s with node := node, handles := if (node.goals g).isSome then s.handles ++ [g] else s.handles }

end Loop

/-- `wave` makes the goal of the bridge's values. -/
def loop_step (wave : ℚ → ℚ → P.Goal) (s : Loop P) : LoopEvent P → Option (Loop P)
  | .rig e => if returns e then none else (rig_step s.rig e).map s.put
  | .node e =>
      match e with
      | .goal_request r =>
          if r.id % 2 = 1 then (WavemakerNode.step s.node (.goal_request r)).map (s.serve r.id)
          else none
      | e => (WavemakerNode.step s.node e).map fun node => { s with node := node }
  | .arrive i start faulted live =>
      match s.wire[i]? with
      | some (.goal n height period) =>
          let request := ⟨goal_id n, wave height period, start, faulted, live⟩
          (WavemakerNode.step s.node (.goal_request request)).map fun node =>
            { s.serve (goal_id n) node with
              wire := s.wire.eraseIdx i
              answers := s.answers ++ [(n, (node.goals (goal_id n)).isSome)] }
      | some (.cancel n) =>
          if serves s.node then
            some { s with node := WavemakerNode.cancel s.node (goal_id n), wire := s.wire.eraseIdx i }
          else none
      | some .cancel_all =>
          if serves s.node then
            some { s with
              wire := s.wire.eraseIdx i, asked := s.asked ++ s.handles.filter s.node.is_active }
          else none
      | none => none
  | .cancel_next =>
      match s.asked with
      | g :: rest =>
          if serves s.node then some { s with node := WavemakerNode.cancel s.node g, asked := rest }
          else none
      | [] => none
  | .response i =>
      match s.answers[i]? with
      | some (n, accepted) =>
          (rig_step s.rig (.bridge (.goal_response n accepted))).map fun rig =>
            { s.put rig with answers := s.answers.eraseIdx i }
      | none => none
  | .result n =>
      match s.node.goals (goal_id n) with
      | some x =>
          match result_code x.status with
          | some code => (rig_step s.rig (.bridge (.goal_result n code x.message))).map s.put
          | none => none
      | none => none
  | .lost i => if i < s.wire.length then some { s with wire := s.wire.eraseIdx i } else none
  | .response_lost i =>
      if i < s.answers.length then some { s with answers := s.answers.eraseIdx i } else none

def LoopInit (s : Loop P) : Prop :=
  RigInit s.rig ∧ WavemakerNode.Init s.node ∧ s.wire = [] ∧ s.answers = [] ∧ s.handles = [] ∧
    s.asked = []

/-! ## Every goal is looked after -/

/-- The goal will be canceled: a request for it is on its way, or its response is, to a bridge that
will cancel it then. -/
def Doomed (c : View) (wire : List Message) (asked : List ℕ) (n : ℕ) : Prop :=
  .cancel n ∈ wire ∨ .cancel_all ∈ wire ∨ goal_id n ∈ asked ∨
    n ∈ c.responses ∧ (n ≠ c.generation ∨ c.cancel_on_accept = true)

/-- The number of a goal request. -/
def request_of : Message → Option ℕ
  | .goal n _ _ => some n
  | _ => none

/-- The goals whose response the bridge is still to get. -/
def due (wire : List Message) (answers : List (ℕ × Bool)) : List ℕ :=
  wire.filterMap request_of ++ answers.map Prod.fst

structure Attended (c : View) (wire : List Message) (answers : List (ℕ × Bool)) (asked : List ℕ)
    (node : WavemakerNode.State P) : Prop where
  owed : (due wire answers : Multiset ℕ) = c.responses.val
  requested : c.requested = true → c.generation ∈ c.responses
  refused : ∀ n, (n, false) ∈ answers → (node.goals (goal_id n)).isSome = false
  known : ∀ n, (node.goals (goal_id n)).isSome = true → n ≤ c.generation
  watched : ∀ n, WavemakerNode.Live node (goal_id n) →
    n = c.generation ∧ c.waving ∨ Doomed c wire asked n

end WavemakerLink
