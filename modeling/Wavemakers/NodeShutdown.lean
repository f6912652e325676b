/-
The node can always be shut down.

Three threads take `execution_mutex_`, whoever holds it joins the worker, and `stop_activity` waits
for the poll thread as well. Whoever joins the worker has set `stop_execution_` before (`Flagged`),
so the worker ends by itself; whoever waits for the mutex gets it. From every reachable state a
shutdown goes through, in steps in which nothing fails (`can_be_shut_down`): no order of the
threads' steps ends in a deadlock, and no goal is left without an end.
-/
import Wavemakers.GoalCancel
import Wavemakers.NodeProgress

set_option autoImplicit false

namespace WavemakerNode

open Interleave

variable {P : Plant}

/-! ## Named goals -/

/-- A goal that is named and has not ended is with its callback or its worker. -/
def Borne (s : State P) : Prop :=
  ∀ g, s.goal_handle_ = some g → s.Open g →
    s.act.waiting = some g ∨ ∃ pc, s.worker = some (.goal g pc)

/-- A goal that has not ended is referenced by somebody. -/
def Kept (s : State P) : Prop := ∀ g, s.Open g → s.referenced g = true

section Borne

variable {s t : State P} {e : Event P} {g : ℕ}

theorem not_open {st : GoalStatus} (h : s.status g = some st) (hst : st.is_active = false) :
    ¬s.Open g := by
  intro hopen
  obtain ⟨st', heq, hactive⟩ := State.open_iff.mp hopen
  rw [h] at heq
  cases heq
  rw [hst] at hactive
  cases hactive

/-- What has not ended had not ended before, or it is new. -/
theorem Restatus.was_open (h : Restatus s t g e) (ht : t.Open g) : s.Open g ∨ t.act = .handle g := by
  cases h with
  | same heq =>
      obtain ⟨st, hst, hactive⟩ := State.open_iff.mp ht
      exact .inl (open_of_status (heq.symm.trans hst) hactive)
  | accepted _ _ _ hact => exact .inr hact
  | canceling _ hor _ =>
      rcases hor with hst | hst
      · exact .inl (open_of_status hst rfl)
      · exact .inl (open_of_status hst rfl)
  | worked _ hopen _ _ => exact .inl hopen
  | aborted _ _ heq => exact absurd ht (not_open heq rfl)

/-- The worker of a goal ends the goal or gives up its name before it ends itself. -/
theorem worked_bears (hu : s.UnderWay) (hx : Worked s t) {pc : GoalPc}
    (hw : s.worker = some (.goal g pc)) (hhd : t.goal_handle_ = some g) (hopen : t.Open g) :
    ∃ pc', t.worker = some (.goal g pc') := by
  have same : ∀ {k pc'}, s.worker = some (.goal k pc') → k = g := by
    intro k pc' hk
    rw [hw] at hk
    cases hk
    rfl
  cases hx with
  | moves hk _ | executes hk _ | releases hk | rejects hk | reason hk | store hk | stop hk _
  | succeeds hk _ =>
      rw [same hk]
      exact ⟨_, rfl⟩
  | @aborts k pc' m hk hreleasing _ =>
      obtain rfl := same hk
      exfalso
      rcases s.abort_goal_cases k m with ⟨st, hst, -, heq⟩ | ⟨heq, haccepted⟩
      · rw [heq] at hopen
        have hset : ((s.set_status k .aborted m).end_worker).status k = some .aborted :=
          status_set_self hst
        exact not_open hset rfl hopen
      · rw [heq] at hopen
        refine hu.executed k pc' hk ?_ (haccepted hopen)
        rintro rfl
        cases hreleasing
  | @cancels k m hk hst =>
      obtain rfl := same hk
      have hset : ((s.set_status k .canceled m).end_worker).status k = some .canceled :=
        status_set_self hst
      exact absurd hopen (not_open hset rfl)
  | @retires k hk =>
      obtain rfl := same hk
      exfalso
      rcases release_handle_cases s k with ⟨-, heq⟩ | ⟨hne, heq⟩
      · rw [heq] at hhd
        cases hhd
      · rw [heq] at hhd
        exact hne hhd
  | returns hk _ _ | gives_back hk | replies hk =>
      rw [hw] at hk
      cases hk

theorem raw_step_borne (hu : s.UnderWay) (hj : Joined s) (ho : Owners s) (h : Borne s)
    (hx : raw_step s e = some t) : Borne t := by
  intro g hg hopen
  have hact := rehandled (raw_step_cases hx)
  rcases (restatus hu hx g).was_open hopen with hs | hnew
  · rcases hact.handle hg with hhd | ⟨-, hstart⟩
    · rcases h g hhd hs with hwait | ⟨pc, hw⟩
      · rcases waiting_after hact hwait with hwait | hw | habort
        · exact .inl hwait
        · exact .inr ⟨_, hw⟩
        · exact absurd habort (ho.handle g hhd).2
      · refine .inr ?_
        by_cases he : ∃ i, e = .worker i
        · obtain ⟨i, rfl⟩ := he
          exact worked_bears hu (worker_cases hx) hw hg hopen
        · have he : ∀ i, e ≠ .worker i := fun i hi => he ⟨i, hi⟩
          exact ⟨pc, (other_handled hj (raw_step_cases hx) he).running hw (by simp)⟩
    · rw [hstart]
      exact .inl rfl
  · rw [hnew]
    exact .inl rfl

theorem step_borne (hs : Sound s) (h : Borne s) (hx : step s e = some t) : Borne t := by
  obtain ⟨u, hu, rfl⟩ := step_eq_some hx
  intro g hg hopen
  exact raw_step_borne hs.underWay hs.joined hs.owners h hu g hg (open_reap hopen).1

theorem step_kept (hx : step s e = some t) : Kept t := by
  obtain ⟨u, -, rfl⟩ := step_eq_some hx
  exact fun g hopen => (open_reap hopen).2

theorem reach_borne {C : State P → Event P → Prop} (h : Reach step C Init s) :
    Borne s ∧ Kept s := by
  have hinit : ∀ s : State P, Init s → Sound s ∧ Borne s ∧ Kept s := by
    intro s hs
    have hsound := init_sound hs
    obtain ⟨-, -, -, hhd, -, -, -, -, -, -, -, -, -, -, -, hgoals, -⟩ := hs
    refine ⟨hsound, fun g hg => ?_, fun g hopen => ?_⟩
    · rw [hhd] at hg
      cases hg
    · obtain ⟨st, hst, -⟩ := State.open_iff.mp hopen
      rw [State.status, hgoals g] at hst
      cases hst
  have hstep : ∀ (s : State P) e t, Sound s ∧ Borne s ∧ Kept s → C s e → step s e = some t →
      Sound t ∧ Borne t ∧ Kept t := by
    rintro s e t ⟨hs, hb, -⟩ - hx
    exact ⟨step_sound hs hx, step_borne hs hb hx, step_kept hx⟩
  exact (h.invariant hinit hstep).2

end Borne

/-! ## Who joins the worker -/

/-- Who waits for the worker to end has told it to stop. -/
structure Flagged (s : State P) : Prop where
  act : ∀ g, s.act = .start g .join → s.stop_execution_ = true
  ret : ∀ id, s.ret = .start id .join → s.stop_execution_ = true
  lc : ∀ why, s.lc = .stop why .join → s.stop_execution_ = true

section Flagged

variable {s t : State P} {e : Event P}

theorem Flagged.of_stop (h : t.stop_execution_ = true) : Flagged t :=
  ⟨fun _ _ => h, fun _ _ => h, fun _ _ => h⟩

theorem Flagged.keep (h : Flagged s) (hstop : t.stop_execution_ = s.stop_execution_)
    (hact : ∀ g, t.act = .start g .join → s.act = .start g .join)
    (hret : ∀ id, t.ret = .start id .join → s.ret = .start id .join)
    (hlc : ∀ why, t.lc = .stop why .join → s.lc = .stop why .join) : Flagged t := by
  refine ⟨?_, ?_, ?_⟩
  · rw [hstop]
    exact fun g hg => h.act g (hact g hg)
  · rw [hstop]
    exact fun id hid => h.ret id (hret id hid)
  · rw [hstop]
    exact fun why hwhy => h.lc why (hlc why hwhy)

theorem act_flagged (hl : Ladder s) (h : Flagged s) (hx : Acted s t) : Flagged t := by
  have quiet : ∀ u : State P, u.stop_execution_ = s.stop_execution_ →
      (∀ g, u.act ≠ .start g .join) → u.ret = s.ret → u.lc = s.lc → Flagged u := by
    intro u hstop hact hret hlc
    exact h.keep hstop (fun g hg => absurd hg (hact g)) (by simp [hret]) (by simp [hlc])
  cases hx with
  | @starts g p q u hp hs =>
      cases hs with
      | store => exact .of_stop rfl
      | clear =>
          -- inside the mutex nobody else joins
          have hlocked : s.act.locked = true := by
            rw [hp]
            rfl
          have hret := hl.act_ret hlocked
          have hlc := hl.act_lc hlocked
          refine ⟨by simp, fun id hid => ?_, fun why hwhy => ?_⟩
          · rw [show s.ret = .start id .join from hid] at hret
            cases hret
          · rw [show s.lc = .stop why .join from hwhy] at hlc
            cases hlc
      | lock _ | join _ | pass _ | refuse _ | spawn => exact quiet _ rfl (by simp) rfl rfl
  | @abort g m _ _ =>
      rcases s.abort_goal_cases g m with ⟨st, -, -, heq⟩ | ⟨heq, -⟩
      · rw [heq]
        exact quiet _ rfl (by simp) rfl rfl
      · rw [heq]
        exact quiet _ rfl (by simp) rfl rfl
  | _ => exact quiet _ rfl (by simp) rfl rfl

theorem ret_flagged (hl : Ladder s) (h : Flagged s) (hx : Returned s t) : Flagged t := by
  have quiet : ∀ u : State P, u.stop_execution_ = s.stop_execution_ →
      (∀ id, u.ret ≠ .start id .join) → u.act = s.act → u.lc = s.lc → Flagged u := by
    intro u hstop hret hact hlc
    exact h.keep hstop (by simp [hact]) (fun id hid => absurd hid (hret id)) (by simp [hlc])
  cases hx with
  | @starts id p q u hp hs =>
      cases hs with
      | store => exact .of_stop rfl
      | clear =>
          have hlocked : s.ret.locked = true := by
            rw [hp]
            rfl
          have hlc := hl.ret_lc hlocked
          refine ⟨fun g hg => ?_, by simp, fun why hwhy => ?_⟩
          · have hg : s.act = .start g .join := hg
            have hret := hl.act_ret (by rw [hg]; rfl)
            rw [hlocked] at hret
            cases hret
          · rw [show s.lc = .stop why .join from hwhy] at hlc
            cases hlc
      | lock _ | join _ | pass _ | refuse _ | spawn => exact quiet _ rfl (by simp) rfl rfl
  | _ => exact quiet _ rfl (by simp) rfl rfl

theorem stop_flagged {why : Why} {p : Stop} (hlc : s.lc = .stop why p) (h : Flagged s)
    (hx : stop_step s why p = some t) : Flagged t := by
  have quiet : ∀ u : State P, u.stop_execution_ = s.stop_execution_ → u.act = s.act →
      u.ret = s.ret → (∀ why, u.lc ≠ .stop why .join) → Flagged u := by
    intro u hstop hact hret hlc
    exact h.keep hstop (by simp [hact]) (by simp [hret]) fun why hwhy => absurd hwhy (hlc why)
  cases p with
  | accepting | release | unlock | bond =>
      cases hx
      exact quiet _ rfl rfl rfl (by simp)
  | abort g =>
      obtain ⟨goals, heq⟩ := abort_goal?_eq s g
      simp only [stop_step, heq] at hx
      cases hx
      exact quiet _ rfl rfl rfl (by simp)
  | lock =>
      obtain ⟨-, hx⟩ := Option.ite_none_left_eq_some.mp hx
      cases hx
      exact quiet _ rfl rfl rfl (by simp)
  | store =>
      cases hx
      exact .of_stop rfl
  | join =>
      obtain ⟨u, hu, rfl⟩ := Option.map_eq_some_iff.mp hx
      obtain ⟨rfl, -⟩ := join_eq_some hu
      exact quiet _ rfl rfl rfl (by simp)
  | actuator =>
      obtain ⟨u, hu, rfl⟩ := Option.map_eq_some_iff.mp hx
      obtain ⟨rfl, -⟩ := stop_actuator_eq_some hu
      exact quiet _ rfl rfl rfl (by simp)

theorem lc_flagged {i : LcInput} (h : Flagged s) (hx : lc_step s i = some t) : Flagged t := by
  have quiet : ∀ u : State P, u.stop_execution_ = s.stop_execution_ → u.act = s.act →
      u.ret = s.ret → (∀ why, u.lc ≠ .stop why .join) → Flagged u := by
    intro u hstop hact hret hlc
    exact h.keep hstop (by simp [hact]) (by simp [hret]) fun why hwhy => absurd hwhy (hlc why)
  cases hlc : s.lc <;> simp only [lc_step, hlc] at hx
  case idle => cases hx
  case stop why p => exact stop_flagged hlc h hx
  case factory =>
    split at hx
    all_goals cases hx
    all_goals exact quiet _ rfl rfl rfl (by simp)
  case start =>
    split at hx
    · cases hx
      exact quiet _ rfl rfl rfl (by simp)
    · obtain ⟨u, hu, rfl⟩ := Option.map_eq_some_iff.mp hx
      obtain ⟨rfl, -⟩ := stop_actuator_eq_some hu
      exact quiet _ rfl rfl rfl (by simp)
    · cases hx
  case bond =>
    split at hx
    · rename_i ok
      cases hx
      refine quiet _ rfl rfl rfl fun why => ?_
      cases ok
      · simp
      · simp
    · cases hx
  case bond_failed =>
    obtain ⟨u, hu, rfl⟩ := Option.map_eq_some_iff.mp hx
    obtain ⟨rfl, -⟩ := stop_actuator_eq_some hu
    exact quiet _ rfl rfl rfl (by simp)
  case tick_state =>
    cases hx
    refine quiet _ rfl rfl rfl fun why => ?_
    by_cases hp : s.primary = .active
    · simp [hp]
    · simp [hp]
  case tick_abort g =>
    obtain ⟨goals, heq⟩ := abort_goal?_eq s g
    simp only [heq] at hx
    cases hx
    exact quiet _ rfl rfl rfl (by simp)
  case after why =>
    cases hx
    cases why with
    | deactivate tick =>
        simp only [after_stop]
        split
        · exact quiet _ rfl rfl rfl (by simp)
        · exact quiet _ rfl rfl rfl (by simp)
    | _ => exact quiet _ rfl rfl rfl (by simp [after_stop])
  all_goals
    cases hx
    exact quiet _ rfl rfl rfl (by simp)

theorem transition_flagged {tr : Transition P} (h : Flagged s)
    (hx : begin_transition s tr = some t) : Flagged t := by
  have quiet : ∀ u : State P, u.stop_execution_ = s.stop_execution_ → u.act = s.act →
      u.ret = s.ret → (∀ why, u.lc ≠ .stop why .join) → Flagged u := by
    intro u hstop hact hret hlc
    exact h.keep hstop (by simp [hact]) (by simp [hret]) fun why hwhy => absurd hwhy (hlc why)
  cases tr with
  | configure cfg =>
      obtain ⟨-, heq⟩ := Option.ite_none_right_eq_some.mp hx
      cases heq
      refine quiet _ rfl rfl rfl fun why => ?_
      by_cases hvalid : P.valid cfg = true
      · simp [hvalid]
      · simp [hvalid]
  | activate | deactivate | cleanup =>
      obtain ⟨-, heq⟩ := Option.ite_none_right_eq_some.mp hx
      cases heq
      exact quiet _ rfl rfl rfl (by simp)
  | shutdown =>
      obtain ⟨-, heq⟩ := Option.ite_none_left_eq_some.mp hx
      cases heq
      exact quiet _ rfl rfl rfl (by simp)

theorem raw_step_flagged (hl : Ladder s) (h : Flagged s) (hx : raw_step s e = some t) :
    Flagged t := by
  have quiet : ∀ u : State P, u.stop_execution_ = s.stop_execution_ → u.act = s.act →
      u.ret = s.ret → u.lc = s.lc → Flagged u := by
    intro u hstop hact hret hlc
    exact h.keep hstop (by simp [hact]) (by simp [hret]) (by simp [hlc])
  cases happens hx with
  | @goal_request r hidle _ =>
      generalize goal_callback s r = t, goal_callback_cases s r = hreq
      cases hreq with
      | ignored => exact h
      | rejected _ => exact quiet _ rfl rfl rfl rfl
      | accepted _ _ => exact h.keep rfl (by simp) (fun _ => id) fun _ => id
  | act hx => exact act_flagged hl h (act_cases hx)
  | return_request _ =>
      unfold WavemakerNode.return_request
      split
      · exact h.keep rfl (fun _ => id) (by simp) fun _ => id
      · exact h.keep rfl (fun _ => id) (by simp) fun _ => id
  | ret hx => exact ret_flagged hl h (ret_cases hx)
  | worker hx =>
      obtain ⟨-, hframe⟩ := (worker_cases hx).frame
      simp only [Prod.mk.injEq] at hframe
      obtain ⟨hact, hret, hlc, -⟩ := hframe
      exact quiet t (GoalCancel.worked_stop (worker_cases hx)) hact hret hlc
  | transition _ hx => exact transition_flagged h hx
  | tick hlc =>
      unfold begin_tick
      split
      · exact h.keep rfl (fun _ => id) (fun _ => id) (by simp)
      · exact h
  | lc hx => exact lc_flagged h hx
  | cancel _ _ | fault _ _ | report _ | soft_stop | clock | context_shutdown =>
      exact quiet _ rfl rfl rfl rfl

theorem reach_flagged {C : State P → Event P → Prop} (h : Reach step C Init s) : Flagged s := by
  have hinit : ∀ s : State P, Init s → Ladder s ∧ Flagged s := by
    intro s hs
    refine ⟨init_ladder hs, ?_⟩
    obtain ⟨-, -, -, -, -, -, -, -, -, -, -, -, -, -, -, -, -, -, hact, hret, -, hlc, -⟩ := hs
    exact ⟨by simp [hact], by simp [hret], by simp [hlc]⟩
  have hstep : ∀ (s : State P) e t, Ladder s ∧ Flagged s → C s e → step s e = some t →
      Ladder t ∧ Flagged t := by
    rintro s e t ⟨hl, hf⟩ - hs
    obtain ⟨u, hx, rfl⟩ := step_eq_some hs
    have hu := raw_step_flagged hl hf hx
    exact ⟨step_ladder hl hs, hu.act, hu.ret, hu.lc⟩
  exact (h.invariant hinit hstep).2

end Flagged

/-! ## Steps in which nothing fails -/

/-- The worker's calls return, with what is hoped for. -/
def WorkerInput.smooth : WorkerInput → Bool
  | .throws _ | .wrote false _ | .from_position .invalid | .faulted true | .progress .late => false
  | _ => true

def LcInput.smooth : LcInput → Bool
  | .factory .created | .started true | .bond true | .proceed => true
  | _ => false

/-- A step of a thread that is under way. -/
def Event.smooth : Event P → Bool
  | .act | .ret | .report => true
  | .worker i => i.smooth
  | .lc i => i.smooth
  | _ => false

def Smooth (_ : State P) (e : Event P) : Prop := e.smooth = true

/-! ### The worker -/

/-- The input that takes the worker of a goal to its next point. -/
def GoalPc.smooth : GoalPc → WorkerInput
  | .sample => .elapsed 0
  | .write _ _ _ => .wrote true ""
  | _ => .proceed

/-- The steps of a worker that has been told to stop. -/
def GoalPc.to_stop : GoalPc → ℕ
  | .execute | .sleep => 5
  | .loop => 4
  | .canceling => 10
  | .soft_stop => 9
  | .sample => 8
  | .write _ _ _ => 7
  | .feedback _ => 6
  | .succeed_halt => 5
  | .succeed => 4
  | .succeed_release => 1
  | .halt .canceled => 6
  | .release .canceled => 5
  | .finish .canceled => 4
  | .halt _ => 3
  | .release _ => 2
  | .finish _ => 1
  | .fail_release _ => 5
  | .fail_reason _ => 4
  | .fail_store _ => 3
  | .fail_stop _ => 2
  | .fail_abort _ => 1

def ReturnPc.smooth : ReturnPc → WorkerInput
  | .begin => .from_position .at_upright
  | .faulted => .faulted false
  | .write => .wrote true ""
  | .progress => .progress .reached
  | .respond _ => .fault_reason ""
  | _ => .proceed

def ReturnPc.to_stop : ReturnPc → ℕ
  | .soft_stop => 7
  | .faulted => 6
  | .write | .sleep => 5
  | .begin | .loop | .progress => 4
  | .halt _ => 3
  | .release _ => 2
  | .respond _ => 1

section Progress

variable {s : State P}

theorem goal_stops (hstop : s.stop_execution_ = true) (hreporter : s.reporter = none) (g : ℕ)
    (pc : GoalPc) : ∃ t, goal_step s g pc.smooth pc = some t ∧
      (t.worker = some .finished ∨
        ∃ pc', t.worker = some (.goal g pc') ∧ pc'.to_stop < pc.to_stop) := by
  cases pc with
  | execute | succeed =>
      simp only [goal_step]
      split
      · exact ⟨_, rfl, .inr ⟨_, rfl, by simp [GoalPc.to_stop]⟩⟩
      · exact ⟨_, rfl, .inr ⟨_, rfl, by simp [GoalPc.to_stop]⟩⟩
  | loop =>
      -- the flag is read here
      refine ⟨_, rfl, .inr ⟨_, rfl, ?_⟩⟩
      simp [hstop, GoalPc.to_stop]
  | canceling | soft_stop =>
      refine ⟨_, rfl, .inr ⟨_, rfl, ?_⟩⟩
      split
      · simp [GoalPc.to_stop]
      · simp [GoalPc.to_stop]
  | feedback complete =>
      refine ⟨_, rfl, .inr ⟨_, rfl, ?_⟩⟩
      cases complete
      · simp [GoalPc.to_stop]
      · simp [GoalPc.to_stop]
  | halt e | release e =>
      cases e <;> exact ⟨_, rfl, .inr ⟨_, rfl, by simp [GoalPc.to_stop]⟩⟩
  | finish e =>
      cases e with
      | canceled =>
          simp only [goal_step]
          split
          · exact ⟨_, rfl, .inl rfl⟩
          · exact ⟨_, rfl, .inr ⟨_, rfl, by simp [GoalPc.to_stop]⟩⟩
      | soft_stop | stopped | failed what => exact ⟨_, rfl, .inl rfl⟩
  | fail_stop message =>
      simp only [goal_step, GoalPc.smooth, stop_actuator, hreporter, Option.map_some]
      exact ⟨_, rfl, .inr ⟨_, rfl, by simp [GoalPc.to_stop]⟩⟩
  | sample | write x v complete | sleep | succeed_halt | fail_release message
  | fail_reason message | fail_store message =>
      exact ⟨_, rfl, .inr ⟨_, rfl, by simp [GoalPc.to_stop]⟩⟩
  | fail_abort message | succeed_release => exact ⟨_, rfl, .inl rfl⟩

theorem return_stops (hstop : s.stop_execution_ = true) (id : ℕ) (pc : ReturnPc) :
    ∃ t, return_step s id pc.smooth pc = some t ∧
      (t.worker = some .finished ∨
        ∃ pc', t.worker = some (.return_to_upright id pc') ∧ pc'.to_stop < pc.to_stop) := by
  cases pc with
  | loop =>
      refine ⟨_, rfl, .inr ⟨_, rfl, ?_⟩⟩
      simp [hstop, ReturnPc.to_stop]
  | soft_stop =>
      refine ⟨_, rfl, .inr ⟨_, rfl, ?_⟩⟩
      split
      · simp [ReturnPc.to_stop]
      · simp [ReturnPc.to_stop]
  | respond status => exact ⟨_, rfl, .inl rfl⟩
  | _ => exact ⟨_, rfl, .inr ⟨_, rfl, by simp [ReturnPc.to_stop]⟩⟩

/-- The steps of the worker to its end. -/
def Worker.to_stop : Worker → ℕ
  | .goal _ pc => pc.to_stop
  | .return_to_upright _ pc => pc.to_stop
  | .finished => 0

/-- The poll thread can be brought to the end of its report. -/
theorem report_ends (s : State P) :
    Leads Smooth s fun t => t.reporter = none ∧ t.worker = s.worker ∧ aside t = aside s ∧
      t.stop_execution_ = s.stop_execution_ := by
  cases h : s.reporter with
  | none => exact .here ⟨h, rfl, rfl, rfl⟩
  | some n =>
      have hx : step s .report = some (reap { s with
          fault_pending_ := true, fresh := s.fresh || n == s.epoch, reporter := none }) := by
        simp only [step, raw_step, h, Option.map_some]
      have hsmooth : Smooth s .report := rfl
      exact .step hsmooth hx (.here ⟨rfl, rfl, rfl, rfl⟩)

/-- A worker that has been told to stop ends. -/
theorem worker_stops {w : Worker} (hw : s.worker = some w) (hstop : s.stop_execution_ = true) :
    Leads Smooth s fun t => Ended t.worker ∧ aside t = aside s := by
  induction hn : w.to_stop using Nat.strong_induction_on generalizing s w with
  | _ n ih =>
      refine (report_ends s).trans fun t ht => ?_
      obtain ⟨hreporter, hworker, haside, hflag⟩ := ht
      rw [hstop] at hflag
      rw [hw] at hworker
      rw [← haside]
      -- one step, and the rest by induction on the steps left
      have go : ∀ {i : WorkerInput} {u : State P}, worker_step t i = some u → i.smooth = true →
          (u.worker = some .finished ∨ ∃ w', u.worker = some w' ∧ w'.to_stop < n) →
          Leads Smooth t fun v => Ended v.worker ∧ aside v = aside t := by
        intro i u hx hi hor
        have hs : step t (.worker i) = some (reap u) := by
          simp only [step, raw_step, hx, Option.map_some]
        have hsmooth : Smooth t (.worker i) := hi
        obtain ⟨-, hframe⟩ := (worker_cases hx).frame
        simp only [Prod.mk.injEq] at hframe
        obtain ⟨hact, hret, hlc, -⟩ := hframe
        have heq : aside (reap u) = aside t := by
          simp only [aside, reap, hact, hret, hlc]
        refine .step hsmooth hs ?_
        rw [← heq]
        rcases hor with hfin | ⟨w', hw', hlt⟩
        · exact .here ⟨.inr hfin, rfl⟩
        · have hflag' := (GoalCancel.worked_stop (worker_cases hx)).trans hflag
          exact ih w'.to_stop hlt (s := reap u) hw' hflag' rfl
      cases w with
      | goal g pc =>
          obtain ⟨u, hx, hor⟩ := goal_stops hflag hreporter g pc
          refine go (i := pc.smooth) (u := u) ?_ ?_ ?_
          · simp only [worker_step, hworker, hx]
          · cases pc <;> rfl
          · rcases hor with hfin | ⟨pc', hw', hlt⟩
            · exact .inl hfin
            · exact .inr ⟨_, hw', by rw [← hn]; exact hlt⟩
      | return_to_upright id pc =>
          obtain ⟨u, hx, hor⟩ := return_stops hflag id pc
          refine go (i := pc.smooth) (u := u) ?_ ?_ ?_
          · simp only [worker_step, hworker, hx]
          · cases pc <;> rfl
          · rcases hor with hfin | ⟨pc', hw', hlt⟩
            · exact .inl hfin
            · exact .inr ⟨_, hw', by rw [← hn]; exact hlt⟩
      | finished => exact .here ⟨.inr hworker, rfl⟩

end Progress

/-! ### The other threads -/

def Act.left : Act → ℕ
  | .idle => 0
  | .abort _ => 1
  | .refused _ => 2
  | .start _ p => 2 + p.left
  | .handle _ => 10

def Ret.left : Ret → ℕ
  | .idle => 0
  | .respond _ _ => 1
  | .refused _ => 2
  | .start _ p => 2 + p.left

def Stop.left : Stop → ℕ
  | .accepting => 10
  | .release => 9
  | .abort _ => 8
  | .lock => 7
  | .store => 6
  | .join => 5
  | .unlock => 4
  | .actuator => 3
  | .bond => 2

/-- A deactivation that fails is followed by `on_error`, which stops once more. -/
def Why.left : Why → ℕ
  | .deactivate _ => 10
  | _ => 0

def Lc.left : Lc → ℕ
  | .idle => 0
  | .factory | .accept | .bond_failed => 1
  | .bond => 2
  | .start => 3
  | .after why => why.left + 1
  | .stop why p => why.left + p.left
  | .tick_flag => 21
  | .tick_abort _ => 22
  | .tick_release => 23
  | .tick_state => 24
  | .tick_accepting => 25
  | .tick_reason => 26

def Lc.smooth : Lc → LcInput
  | .factory => .factory .created
  | .start => .started true
  | .bond => .bond true
  | _ => .proceed

def State.left (s : State P) : ℕ := s.act.left + s.ret.left + s.lc.left

/-- Whom `join` waits for has ended. -/
structure Joinable (s : State P) : Prop where
  act : ∀ g, s.act = .start g .join → Ended s.worker
  ret : ∀ id, s.ret = .start id .join → Ended s.worker
  lc : ∀ why, s.lc = .stop why .join → Ended s.worker

section Progress

variable {s : State P}

/-- `start_execution` goes on, unless it has to wait at its lock or its join. -/
theorem start_goes (work : Worker) {p : Start} (hu : ∀ b, p ≠ .unlock b)
    (hjoin : p = .join → Ended s.worker) (hfree : p = .lock → s.held = false) :
    ∃ t q, start_step s work p = some (t, q) ∧ q.left < p.left := by
  cases p with
  | lock =>
      refine ⟨s, .store, ?_, by decide⟩
      rw [start_step, hfree rfl]
      rfl
  | join =>
      obtain ⟨t, q, hx, hlt, -⟩ := start_out work (by simp) hu (hjoin rfl)
      exact ⟨t, q, hx, hlt⟩
  | check =>
      refine ⟨_, _, rfl, ?_⟩
      split
      · decide
      · exact Nat.lt_of_sub_pos (by decide)
  | store | clear | spawn => exact ⟨_, _, rfl, by simp [Start.left]⟩
  | unlock b => exact absurd rfl (hu b)

theorem act_goes (hact : s.act ≠ .idle) (hj : Joinable s)
    (hfree : s.act.locked = false → s.held = false) :
    ∃ t, act_step s = some t ∧ t.act.left < s.act.left ∧ t.ret = s.ret ∧ t.lc = s.lc := by
  unfold act_step
  cases h : s.act with
  | idle => exact absurd h hact
  | handle g =>
      refine ⟨_, rfl, ?_⟩
      unfold handle_accepted
      split
      · exact ⟨by simp [Act.left, Start.left], rfl, rfl⟩
      · exact ⟨by simp [Act.left], rfl, rfl⟩
  | refused g => exact ⟨_, rfl, by simp [Act.left], rfl, rfl⟩
  | abort g =>
      refine ⟨_, rfl, by simp [Act.left], ?_⟩
      rcases s.abort_goal_cases g "Goal rejected because the node is no longer active" with
        ⟨st, -, -, heq⟩ | ⟨heq, -⟩
      · rw [heq]
        exact ⟨rfl, rfl⟩
      · rw [heq]
        exact ⟨rfl, rfl⟩
  | start g p =>
      by_cases hu : ∃ b, p = .unlock b
      · obtain ⟨b, rfl⟩ := hu
        cases b with
        | true => exact ⟨_, rfl, by simp [Act.left, Start.left], rfl, rfl⟩
        | false => exact ⟨_, rfl, by simp [Act.left, Start.left], rfl, rfl⟩
      · have hne : ∀ b, p ≠ .unlock b := fun b hb => hu ⟨b, hb⟩
        have hjoin : p = .join → Ended s.worker := by
          rintro rfl
          exact hj.act g h
        have hlock : p = .lock → s.held = false := by
          rintro rfl
          exact hfree (by rw [h]; rfl)
        obtain ⟨t, q, hx, hlt⟩ := start_goes (.goal g .execute) hne hjoin hlock
        obtain ⟨⟨hlc, -, -, -, -, -, -, hret⟩, -⟩ := starts_spec (start_cases hx)
        refine ⟨{ t with act := .start g q }, ?_, by simp [Act.left, hlt], hret, hlc⟩
        cases p with
        | unlock b => exact absurd rfl (hne b)
        | _ => simp only [hx, Option.map_some]

theorem ret_goes (hret : s.ret ≠ .idle) (hj : Joinable s)
    (hfree : s.ret.locked = false → s.held = false) :
    ∃ t, ret_step s = some t ∧ t.ret.left < s.ret.left ∧ t.act = s.act ∧ t.lc = s.lc := by
  unfold ret_step
  cases h : s.ret with
  | idle => exact absurd h hret
  | refused id | respond id reply => exact ⟨_, rfl, by simp [Ret.left], rfl, rfl⟩
  | start id p =>
      by_cases hu : ∃ b, p = .unlock b
      · obtain ⟨b, rfl⟩ := hu
        cases b with
        | true => exact ⟨_, rfl, by simp [Ret.left, Start.left], rfl, rfl⟩
        | false => exact ⟨_, rfl, by simp [Ret.left, Start.left], rfl, rfl⟩
      · have hne : ∀ b, p ≠ .unlock b := fun b hb => hu ⟨b, hb⟩
        have hjoin : p = .join → Ended s.worker := by
          rintro rfl
          exact hj.ret id h
        have hlock : p = .lock → s.held = false := by
          rintro rfl
          exact hfree (by rw [h]; rfl)
        obtain ⟨t, q, hx, hlt⟩ := start_goes (.return_to_upright id .begin) hne hjoin hlock
        obtain ⟨⟨hlc, -, -, -, -, -, hact, -⟩, -⟩ := starts_spec (start_cases hx)
        refine ⟨{ t with ret := .start id q }, ?_, by simp [Ret.left, hlt], hact, hlc⟩
        cases p with
        | unlock b => exact absurd rfl (hne b)
        | _ => simp only [hx, Option.map_some]

theorem stop_goes {why : Why} {p : Stop} (hjoin : p = .join → Ended s.worker)
    (hreporter : s.reporter = none) (hfree : p = .lock → s.held = false) :
    ∃ t, stop_step s why p = some t ∧
      (t.lc = .after why ∨ ∃ q, t.lc = .stop why q ∧ q.left < p.left) ∧
      t.act = s.act ∧ t.ret = s.ret := by
  cases p with
  | accepting | release | store | unlock =>
      exact ⟨_, rfl, .inr ⟨_, rfl, by simp [Stop.left]⟩, rfl, rfl⟩
  | bond => exact ⟨_, rfl, .inl rfl, rfl, rfl⟩
  | abort g =>
      obtain ⟨goals, heq⟩ := abort_goal?_eq s g
      simp only [stop_step, heq]
      exact ⟨_, rfl, .inr ⟨_, rfl, by simp [Stop.left]⟩, rfl, rfl⟩
  | lock =>
      simp only [stop_step, hfree rfl]
      exact ⟨_, rfl, .inr ⟨_, rfl, by simp [Stop.left]⟩, rfl, rfl⟩
  | join =>
      refine ⟨{ s with worker := none, lc := .stop why .unlock }, ?_,
        .inr ⟨_, rfl, by simp [Stop.left]⟩, rfl, rfl⟩
      simp only [stop_step, State.join]
      rcases hjoin rfl with hw | hw
      · rw [hw]
        rfl
      · rw [hw]
        rfl
  | actuator =>
      refine ⟨{ s with polling := false, lc := .stop why .bond }, ?_,
        .inr ⟨_, rfl, by simp [Stop.left]⟩, rfl, rfl⟩
      simp only [stop_step, stop_actuator, hreporter, Option.map_some]

theorem after_goes (s : State P) (why : Why) :
    (after_stop s why).lc.left < (Lc.after why).left ∧ (after_stop s why).act = s.act ∧
      (after_stop s why).ret = s.ret := by
  cases why with
  | deactivate b =>
      simp only [after_stop]
      by_cases hf : s.fault_transition_pending_ = true
      · rw [if_pos hf]
        exact ⟨by simp [Lc.left, Why.left, Stop.left], rfl, rfl⟩
      · rw [if_neg hf]
        exact ⟨by simp [Lc.left], rfl, rfl⟩
  | _ => exact ⟨by simp [after_stop, release_resources, Lc.left], rfl, rfl⟩

theorem lc_goes (hlc : s.lc ≠ .idle) (hj : Joinable s) (hreporter : s.reporter = none)
    (hfree : s.lc.locked = false → s.held = false) :
    ∃ t, lc_step s s.lc.smooth = some t ∧ t.lc.left < s.lc.left ∧ t.act = s.act ∧ t.ret = s.ret := by
  cases h : s.lc with
  | idle => exact absurd h hlc
  | stop why p =>
      have hjoin : p = .join → Ended s.worker := by
        rintro rfl
        exact hj.lc why h
      have hlock : p = .lock → s.held = false := by
        rintro rfl
        exact hfree (by rw [h]; rfl)
      obtain ⟨t, hx, hor, hact, hret⟩ := @stop_goes P s why p hjoin hreporter hlock
      refine ⟨t, ?_, ?_, hact, hret⟩
      · simp only [lc_step, h]
        exact hx
      · rcases hor with heq | ⟨q, heq, hlt⟩
        · rw [heq]
          cases p <;> simp [Lc.left, Stop.left]
        · rw [heq]
          simp only [Lc.left]
          omega
  | after why => exact ⟨after_stop s why, by simp only [lc_step, h], after_goes s why⟩
  | tick_abort g =>
      obtain ⟨goals, heq⟩ := abort_goal?_eq s g
      simp only [lc_step, h, heq]
      exact ⟨_, rfl, by simp [Lc.left], rfl, rfl⟩
  | bond_failed =>
      refine ⟨{ s with polling := false, lc := .idle }, ?_, by simp [Lc.left], rfl, rfl⟩
      simp only [lc_step, h, stop_actuator, hreporter, Option.map_some]
  | tick_state =>
      refine ⟨{ s with lc := if s.primary = .active then .tick_release else .idle }, ?_, ?_, rfl, rfl⟩
      · simp only [lc_step, h]
      · by_cases hp : s.primary = .active
        · simp [hp, Lc.left]
        · simp [hp, Lc.left]
  | factory | start | bond | accept | tick_reason | tick_accepting | tick_release | tick_flag =>
      simp only [lc_step, h]
      exact ⟨_, rfl, by simp [Lc.left, Why.left, Stop.left], rfl, rfl⟩

/-- One of the threads that are under way goes on: the one that holds `execution_mutex_`, or any if
nobody does. -/
theorem thread_goes (hj : Joinable s) (hreporter : s.reporter = none) (hleft : s.left ≠ 0) :
    ∃ e t, e.smooth = true ∧ step s e = some t ∧ t.left < s.left := by
  have act : s.act ≠ .idle → (s.act.locked = false → s.held = false) →
      ∃ e t, e.smooth = true ∧ step s e = some t ∧ t.left < s.left := by
    intro hact hfree
    obtain ⟨t, hx, hlt, hret, hlc⟩ := act_goes hact hj hfree
    refine ⟨.act, reap t, rfl, by simp [step, raw_step, hx], ?_⟩
    simp only [State.left, reap, hret, hlc]
    omega
  have ret : s.ret ≠ .idle → (s.ret.locked = false → s.held = false) →
      ∃ e t, e.smooth = true ∧ step s e = some t ∧ t.left < s.left := by
    intro hret hfree
    obtain ⟨t, hx, hlt, hact, hlc⟩ := ret_goes hret hj hfree
    refine ⟨.ret, reap t, rfl, by simp [step, raw_step, hx], ?_⟩
    simp only [State.left, reap, hact, hlc]
    omega
  have lc : s.lc ≠ .idle → (s.lc.locked = false → s.held = false) →
      ∃ e t, e.smooth = true ∧ step s e = some t ∧ t.left < s.left := by
    intro hlc hfree
    obtain ⟨t, hx, hlt, hact, hret⟩ := lc_goes hlc hj hreporter hfree
    refine ⟨.lc s.lc.smooth, reap t, ?_, by simp [step, raw_step, hx], ?_⟩
    · cases s.lc <;> rfl
    · simp only [State.left, reap, hact, hret]
      omega
  have idle : ∀ {p : Prop} {b : Bool}, (p → b = false) → b = true → ¬p := by
    intro p b himp hb hp
    rw [himp hp] at hb
    cases hb
  by_cases ha : s.act.locked = true
  · exact act (idle (fun h => by rw [h]; rfl) ha) fun h => by rw [h] at ha; cases ha
  by_cases hr : s.ret.locked = true
  · exact ret (idle (fun h => by rw [h]; rfl) hr) fun h => by rw [h] at hr; cases hr
  by_cases hl : s.lc.locked = true
  · exact lc (idle (fun h => by rw [h]; rfl) hl) fun h => by rw [h] at hl; cases hl
  have hfree : s.held = false := by simp [State.held, ha, hr, hl]
  by_cases hact : s.act = .idle
  · by_cases hret : s.ret = .idle
    · refine lc (fun hlc => hleft ?_) fun _ => hfree
      simp [State.left, hact, hret, hlc, Act.left, Ret.left, Lc.left]
    · exact ret hret fun _ => hfree
  · exact act hact fun _ => hfree

/-- Whoever joins the worker gets it, and nobody waits for the poll thread. -/
theorem made_ready (hf : Flagged s) :
    Leads Smooth s fun t => (Joinable t ∧ t.reporter = none) ∧ aside t = aside s := by
  -- with the worker ended everybody can join it
  have ended : ∀ t : State P, Ended t.worker → aside t = aside s →
      Leads Smooth t fun u => (Joinable u ∧ u.reporter = none) ∧ aside u = aside s := by
    intro t hw haside
    refine (report_ends t).trans fun u hu => .here ?_
    obtain ⟨hreporter, hworker, haside', -⟩ := hu
    rw [← hworker] at hw
    exact ⟨⟨⟨fun _ _ => hw, fun _ _ => hw, fun _ _ => hw⟩, hreporter⟩, haside'.trans haside⟩
  by_cases hstop : s.stop_execution_ = true
  · cases hw : s.worker with
    | none => exact ended s (.inl hw) rfl
    | some w =>
        refine (worker_stops hw hstop).trans fun t ht => ?_
        exact ended t ht.1 ht.2
  · refine (report_ends s).trans fun t ht => .here ?_
    obtain ⟨hreporter, -, haside, -⟩ := ht
    have hthreads := haside
    simp only [aside, Prod.mk.injEq] at hthreads
    obtain ⟨hact, hret, hlc⟩ := hthreads
    refine ⟨⟨⟨?_, ?_, ?_⟩, hreporter⟩, haside⟩
    · exact fun g hg => absurd (hf.act g (hact.symm.trans hg)) hstop
    · exact fun id hid => absurd (hf.ret id (hret.symm.trans hid)) hstop
    · exact fun why hwhy => absurd (hf.lc why (hlc.symm.trans hwhy)) hstop

end Progress

/-! ## Every run -/

/-- What is reached from a reachable state is reachable. -/
theorem reached_leads {C : State P → Event P → Prop} {s : State P} {Q R : State P → Prop}
    (hs : Reach step Any Init s) (h : Leads C s Q)
    (hQ : ∀ t, Reach step Any Init t → Q t → Leads C t R) : Leads C s R := by
  obtain ⟨t, ht, hq⟩ := h
  obtain ⟨u, hu, hr⟩ := hQ t (hs.trans (ht.mono fun _ _ _ => trivial)) hq
  exact ⟨u, ht.trans hu, hr⟩

/-- **Nobody waits for ever.** The callbacks and the lifecycle thread finish what they are at. -/
theorem threads_finish {s : State P} (h : Reach step Any Init s) :
    Leads Smooth s fun t => t.left = 0 := by
  induction hn : s.left using Nat.strong_induction_on generalizing s with
  | _ n ih =>
      refine reached_leads h (made_ready (reach_flagged h)) fun t ht hready => ?_
      obtain ⟨⟨hj, hreporter⟩, haside⟩ := hready
      by_cases hleft : t.left = 0
      · exact .here hleft
      · obtain ⟨e, u, hsmooth, hx, hlt⟩ := thread_goes hj hreporter hleft
        have heq : t.left = s.left := by
          simp only [aside, Prod.mk.injEq] at haside
          simp only [State.left, haside]
        exact .step hsmooth hx (ih u.left (by omega) (ht.step trivial hx) rfl)

theorem idle_of_left {s : State P} (h : s.left = 0) :
    s.act = .idle ∧ s.ret = .idle ∧ s.lc = .idle := by
  simp only [State.left] at h
  refine ⟨?_, ?_, ?_⟩
  · cases hact : s.act with
    | idle => rfl
    | _ => simp [hact, Act.left] at h
  · cases hret : s.ret with
    | idle => rfl
    | _ => simp [hret, Ret.left] at h
  · cases hlc : s.lc with
    | idle => rfl
    | stop why p => cases p <;> simp [hlc, Lc.left, Stop.left] at h
    | _ => simp [hlc, Lc.left] at h

/-- A `stop_activity` that has begun comes to its end. -/
theorem stop_ends {s : State P} (h : Reach step Any Init s) {why : Why} {p : Stop}
    (hact : s.act = .idle) (hret : s.ret = .idle) (hlc : s.lc = .stop why p) :
    Leads Smooth s fun t => t.act = .idle ∧ t.ret = .idle ∧ t.lc = .after why := by
  induction hn : p.left using Nat.strong_induction_on generalizing s p with
  | _ n ih =>
      refine reached_leads h (made_ready (reach_flagged h)) fun t ht hready => ?_
      obtain ⟨⟨hj, hreporter⟩, haside⟩ := hready
      simp only [aside, hact, hret, hlc, Prod.mk.injEq] at haside
      obtain ⟨hact, hret, hlc⟩ := haside
      have hjoin : p = .join → Ended t.worker := by
        rintro rfl
        exact hj.lc why hlc
      have hfree : p = .lock → t.held = false := by
        rintro rfl
        simp [State.held, hact, hret, hlc, Act.locked, Ret.locked, Lc.locked]
      obtain ⟨u, hx, hor, hact', hret'⟩ := @stop_goes P t why p hjoin hreporter hfree
      have hstep : step t (.lc .proceed) = some (reap u) := by
        simp only [step, raw_step, lc_step, hlc, hx, Option.map_some]
      have hsmooth : Smooth t (.lc .proceed) := rfl
      refine .step hsmooth hstep ?_
      rcases hor with heq | ⟨q, heq, hlt⟩
      · exact .here ⟨hact'.trans hact, hret'.trans hret, heq⟩
      · exact ih q.left (by omega) (ht.step trivial hstep) (hact'.trans hact) (hret'.trans hret) heq
          rfl

/-! ## Shutdown -/

/-- Steps in which nothing fails, and a request to shut down. -/
def Closing (s : State P) (e : Event P) : Prop := Smooth s e ∨ e = .transition .shutdown

theorem closing_leads {s : State P} {Q : State P → Prop} (h : Leads Smooth s Q) :
    Leads Closing s Q := by
  obtain ⟨t, ht, hq⟩ := h
  exact ⟨t, ht.mono fun _ _ => .inl, hq⟩

theorem idle_finalizes {s : State P} (h : Reach step Any Init s) (hleft : s.left = 0)
    (hp : s.primary ≠ .finalized) :
    Leads Closing s fun t => t.primary = .finalized ∧ t.left = 0 := by
  obtain ⟨hact, hret, hlc⟩ := idle_of_left hleft
  have hbegin : step s (.transition .shutdown) =
      some (reap { s with lc := .stop .shutdown .accepting }) := by
    simp [step, raw_step, hlc, begin_transition, hp]
  have hshutdown : Closing s (.transition .shutdown) := .inr rfl
  have hstop := stop_ends (h.step trivial hbegin) hact hret rfl
  refine .step hshutdown hbegin (closing_leads (hstop.trans fun t ht => ?_))
  obtain ⟨hact, hret, hlc⟩ := ht
  have hx : step t (.lc .proceed) = some (reap { release_resources t with
      primary := .finalized, lc := .idle }) := by
    simp only [step, raw_step, lc_step, hlc, after_stop, Option.map_some]
  have hsmooth : Smooth t (.lc .proceed) := rfl
  refine .step hsmooth hx (.here ⟨rfl, ?_⟩)
  simp [State.left, reap, release_resources, hact, hret, Act.left, Ret.left, Lc.left]

/-- In a finalized node whose threads are idle every goal has ended: nobody is left to end one that
is named, so it has been ended before; one that is not is dropped. -/
theorem finalized_ended {s : State P} (h : Reach step Any Init s) (hleft : s.left = 0)
    (hworker : s.worker = none) (g : ℕ) : ¬s.Open g := by
  intro hopen
  obtain ⟨hb, hk⟩ := reach_borne h
  obtain ⟨hact, hret, hlc⟩ := idle_of_left hleft
  have href := hk g hopen
  simp only [State.referenced, hact, hworker, hlc, Act.holds, Lc.holds, Option.any_none,
    Bool.or_false, beq_iff_eq] at href
  rcases hb g href hopen with hwait | ⟨pc, hw⟩
  · rw [hact] at hwait
    cases hwait
  · rw [hworker] at hw
    cases hw

/-- **The node can always be shut down.** From every reachable state it can be finalized, in steps
of its threads in which nothing fails, with its callbacks returned, its worker joined, its actuator
stopped and every goal ended. -/
theorem can_be_shut_down {s : State P} (h : Reach step Any Init s) :
    Leads Closing s fun t => t.primary = .finalized ∧ (t.act = .idle ∧ t.ret = .idle ∧ t.lc = .idle) ∧
      t.worker = none ∧ t.polling = false ∧ ∀ g, ¬t.Open g := by
  have hfinal : Leads Closing s fun t => t.primary = .finalized ∧ t.left = 0 := by
    refine reached_leads h (closing_leads (threads_finish h)) fun t ht hleft => ?_
    by_cases hp : t.primary = .finalized
    · exact .here ⟨hp, hleft⟩
    · exact idle_finalizes ht hleft hp
  obtain ⟨t, ht, hp, hleft⟩ := hfinal
  have hreach := h.trans (ht.mono fun _ _ _ => trivial)
  have hidle := idle_of_left hleft
  have hl := reach_ladder hreach
  have hrank : t.rank = 4 := rank_down (by simp [hp]) (by rw [hidle.2.2]; rfl)
  have hworker := hl.worker (by omega)
  exact ⟨t, ht, hp, hidle, hworker, hl.polling (by omega), finalized_ended hreach hleft hworker⟩

/-- A wave is played, and the lifecycle thread holds `execution_mutex_` and waits for its worker. -/
def waits_for_worker : List (Event bench) :=
  boot ++ [requests 0 (1 / 2), .act] ++ starts ++ to_sample ++
    .transition .deactivate :: List.replicate 5 (.lc .proceed)

theorem can_be_shut_down_joining :
    ∃ s : State bench, s.lc = .stop (.deactivate false) .join ∧
      s.worker = some (.goal 0 .sample) ∧
      Leads Closing s fun t => t.primary = .finalized ∧
        (t.act = .idle ∧ t.ret = .idle ∧ t.lc = .idle) ∧ t.worker = none ∧ t.polling = false ∧
        ∀ g, ¬t.Open g := by
  have heval : ((run step constructed waits_for_worker).map fun s => (s.lc, s.worker)) =
      some (.stop (.deactivate false) .join, some (.goal 0 .sample)) := by
    decide +kernel
  obtain ⟨s, hrun, hval⟩ := Option.map_eq_some_iff.mp heval
  simp only [Prod.mk.injEq] at hval
  obtain ⟨hlc, hw⟩ := hval
  exact ⟨s, hlc, hw, can_be_shut_down (.run (.init constructed_init) hrun)⟩

end WavemakerNode
