/-
What one step of each thread of the node can do.

The step functions of `WavemakerNode.lean` are read once, here. The action
group and the return service are inverted into their sections
(`Acted`, `Returned`); the worker and the lifecycle thread into what their
steps do to the data the threads share (`Worked`, `Ran`), with everything a
proof about goals, claims and plans needs to know of the program points.
-/
import Wavemakers.WavemakerNode

set_option autoImplicit false

namespace WavemakerNode

variable {P : Plant}

/-! ## Goals -/

namespace State

/-- The goal was accepted and has not reached a terminal state. -/
def Open (s : State P) (g : ℕ) : Prop := s.is_active g = true

theorem open_iff {s : State P} {g : ℕ} :
    s.Open g ↔ ∃ st, s.status g = some st ∧ st.is_active = true := by
  simp only [Open, is_active, Option.any_eq_true_iff_get, Option.isSome_iff_exists]
  constructor
  · rintro ⟨⟨st, hst⟩, h⟩
    refine ⟨st, hst, ?_⟩
    simpa only [hst, Option.get_some] using h
  · rintro ⟨st, hst, h⟩
    refine ⟨⟨st, hst⟩, ?_⟩
    simpa only [hst, Option.get_some] using h

@[simp] theorem status_set_status_self {s : State P} {g : ℕ} {st : GoalStatus}
    {m : String} : (s.set_status g st m).status g = (s.status g).map fun _ => st := by
  simp only [status, set_status, Function.update_self, Option.map_map]
  rfl

theorem status_set_status_ne {s : State P} {g h : ℕ} {st : GoalStatus} {m : String}
    (hne : h ≠ g) : (s.set_status g st m).status h = s.status h := by
  simp only [status, set_status, Function.update_of_ne hne]

/-- A goal's plan never changes. -/
theorem plan_set_status (s : State P) (g h : ℕ) (st : GoalStatus) (m : String) :
    ((s.set_status g st m).goals h).map (·.plan) = (s.goals h).map (·.plan) := by
  by_cases hne : h = g
  · subst hne
    simp only [set_status, Function.update_self, Option.map_map]
    rfl
  · simp only [set_status, Function.update_of_ne hne]

theorem goal_call_eq_some {s t : State P} {g : ℕ} {e : GoalEvent} {m : String}
    (h : s.goal_call g e m = some t) :
    ∃ st st', s.status g = some st ∧ st.next e = some st' ∧ t = s.set_status g st' m := by
  obtain ⟨st', hbind, rfl⟩ := Option.map_eq_some_iff.mp h
  obtain ⟨st, hst, hnext⟩ := Option.bind_eq_some_iff.mp hbind
  exact ⟨st, st', hst, hnext, rfl⟩

theorem goal_call_eq_none {s : State P} {g : ℕ} {e : GoalEvent} {m : String}
    (h : s.goal_call g e m = none) :
    ∀ st, s.status g = some st → st.next e = none := by
  intro st hst
  simpa only [goal_call, hst, Option.bind_some, Option.map_eq_none_iff] using h

/-- `abort_goal` ends an executing or canceling goal and leaves any other alone;
an accepted goal raises an exception, which is caught. -/
theorem abort_goal_cases (s : State P) (g : ℕ) (m : String) :
    (∃ st, s.status g = some st ∧ (st = .executing ∨ st = .canceling) ∧
      s.abort_goal g m = s.set_status g .aborted m) ∨
    (s.abort_goal g m = s ∧ (s.Open g → s.status g = some .accepted)) := by
  unfold abort_goal
  by_cases hact : s.is_active g = true
  · rw [if_pos hact]
    obtain ⟨st, hst, hactive⟩ := open_iff.mp hact
    have hcall : s.goal_call g .abort m = (st.next .abort).map (s.set_status g · m) := by
      rw [goal_call, hst, Option.bind_some]
    rw [hcall]
    match st, hactive, hst with
    | .accepted, _, hst => exact .inr ⟨rfl, fun _ => hst⟩
    | .executing, _, hst => exact .inl ⟨_, hst, .inl rfl, rfl⟩
    | .canceling, _, hst => exact .inl ⟨_, hst, .inr rfl, rfl⟩
  · rw [if_neg hact]
    exact .inr ⟨rfl, fun hopen => absurd hopen hact⟩

end State

/-! ## Starting a worker -/

theorem join_eq_some {s t : State P} (h : s.join = some t) :
    t = { s with worker := none } ∧ (s.worker = none ∨ s.worker = some .finished) := by
  unfold State.join at h
  split at h
  · rename_i hw
    cases h
    exact ⟨rfl, .inl hw⟩
  · rename_i hw
    cases h
    exact ⟨rfl, .inr hw⟩
  · cases h

/-- A step of `start_execution` before its unlock. -/
inductive Starts (s : State P) (work : Worker) : Start → State P → Start → Prop where
  | lock : s.held = false → Starts s work .lock s .store
  | store : Starts s work .store { s with stop_execution_ := true } .join
  | join : s.worker = none ∨ s.worker = some .finished →
      Starts s work .join { s with worker := none } .check
  | pass : s.accepting_goals_ = true → Starts s work .check s .clear
  | refuse : s.accepting_goals_ = false → Starts s work .check s (.unlock false)
  | clear : Starts s work .clear { s with stop_execution_ := false } .spawn
  | spawn : Starts s work .spawn { s with worker := some work } (.unlock true)

theorem start_cases {s t : State P} {work : Worker} {p q : Start}
    (h : start_step s work p = some (t, q)) : Starts s work p t q := by
  cases p with
  | lock =>
      simp only [start_step] at h
      split at h
      · cases h
      · rename_i hheld
        cases h
        exact .lock (Bool.eq_false_iff.mpr hheld)
  | join =>
      obtain ⟨u, hu, hq⟩ := Option.map_eq_some_iff.mp h
      cases hq
      obtain ⟨rfl, hw⟩ := join_eq_some hu
      exact .join hw
  | check =>
      cases h
      by_cases ha : s.accepting_goals_ = true
      · rw [if_pos ha]
        exact .pass ha
      · rw [if_neg ha]
        exact .refuse (Bool.eq_false_iff.mpr ha)
  | store =>
      cases h
      exact .store
  | clear =>
      cases h
      exact .clear
  | spawn =>
      cases h
      exact .spawn
  | unlock b => cases h

/-! ## The action callback group -/

/-- The steps of `handle_accepted_callback`. -/
inductive Acted (s : State P) : State P → Prop where
  | accept {g : ℕ} : s.act = .handle g → s.accepting_goals_ = true →
      Acted s { s with goal_handle_ := some g, goal_pending_ := false, act := .start g .lock }
  | decline {g : ℕ} : s.act = .handle g → s.accepting_goals_ = false →
      Acted s { s with goal_pending_ := false, act := .abort g }
  | starts {g : ℕ} {p q : Start} {t : State P} : s.act = .start g p →
      Starts s (.goal g .execute) p t q → Acted s { t with act := .start g q }
  | started {g : ℕ} : s.act = .start g (.unlock true) → Acted s { s with act := .idle }
  | refused {g : ℕ} : s.act = .start g (.unlock false) → Acted s { s with act := .refused g }
  | give_up {g : ℕ} : s.act = .refused g →
      Acted s { s with goal_handle_ := if s.goal_handle_ = some g then none else s.goal_handle_
                       act := .abort g }
  | abort {g : ℕ} {m : String} : s.act = .abort g →
      m = "Goal rejected because the node is no longer active" →
      Acted s { s.abort_goal g m with act := .idle }

theorem act_cases {s t : State P} (h : act_step s = some t) : Acted s t := by
  unfold act_step at h
  split at h
  · cases h
  · rename_i g hp
    cases h
    unfold handle_accepted
    by_cases ha : s.accepting_goals_ = true
    · rw [if_pos ha]
      exact .accept hp ha
    · rw [if_neg ha]
      exact .decline hp (Bool.eq_false_iff.mpr ha)
  · rename_i g hp
    cases h
    exact .started hp
  · rename_i g hp
    cases h
    exact .refused hp
  · rename_i g p _ _ hp
    obtain ⟨⟨u, q⟩, hu, rfl⟩ := Option.map_eq_some_iff.mp h
    exact .starts hp (start_cases hu)
  · rename_i g hp
    cases h
    exact .give_up hp
  · rename_i g hp
    cases h
    exact .abort hp rfl

/-- `goal_callback` would accept the request. -/
def accepts (s : State P) (r : GoalRequest P) : Bool :=
  admits s && !r.faulted && r.live && (prepare_goal s r.goal r.start).2

theorem admits_spec {s : State P} (h : admits s = true) :
    s.accepting_goals_ = true ∧ s.goal_pending_ = false ∧ s.returning_to_upright_ = false ∧
      s.goal_handle_.any s.is_active = false := by
  simp only [admits, Bool.and_eq_true, Bool.not_eq_true', Bool.or_eq_false_iff] at h
  obtain ⟨⟨hacc, -⟩, ⟨hp, hr⟩, hhd⟩ := h
  exact ⟨hacc, hp, hr, hhd⟩

theorem admits_of_accepts {s : State P} {r : GoalRequest P} (h : accepts s r = true) :
    admits s = true := by
  simp only [accepts, Bool.and_eq_true] at h
  exact h.1.1.1

/-- What a goal request does: nothing, or it reconfigures the trajectory, and
then it may be accepted. -/
inductive Requested (s : State P) (r : GoalRequest P) : State P → Prop where
  | ignored : Requested s r s
  | rejected {wave : P.Wave} {pre : P.Pregenerated} {cap : ℚ} : admits s = true →
      Requested s r { s with trajectory_ := wave, pregenerated_ := pre
                             goal_velocity_cap_mps_ := cap }
  | accepted {wave : P.Wave} {pre : P.Pregenerated} {cap : ℚ} {plan : Plan P} :
      accepts s r = true →
      plan = State.current_plan { s with trajectory_ := wave, pregenerated_ := pre
                                         goal_velocity_cap_mps_ := cap } →
      Requested s r { s with trajectory_ := wave, pregenerated_ := pre
                             goal_velocity_cap_mps_ := cap, goal_pending_ := true
                             goals := Function.update s.goals r.id (some { status := .accepted, plan := plan })
                             act := .handle r.id }

theorem prepare_goal_eq (s : State P) (goal : P.Goal) (start : Option ℚ) :
    ∃ wave pre cap, (prepare_goal s goal start).1 =
      { s with trajectory_ := wave, pregenerated_ := pre, goal_velocity_cap_mps_ := cap } := by
  unfold prepare_goal
  split
  · exact ⟨_, _, _, rfl⟩
  · split
    · exact ⟨_, _, _, rfl⟩
    · split
      · split
        · exact ⟨_, _, _, rfl⟩
        · split
          · exact ⟨_, _, _, rfl⟩
          · exact ⟨_, _, _, rfl⟩
      · split
        · exact ⟨_, _, _, rfl⟩
        · split
          · exact ⟨_, _, _, rfl⟩
          · exact ⟨_, _, _, rfl⟩

theorem goal_callback_cases (s : State P) (r : GoalRequest P) :
    Requested s r (goal_callback s r) := by
  unfold goal_callback
  by_cases hadmits : (admits s && !r.faulted && r.live) = true
  · rw [if_pos hadmits]
    obtain ⟨wave, pre, cap, heq⟩ := prepare_goal_eq s r.goal r.start
    split
    · rename_i t ht
      rw [ht] at heq
      subst heq
      simp only [Bool.and_eq_true] at hadmits
      exact .rejected hadmits.1.1
    · rename_i t ht
      have haccepts : accepts s r = true := by
        rw [accepts, hadmits, ht]
        rfl
      rw [ht] at heq
      subst heq
      exact .accepted haccepts rfl
  · rw [if_neg hadmits]
    exact .ignored

/-! ## The return service -/

theorem return_check_spec {s : State P} {r : ReturnRequest} (h : return_check s r = none) :
    s.accepting_goals_ = true ∧ s.goal_pending_ = false ∧ s.returning_to_upright_ = false ∧
      s.goal_handle_ = none := by
  simp only [return_check] at h
  split at h
  · cases h
  · rename_i hacc
    split at h
    · cases h
    · split at h
      · cases h
      · split at h
        · cases h
        · rename_i hbusy
          rw [Bool.not_eq_true, Bool.or_eq_false_iff, Bool.or_eq_false_iff] at hbusy
          obtain ⟨⟨hp, hret⟩, hhd⟩ := hbusy
          exact ⟨(Bool.not_eq_false _).mp hacc, hp, hret,
            Option.not_isSome_iff_eq_none.mp (Bool.eq_false_iff.mp hhd)⟩

/-- The steps of the service handler behind its claim. -/
inductive Returned (s : State P) : State P → Prop where
  | starts {id : ℕ} {p q : Start} {t : State P} : s.ret = .start id p →
      Starts s (.return_to_upright id .begin) p t q → Returned s { t with ret := .start id q }
  | started {id : ℕ} : s.ret = .start id (.unlock true) → Returned s { s with ret := .idle }
  | refused {id : ℕ} : s.ret = .start id (.unlock false) → Returned s { s with ret := .refused id }
  | give_back {id : ℕ} {reply : Reply} : s.ret = .refused id →
      Returned s { s with returning_to_upright_ := false, ret := .respond id reply }
  | respond {id : ℕ} {reply : Reply} : s.ret = .respond id reply →
      Returned s { s with replies := s.replies ++ [(id, reply)], ret := .idle }

theorem ret_cases {s t : State P} (h : ret_step s = some t) : Returned s t := by
  unfold ret_step at h
  split at h
  · cases h
  · rename_i id hp
    cases h
    exact .started hp
  · rename_i id hp
    cases h
    exact .refused hp
  · rename_i id p _ _ hp
    obtain ⟨⟨u, q⟩, hu, rfl⟩ := Option.map_eq_some_iff.mp h
    exact .starts hp (start_cases hu)
  · rename_i id hp
    cases h
    exact .give_back hp
  · rename_i id reply hp
    cases h
    exact .respond hp

/-! ## The worker -/

/-- The worker can still sample. -/
def GoalPc.plays : GoalPc → Bool
  | .execute | .loop | .canceling | .soft_stop | .sample | .write _ _ _ | .feedback _
  | .sleep => true
  | _ => false

/-- The worker has neither given up `goal_handle_` nor ended its goal. -/
def GoalPc.owns : GoalPc → Bool
  | .halt _ | .release _ | .fail_release _ | .succeed_halt | .succeed => true
  | pc => pc.plays

/-- Between the section that gives up `goal_handle_` and the call that ends the
goal. -/
def GoalPc.releasing : GoalPc → Bool
  | .finish _ | .fail_reason _ | .fail_store _ | .fail_stop _ | .fail_abort _ => true
  | _ => false

/-- The exit of a canceled goal. -/
def GoalPc.cancels : GoalPc → Bool
  | .halt .canceled | .release .canceled | .finish .canceled => true
  | _ => false

/-- The exit after a rejected setpoint. -/
def GoalPc.fails : GoalPc → Bool
  | .fail_reason _ | .fail_store _ | .fail_stop _ | .fail_abort _ => true
  | _ => false

/-- The return has not given back its claim. -/
def ReturnPc.claims : ReturnPc → Bool
  | .respond _ => false
  | _ => true

/-- A step of the goal worker that leaves the shared data alone. -/
structure Moves (s : State P) (g : ℕ) (pc pc' : GoalPc) : Prop where
  owns : pc'.owns = true
  plays : pc'.plays = true → pc.plays = true
  executed : pc' ≠ .execute ∧ (pc = .execute → s.status g ≠ some .accepted)
  origin : pc.owns = true ∨ pc = .finish .canceled ∧ s.status g ≠ some .canceling ∨
    ∃ m, pc = .fail_stop m
  cancels : pc'.cancels = true → pc.cancels = true ∨ s.status g = some .canceling

/-- What a step of the worker does. -/
inductive Worked (s : State P) : State P → Prop where
  | moves {g : ℕ} {pc pc' : GoalPc} {x : Option (ℚ × ℚ)} : s.worker = some (.goal g pc) →
      Moves s g pc pc' → Worked s { s with worker := some (.goal g pc'), setpoint := x }
  | executes {g : ℕ} : s.worker = some (.goal g .execute) → s.status g = some .accepted →
      Worked s ((s.set_status g .executing "").at_goal g .loop)
  | releases {g : ℕ} {e : Exit} : s.worker = some (.goal g (.release e)) →
      Worked s ((s.release_handle g).at_goal g (.finish e))
  | rejects {g : ℕ} {message : String} : s.worker = some (.goal g (.fail_release message)) →
      Worked s (({ s with accepting_goals_ := false }.release_handle g).at_goal g
        (.fail_reason message))
  | reason {g : ℕ} {message : String} : s.worker = some (.goal g (.fail_reason message)) →
      Worked s ((report_reason s message).at_goal g (.fail_store message))
  | store {g : ℕ} {message : String} : s.worker = some (.goal g (.fail_store message)) →
      Worked s ({ s with fault_pending_ := true, fresh := true }.at_goal g (.fail_stop message))
  | stop {g : ℕ} {message : String} : s.worker = some (.goal g (.fail_stop message)) →
      s.reporter = none → Worked s ({ s with polling := false }.at_goal g (.fail_abort message))
  | aborts {g : ℕ} {pc : GoalPc} {m : String} : s.worker = some (.goal g pc) →
      pc.releasing = true → pc.cancels = false → Worked s (s.abort_goal g m).end_worker
  | cancels {g : ℕ} {m : String} : s.worker = some (.goal g (.finish .canceled)) →
      s.status g = some .canceling → Worked s (s.set_status g .canceled m).end_worker
  | succeeds {g : ℕ} {m : String} : s.worker = some (.goal g .succeed) →
      s.status g = some .executing ∨ s.status g = some .canceling →
      Worked s ((s.set_status g .succeeded m).at_goal g .succeed_release)
  | retires {g : ℕ} : s.worker = some (.goal g .succeed_release) →
      Worked s (s.release_handle g).end_worker
  | returns {id : ℕ} {pc pc' : ReturnPc} : s.worker = some (.return_to_upright id pc) →
      pc.claims = true → pc'.claims = true → Worked s (s.at_return id pc')
  | gives_back {id : ℕ} {status : ReturnStatus} :
      s.worker = some (.return_to_upright id (.release status)) →
      Worked s ({ s with returning_to_upright_ := false }.at_return id (.respond status))
  | replies {id : ℕ} {status : ReturnStatus} {l : List (ℕ × Reply)} :
      s.worker = some (.return_to_upright id (.respond status)) →
      Worked s { s.end_worker with replies := l }

theorem calls_cases {i : WorkerInput} {a t : State P} {b : Option String → State P}
    (h : calls i a b = some t) : t = a ∨ ∃ what, t = b what := by
  unfold calls at h
  split at h
  · exact .inl (Option.some.inj h).symm
  · rename_i what
    exact .inr ⟨what, (Option.some.inj h).symm⟩
  · cases h

theorem goal_cases {s t : State P} {g : ℕ} {i : WorkerInput} {pc : GoalPc}
    (hw : s.worker = some (.goal g pc)) (h : goal_step s g i pc = some t) : Worked s t := by
  -- a step that only moves the program point
  have go : ∀ pc', Moves s g pc pc' → Worked s (s.at_goal g pc') := fun pc' hm =>
    .moves hw hm
  have own : ∀ pc', pc.owns = true → pc ≠ .execute → pc'.owns = true → pc' ≠ .execute →
      (pc'.plays = true → pc.plays = true) → (pc'.cancels = true → pc.cancels = true) →
      Worked s (s.at_goal g pc') := by
    intro pc' howns hne howns' hne' hplays hcancels
    exact go pc' ⟨howns', hplays, ⟨hne', fun he => absurd he hne⟩, .inl howns,
      fun hc => .inl (hcancels hc)⟩
  cases pc with
  | execute =>
      simp only [goal_step] at h
      split at h
      · rename_i u hu
        cases h
        obtain ⟨st, st', hst, hnext, rfl⟩ := State.goal_call_eq_some hu
        match st, hst, hnext with
        | .accepted, hst, rfl => exact .executes hw hst
      · rename_i hnone
        cases h
        refine go _ ⟨rfl, nofun, ⟨nofun, fun _ hst => ?_⟩, .inl rfl, nofun⟩
        have := State.goal_call_eq_none hnone _ hst
        cases this
  | loop =>
      cases h
      split
      · exact own _ rfl nofun rfl nofun (fun _ => rfl) nofun
      · exact own _ rfl nofun rfl nofun nofun nofun
  | canceling =>
      cases h
      split
      · rename_i hst
        exact go _ ⟨rfl, nofun, ⟨nofun, nofun⟩, .inl rfl, fun _ => .inr hst⟩
      · exact own _ rfl nofun rfl nofun (fun _ => rfl) nofun
  | soft_stop =>
      cases h
      split
      · exact own _ rfl nofun rfl nofun nofun nofun
      · exact own _ rfl nofun rfl nofun (fun _ => rfl) nofun
  | sample =>
      simp only [goal_step] at h
      split at h
      · cases h
        exact own _ rfl nofun rfl nofun (fun _ => rfl) nofun
      · cases h
  | write x v complete =>
      simp only [goal_step] at h
      split at h
      · cases h
        exact .moves hw ⟨rfl, fun _ => rfl, ⟨nofun, nofun⟩, .inl rfl, nofun⟩
      · cases h
        exact own _ rfl nofun rfl nofun nofun nofun
      · cases h
        exact own _ rfl nofun rfl nofun nofun nofun
      · cases h
  | feedback complete =>
      rcases calls_cases h with rfl | ⟨what, rfl⟩
      · split
        · exact own _ rfl nofun rfl nofun nofun nofun
        · exact own _ rfl nofun rfl nofun (fun _ => rfl) nofun
      · exact own _ rfl nofun rfl nofun nofun nofun
  | sleep =>
      cases h
      exact own _ rfl nofun rfl nofun (fun _ => rfl) nofun
  | halt e =>
      cases e with
      | failed what₀ =>
          rcases calls_cases h with rfl | ⟨what, rfl⟩
          · exact own _ rfl nofun rfl nofun nofun nofun
          · exact own _ rfl nofun rfl nofun nofun nofun
      | canceled =>
          rcases calls_cases h with rfl | ⟨what, rfl⟩
          · exact own _ rfl nofun rfl nofun nofun (fun _ => rfl)
          · exact own _ rfl nofun rfl nofun nofun nofun
      | soft_stop =>
          rcases calls_cases h with rfl | ⟨what, rfl⟩
          · exact own _ rfl nofun rfl nofun nofun nofun
          · exact own _ rfl nofun rfl nofun nofun nofun
      | stopped =>
          rcases calls_cases h with rfl | ⟨what, rfl⟩
          · exact own _ rfl nofun rfl nofun nofun nofun
          · exact own _ rfl nofun rfl nofun nofun nofun
  | release e =>
      cases h
      exact .releases hw
  | finish e =>
      cases e with
      | canceled =>
          simp only [goal_step] at h
          split at h
          · rename_i u hu
            cases h
            obtain ⟨st, st', hst, hnext, rfl⟩ := State.goal_call_eq_some hu
            match st, hst, hnext with
            | .canceling, hst, rfl => exact .cancels hw hst
          · rename_i hnone
            cases h
            refine go _ ⟨rfl, nofun, ⟨nofun, nofun⟩, .inr (.inl ⟨rfl, fun hst => ?_⟩), nofun⟩
            have := State.goal_call_eq_none hnone _ hst
            cases this
      | soft_stop =>
          cases h
          exact .aborts hw rfl rfl
      | stopped =>
          cases h
          exact .aborts hw rfl rfl
      | failed what₀ =>
          cases h
          exact .aborts hw rfl rfl
  | fail_release message =>
      cases h
      exact .rejects hw
  | fail_reason message =>
      cases h
      exact .reason hw
  | fail_store message =>
      cases h
      exact .store hw
  | fail_stop message =>
      simp only [goal_step] at h
      split at h
      · obtain ⟨u, hu, rfl⟩ := Option.map_eq_some_iff.mp h
        unfold stop_actuator at hu
        split at hu
        · rename_i hnone
          cases hu
          exact .stop hw hnone
        · cases hu
      · cases h
        exact go _ ⟨rfl, nofun, ⟨nofun, nofun⟩, .inr (.inr ⟨message, rfl⟩), nofun⟩
      · cases h
  | fail_abort message =>
      cases h
      exact .aborts hw rfl rfl
  | succeed_halt =>
      rcases calls_cases h with rfl | ⟨what, rfl⟩
      · exact own _ rfl nofun rfl nofun nofun nofun
      · exact own _ rfl nofun rfl nofun nofun nofun
  | succeed =>
      simp only [goal_step] at h
      split at h
      · rename_i u hu
        cases h
        obtain ⟨st, st', hst, hnext, rfl⟩ := State.goal_call_eq_some hu
        match st, hst, hnext with
        | .executing, hst, rfl => exact .succeeds hw (.inl hst)
        | .canceling, hst, rfl => exact .succeeds hw (.inr hst)
      · cases h
        exact own _ rfl nofun rfl nofun nofun nofun
  | succeed_release =>
      cases h
      exact .retires hw

theorem return_cases {s t : State P} {id : ℕ} {i : WorkerInput} {pc : ReturnPc}
    (hw : s.worker = some (.return_to_upright id pc)) (h : return_step s id i pc = some t) :
    Worked s t := by
  have go : ∀ pc', pc.claims = true → pc'.claims = true → Worked s (s.at_return id pc') :=
    fun pc' hc hc' => .returns hw hc hc'
  cases pc with
  | begin =>
      simp only [return_step] at h
      split at h
      all_goals cases h
      all_goals exact go _ rfl rfl
  | loop =>
      cases h
      refine go _ rfl ?_
      split
      · rfl
      · rfl
  | soft_stop =>
      cases h
      refine go _ rfl ?_
      split
      · rfl
      · rfl
  | faulted =>
      simp only [return_step] at h
      split at h
      · rename_i b
        cases h
        refine go _ rfl ?_
        cases b
        · rfl
        · rfl
      · cases h
        exact go _ rfl rfl
      · cases h
  | write =>
      simp only [return_step] at h
      split at h
      · rename_i ok reason
        cases h
        refine go _ rfl ?_
        cases ok
        · rfl
        · rfl
      · cases h
        exact go _ rfl rfl
      · cases h
  | progress =>
      simp only [return_step] at h
      split at h
      all_goals cases h
      all_goals exact go _ rfl rfl
  | sleep =>
      cases h
      exact go _ rfl rfl
  | halt status =>
      rcases calls_cases h with rfl | ⟨what, rfl⟩
      · exact go _ rfl rfl
      · exact go _ rfl rfl
  | release status =>
      cases h
      exact .gives_back hw
  | respond status =>
      simp only [return_step] at h
      split at h
      · cases h
        exact .replies hw
      · cases h
        exact .replies hw
      · cases h

theorem worker_cases {s t : State P} {i : WorkerInput} (h : worker_step s i = some t) :
    Worked s t := by
  unfold worker_step at h
  split at h
  · rename_i g pc hw
    exact goal_cases hw h
  · rename_i id pc hw
    exact return_cases hw h
  · cases h

theorem release_handle_cases (s : State P) (g : ℕ) :
    (s.goal_handle_ = some g ∧ s.release_handle g =
      { s with goal_handle_ := none, goal_pending_ := false }) ∨
    (s.goal_handle_ ≠ some g ∧ s.release_handle g = s) := by
  unfold State.release_handle
  by_cases hg : s.goal_handle_ = some g
  · rw [if_pos hg]
    exact .inl ⟨hg, rfl⟩
  · rw [if_neg hg]
    exact .inr ⟨hg, rfl⟩

/-- What no step of the worker touches. -/
theorem Worked.frame {s t : State P} (h : Worked s t) :
    s.worker ≠ none ∧ (t.act, t.ret, t.lc, t.primary, t.epoch, t.fault_transition_pending_) =
      (s.act, s.ret, s.lc, s.primary, s.epoch, s.fault_transition_pending_) := by
  have some_worker : ∀ {x : Worker}, s.worker = some x → s.worker ≠ none := by
    intro x hx
    rw [hx]
    nofun
  cases h with
  | @releases g e hw =>
      refine ⟨some_worker hw, ?_⟩
      rcases release_handle_cases s g with ⟨-, heq⟩ | ⟨-, heq⟩
      · rw [heq]
        rfl
      · rw [heq]
        rfl
  | @rejects g message hw =>
      refine ⟨some_worker hw, ?_⟩
      rcases release_handle_cases { s with accepting_goals_ := false } g with ⟨-, heq⟩ | ⟨-, heq⟩
      · rw [heq]
        rfl
      · rw [heq]
        rfl
  | @aborts g pc m hw _ _ =>
      refine ⟨some_worker hw, ?_⟩
      rcases s.abort_goal_cases g m with ⟨st, -, -, heq⟩ | ⟨heq, -⟩
      · rw [heq]
        rfl
      · rw [heq]
        rfl
  | @retires g hw =>
      refine ⟨some_worker hw, ?_⟩
      rcases release_handle_cases s g with ⟨-, heq⟩ | ⟨-, heq⟩
      · rw [heq]
        rfl
      · rw [heq]
        rfl
  | moves hw _ => exact ⟨some_worker hw, rfl⟩
  | executes hw _ => exact ⟨some_worker hw, rfl⟩
  | reason hw => exact ⟨some_worker hw, rfl⟩
  | store hw => exact ⟨some_worker hw, rfl⟩
  | stop hw _ => exact ⟨some_worker hw, rfl⟩
  | cancels hw _ => exact ⟨some_worker hw, rfl⟩
  | succeeds hw _ => exact ⟨some_worker hw, rfl⟩
  | returns hw _ _ => exact ⟨some_worker hw, rfl⟩
  | gives_back hw => exact ⟨some_worker hw, rfl⟩
  | replies hw => exact ⟨some_worker hw, rfl⟩

/-! ## The lifecycle thread -/

/-- The step sets `accepting_goals_`. -/
def activates (s : State P) : Event P → Bool
  | .lc _ => s.lc == .accept
  | _ => false

/-- The data the threads share agree. -/
structure Same (s t : State P) : Prop where
  cfg : t.cfg = s.cfg
  trajectory : t.trajectory_ = s.trajectory_
  pregenerated : t.pregenerated_ = s.pregenerated_
  cap : t.goal_velocity_cap_mps_ = s.goal_velocity_cap_mps_
  accepting : t.accepting_goals_ = s.accepting_goals_
  pending : t.goal_pending_ = s.goal_pending_
  returning : t.returning_to_upright_ = s.returning_to_upright_
  handle : t.goal_handle_ = s.goal_handle_
  goals : t.goals = s.goals
  worker : t.worker = s.worker
  act : t.act = s.act
  ret : t.ret = s.ret
  replies : t.replies = s.replies

/-- What a step of the lifecycle thread does to the shared data. -/
inductive Ran (s : State P) : State P → Prop where
  | quiet {t : State P} : Same s t → Ran s t
  | configure {t : State P} {cfg : P.Config} : s.lc = .idle → s.primary = .unconfigured →
      Same { s with cfg := cfg } t → Ran s t
  | refuse {t : State P} : Same { s with accepting_goals_ := false } t → Ran s t
  | take {t : State P} : s.lc = .tick_release ∨ (∃ why, s.lc = .stop why .release) →
      Same (take_goal s) t → Ran s t
  | abort {t : State P} {g : Option ℕ} :
      s.lc = .tick_abort g ∨ (∃ why, s.lc = .stop why (.abort g)) →
      Same (s.abort_goal? g) t → Ran s t
  | join {t : State P} : s.worker = none ∨ s.worker = some .finished →
      Same { s with worker := none } t → Ran s t
  | accept {t : State P} : s.lc = .accept → Same { s with accepting_goals_ := true } t → Ran s t

theorem same_of {s t : State P} (h : (t.cfg, t.trajectory_, t.pregenerated_,
      t.goal_velocity_cap_mps_, t.accepting_goals_, t.goal_pending_, t.returning_to_upright_,
      t.goal_handle_, t.goals, t.worker, t.act, t.ret, t.replies) =
    (s.cfg, s.trajectory_, s.pregenerated_, s.goal_velocity_cap_mps_, s.accepting_goals_,
      s.goal_pending_, s.returning_to_upright_, s.goal_handle_, s.goals, s.worker, s.act, s.ret,
      s.replies)) :
    Same s t := by
  simp only [Prod.mk.injEq] at h
  obtain ⟨h1, h2, h3, h4, h5, h6, h7, h8, h9, h10, h11, h12, h13⟩ := h
  exact ⟨h1, h2, h3, h4, h5, h6, h7, h8, h9, h10, h11, h12, h13⟩

theorem stop_actuator_eq_some {s t : State P} (h : stop_actuator s = some t) :
    t = { s with polling := false } ∧ s.reporter = none := by
  unfold stop_actuator at h
  split at h
  · rename_i hnone
    cases h
    exact ⟨rfl, hnone⟩
  · cases h

theorem transition_cases {s t : State P} {tr : Transition P} (hlc : s.lc = .idle)
    (h : begin_transition s tr = some t) : Ran s t := by
  cases tr with
  | configure cfg =>
      simp only [begin_transition] at h
      split at h
      · rename_i hp
        cases h
        exact .configure hlc hp (same_of rfl)
      · cases h
  | activate | deactivate | cleanup | shutdown =>
      simp only [begin_transition] at h
      split at h
      all_goals cases h
      exact .quiet (same_of rfl)

theorem tick_cases (s : State P) : Ran s (begin_tick s) := by
  unfold begin_tick
  split
  · exact .quiet (same_of rfl)
  · exact .quiet (same_of rfl)

theorem stop_cases {s t : State P} {why : Why} {p : Stop} (hlc : s.lc = .stop why p)
    (h : stop_step s why p = some t) : Ran s t := by
  cases p with
  | accepting =>
      cases h
      exact .refuse (same_of rfl)
  | release =>
      cases h
      exact .take (.inr ⟨why, hlc⟩) (same_of rfl)
  | abort g =>
      cases h
      exact .abort (.inr ⟨why, hlc⟩) (same_of rfl)
  | lock =>
      simp only [stop_step] at h
      split at h
      · cases h
      · cases h
        exact .quiet (same_of rfl)
  | join =>
      obtain ⟨u, hu, rfl⟩ := Option.map_eq_some_iff.mp h
      obtain ⟨rfl, hw⟩ := join_eq_some hu
      exact .join hw (same_of rfl)
  | actuator =>
      obtain ⟨u, hu, rfl⟩ := Option.map_eq_some_iff.mp h
      obtain ⟨rfl, -⟩ := stop_actuator_eq_some hu
      exact .quiet (same_of rfl)
  | store | unlock | bond =>
      cases h
      exact .quiet (same_of rfl)

theorem lc_cases {s t : State P} {i : LcInput} (h : lc_step s i = some t) : Ran s t := by
  unfold lc_step at h
  cases hlc : s.lc <;> simp only [hlc] at h
  case idle => cases h
  case stop why p => exact stop_cases hlc h
  case accept =>
    cases h
    exact .accept hlc (same_of rfl)
  case tick_accepting =>
    cases h
    exact .refuse (same_of rfl)
  case tick_release =>
    cases h
    exact .take (.inl hlc) (same_of rfl)
  case tick_abort g =>
    cases h
    exact .abort (.inl hlc) (same_of rfl)
  case factory =>
    split at h
    all_goals cases h
    all_goals exact .quiet (same_of rfl)
  case start =>
    split at h
    · cases h
      exact .quiet (same_of rfl)
    · obtain ⟨u, hu, rfl⟩ := Option.map_eq_some_iff.mp h
      obtain ⟨rfl, -⟩ := stop_actuator_eq_some hu
      exact .quiet (same_of rfl)
    · cases h
  case bond =>
    split at h
    all_goals cases h
    exact .quiet (same_of rfl)
  case bond_failed =>
    obtain ⟨u, hu, rfl⟩ := Option.map_eq_some_iff.mp h
    obtain ⟨rfl, -⟩ := stop_actuator_eq_some hu
    exact .quiet (same_of rfl)
  case after why =>
    cases h
    cases why with
    | deactivate tick =>
        simp only [after_stop]
        split
        · exact .quiet (same_of rfl)
        · exact .quiet (same_of rfl)
    | _ => exact .quiet (same_of rfl)
  all_goals
    cases h
    exact .quiet (same_of rfl)

/-! ## The system -/

/-- An event that can happen, and the function of the node it comes down to. -/
inductive Happens (s : State P) : Event P → State P → Prop where
  | goal_request {r : GoalRequest P} : s.act = .idle → s.goals r.id = none →
      Happens s (.goal_request r) (goal_callback s r)
  | cancel {g : ℕ} : s.act = .idle →
      s.status g = some .accepted ∨ s.status g = some .executing →
      Happens s (.cancel g) (s.set_status g .canceling "")
  | act {t : State P} : act_step s = some t → Happens s .act t
  | return_request {r : ReturnRequest} : s.ret = .idle →
      Happens s (.return_request r) (WavemakerNode.return_request s r)
  | ret {t : State P} : ret_step s = some t → Happens s .ret t
  | worker {i : WorkerInput} {t : State P} : worker_step s i = some t → Happens s (.worker i) t
  | transition {tr : Transition P} {t : State P} : s.lc = .idle → begin_transition s tr = some t →
      Happens s (.transition tr) t
  | tick : s.lc = .idle → Happens s .tick (begin_tick s)
  | lc {i : LcInput} {t : State P} : lc_step s i = some t → Happens s (.lc i) t
  | fault {reason : String} : s.polling = true → s.reporter = none →
      Happens s (.fault reason) { report_reason s reason with reporter := some s.epoch }
  | report {n : ℕ} : s.reporter = some n →
      Happens s .report { s with fault_pending_ := true, fresh := s.fresh || n == s.epoch
                                 reporter := none }
  | soft_stop {data : Bool} :
      Happens s (.soft_stop data) { s with soft_stopped_ := data, soft_stop_last_msg_ns_ := s.now }
  | clock {ns : ℕ} : Happens s (.clock ns) { s with now := s.now + ns }
  | context_shutdown : Happens s .context_shutdown { s with ok := false }

theorem happens {s t : State P} {e : Event P} (h : raw_step s e = some t) : Happens s e t := by
  cases e with
  | goal_request r =>
      obtain ⟨⟨hidle, -, hnew⟩, heq⟩ := Option.ite_none_right_eq_some.mp h
      cases heq
      exact .goal_request hidle (Option.isNone_iff_eq_none.mp hnew)
  | cancel g =>
      obtain ⟨⟨hidle, -⟩, hcall⟩ := Option.ite_none_right_eq_some.mp h
      obtain ⟨st, st', hst, hnext, rfl⟩ := State.goal_call_eq_some hcall
      -- the library takes a cancel in two states only
      match st, hst, hnext with
      | .accepted, hst, rfl => exact .cancel hidle (.inl hst)
      | .executing, hst, rfl => exact .cancel hidle (.inr hst)
  | act => exact .act h
  | return_request r =>
      obtain ⟨⟨hidle, -⟩, heq⟩ := Option.ite_none_right_eq_some.mp h
      cases heq
      exact .return_request hidle
  | ret => exact .ret h
  | worker i => exact .worker h
  | transition tr =>
      obtain ⟨hlc, hx⟩ := Option.ite_none_right_eq_some.mp h
      exact .transition hlc hx
  | tick =>
      obtain ⟨⟨hlc, -⟩, heq⟩ := Option.ite_none_right_eq_some.mp h
      cases heq
      exact .tick hlc
  | lc i => exact .lc h
  | fault reason =>
      obtain ⟨⟨hpoll, hnone⟩, heq⟩ := Option.ite_none_right_eq_some.mp h
      cases heq
      exact .fault hpoll hnone
  | report =>
      simp only [raw_step] at h
      split at h
      · rename_i n hrep
        cases h
        exact .report hrep
      · cases h
  | soft_stop data =>
      obtain ⟨-, heq⟩ := Option.ite_none_right_eq_some.mp h
      cases heq
      exact .soft_stop
  | clock ns =>
      cases h
      exact .clock
  | context_shutdown =>
      cases h
      exact .context_shutdown

/-- What one step of the node does, thread by thread. -/
inductive Stepped (s : State P) : Event P → State P → Prop where
  | request {r : GoalRequest P} {t : State P} : s.act = .idle → s.goals r.id = none →
      Requested s r t → Stepped s (.goal_request r) t
  | cancel {g : ℕ} : s.act = .idle →
      s.status g = some .accepted ∨ s.status g = some .executing →
      Stepped s (.cancel g) (s.set_status g .canceling "")
  | act {t : State P} : Acted s t → Stepped s .act t
  | claim {r : ReturnRequest} : s.ret = .idle → return_check s r = none →
      Stepped s (.return_request r)
        { s with returning_to_upright_ := true, ret := .start r.id .lock }
  | turn_away {r : ReturnRequest} {reply : Reply} : s.ret = .idle →
      return_check s r = some reply →
      Stepped s (.return_request r) { s with ret := .respond r.id reply }
  | ret {t : State P} : Returned s t → Stepped s .ret t
  | worker {i : WorkerInput} {t : State P} : Worked s t → Stepped s (.worker i) t
  | lc {e : Event P} {t : State P} : Ran s t → (s.lc = .accept → activates s e = true) →
      Stepped s e t
  | quiet {e : Event P} {t : State P} : Same s t → Stepped s e t

/-- An event of the actuator's poll thread or from outside the node. -/
def Event.outside : Event P → Bool
  | .fault _ | .report | .soft_stop _ | .clock _ | .context_shutdown => true
  | _ => false

theorem outside_same {s t : State P} {e : Event P} (he : e.outside = true)
    (h : raw_step s e = some t) : Same s t := by
  cases happens h with
  | fault _ _ | report _ | soft_stop | clock | context_shutdown => exact same_of rfl
  | _ => cases he

theorem raw_step_cases {s t : State P} {e : Event P} (h : raw_step s e = some t) :
    Stepped s e t := by
  cases happens h with
  | goal_request hidle hnew => exact .request hidle hnew (goal_callback_cases s _)
  | cancel hidle hor => exact .cancel hidle hor
  | act hx => exact .act (act_cases hx)
  | return_request hidle =>
      unfold WavemakerNode.return_request
      split
      · rename_i hcheck
        exact .claim hidle hcheck
      · rename_i hcheck
        exact .turn_away hidle hcheck
  | ret hx => exact .ret (ret_cases hx)
  | worker hx => exact .worker (worker_cases hx)
  | transition hlc hx => exact .lc (transition_cases hlc hx) (by rw [hlc]; nofun)
  | tick hlc => exact .lc (tick_cases s) (by rw [hlc]; nofun)
  | lc hx =>
      refine .lc (lc_cases hx) fun hlc => ?_
      simp only [activates, hlc, beq_self_eq_true]
  | fault _ _ | report _ | soft_stop | clock | context_shutdown =>
      exact .quiet (outside_same rfl h)

end WavemakerNode
