/-
Who answers for a goal.

A goal is ended by the worker that plays it, by the lifecycle thread that took it
out of `goal_handle_`, or by `handle_accepted_callback` as long as it has not
handed it on. `Restatus` lists the steps that change the state of one goal, and
`Owners` says that an accepted goal always has somebody who will still call it:
an accepted goal that nobody has is dropped, and the handle's destructor ends it.
-/
import Wavemakers.NodeGoals

set_option autoImplicit false

namespace WavemakerNode

open Interleave

variable {P : Plant}

/-! ## The state of one goal -/

/-- What one step does to the state of the goal `g`. -/
inductive Restatus (s t : State P) (g : ℕ) : Event P → Prop where
  | same {e : Event P} : t.status g = s.status g → Restatus s t g e
  | accepted {r : GoalRequest P} : r.id = g → accepts s r = true → s.goals g = none →
      t.act = .handle g → Restatus s t g (.goal_request r)
  | canceling : s.act = .idle → s.status g = some .accepted ∨ s.status g = some .executing →
      t.status g = some .canceling → Restatus s t g (.cancel g)
  | worked {i : WorkerInput} {pc : GoalPc} {st : GoalStatus} : s.worker = some (.goal g pc) →
      s.Open g → t.status g = some st → st ≠ .accepted → Restatus s t g (.worker i)
  | aborted {i : LcInput} : s.lc.holds g = true →
      s.status g = some .executing ∨ s.status g = some .canceling →
      t.status g = some .aborted → Restatus s t g (.lc i)

theorem status_eq_set {s : State P} {g k : ℕ} {st st' : GoalStatus} {m : String}
    (hst : s.status k = some st') :
    (s.set_status k st m).status g = if g = k then some st else s.status g := by
  rw [status_set_status, hst]
  rfl

theorem status_set_self {s : State P} {g : ℕ} {st st' : GoalStatus} {m : String}
    (hst : s.status g = some st') : (s.set_status g st m).status g = some st :=
  (status_eq_set hst).trans (if_pos rfl)

theorem open_of_status {s : State P} {g : ℕ} {st : GoalStatus} (h : s.status g = some st)
    (hst : st.is_active = true) : s.Open g := State.open_iff.mpr ⟨st, h, hst⟩

/-- Where `abort_goal` on another goal leaves this one. -/
theorem status_abort {s : State P} (g k : ℕ) (m : String) :
    (s.abort_goal k m).status g = s.status g ∨
      k = g ∧ (s.status g = some .executing ∨ s.status g = some .canceling) ∧
        (s.abort_goal k m).status g = some .aborted := by
  rcases s.abort_goal_cases k m with ⟨st, hst, hor, heq⟩ | ⟨heq, -⟩
  · rw [heq, status_eq_set hst]
    by_cases hg : g = k
    · subst hg
      rw [if_pos rfl]
      refine .inr ⟨rfl, ?_, rfl⟩
      rcases hor with rfl | rfl
      · exact .inl hst
      · exact .inr hst
    · rw [if_neg hg]
      exact .inl rfl
  · rw [heq]
    exact .inl rfl

theorem status_release (s : State P) (g k : ℕ) : (s.release_handle k).status g = s.status g := by
  rcases release_handle_cases s k with ⟨-, heq⟩ | ⟨-, heq⟩
  · rw [heq]
    rfl
  · rw [heq]

theorem worked_restatus {s t : State P} (h : Worked s t) (g : ℕ) (i : WorkerInput) :
    Restatus s t g (.worker i) := by
  cases h with
  | @executes k hw hst =>
      by_cases hg : g = k
      · subst hg
        have hset := (status_set_self hst : (s.set_status g .executing "").status g = _)
        exact .worked hw (open_of_status hst rfl) hset nofun
      · exact .same ((status_eq_set hst).trans (if_neg hg))
  | @aborts k pc m hw _ _ =>
      rcases status_abort (s := s) g k m with hsame | ⟨rfl, hor, heq⟩
      · exact .same hsame
      · refine .worked hw ?_ heq nofun
        rcases hor with hst | hst
        · exact open_of_status hst rfl
        · exact open_of_status hst rfl
  | @cancels k m hw hst =>
      by_cases hg : g = k
      · subst hg
        have hset := (status_set_self hst : (s.set_status g .canceled m).status g = _)
        exact .worked hw (open_of_status hst rfl) hset nofun
      · exact .same ((status_eq_set hst).trans (if_neg hg))
  | @succeeds k m hw hor =>
      obtain ⟨st, hst, hactive⟩ : ∃ st, s.status k = some st ∧ st.is_active = true := by
        rcases hor with hst | hst
        · exact ⟨_, hst, rfl⟩
        · exact ⟨_, hst, rfl⟩
      by_cases hg : g = k
      · subst hg
        have hset := (status_set_self hst : (s.set_status g .succeeded m).status g = _)
        exact .worked hw (open_of_status hst hactive) hset nofun
      · exact .same ((status_eq_set hst).trans (if_neg hg))
  | @releases k e _ => exact .same (status_release s g k)
  | @rejects k message _ => exact .same (status_release { s with accepting_goals_ := false } g k)
  | @retires k _ => exact .same (status_release s g k)
  | _ => exact .same rfl

theorem acted_restatus {s t : State P} (hu : s.UnderWay) (h : Acted s t) (g : ℕ) :
    t.status g = s.status g := by
  cases h with
  | @abort k m hp _ =>
      rw [abort_waiting hu (by rw [hp]; rfl)]
      rfl
  | starts _ hs => cases hs <;> rfl
  | _ => rfl

theorem returned_restatus {s t : State P} (h : Returned s t) (g : ℕ) :
    t.status g = s.status g := by
  cases h with
  | starts _ hs => cases hs <;> rfl
  | _ => rfl

theorem Same.status {s t : State P} (h : Same s t) (g : ℕ) : t.status g = s.status g := by
  unfold State.status
  rw [h.goals]

theorem ran_restatus {s t : State P} (h : Ran s t) (g : ℕ) :
    t.status g = s.status g ∨ s.lc.holds g = true ∧
      (s.status g = some .executing ∨ s.status g = some .canceling) ∧
      t.status g = some .aborted := by
  cases h with
  | @abort k hlc hs =>
      cases k with
      | none => exact .inl (hs.status g)
      | some k =>
          rw [hs.status g]
          rcases status_abort (s := s) g k "Goal aborted by lifecycle transition" with
            hsame | ⟨rfl, hor, heq⟩
          · exact .inl hsame
          · refine .inr ⟨?_, hor, heq⟩
            rcases hlc with hlc | ⟨why, hlc⟩
            · rw [hlc]
              exact beq_self_eq_true _
            · rw [hlc]
              exact beq_self_eq_true _
  | quiet hs => exact .inl (hs.status g)
  | configure _ _ hs => exact .inl (hs.status g)
  | refuse hs => exact .inl (hs.status g)
  | take _ hs => exact .inl (hs.status g)
  | join _ hs => exact .inl (hs.status g)
  | accept _ hs => exact .inl (hs.status g)

/-- A lifecycle thread that holds a goal is in the middle of something. -/
theorem not_idle_of_holds {l : Lc} {g : ℕ} (h : l.holds g = true) : l ≠ .idle := by
  rintro rfl
  cases h

theorem restatus {s t : State P} {e : Event P} (hu : s.UnderWay) (h : raw_step s e = some t)
    (g : ℕ) : Restatus s t g e := by
  cases happens h with
  | @goal_request r _ hfresh =>
      generalize goal_callback s r = t, goal_callback_cases s r = hx
      cases hx with
      | ignored => exact .same rfl
      | rejected _ => exact .same rfl
      | @accepted wave pre cap plan haccepts _ =>
          by_cases hg : g = r.id
          · subst hg
            exact .accepted rfl haccepts hfresh rfl
          · refine .same ?_
            show (Function.update s.goals r.id _ g).map _ = (s.goals g).map _
            rw [Function.update_of_ne hg]
  | @cancel k hidle hor =>
      obtain ⟨st, hst⟩ : ∃ st, s.status k = some st := hor.elim (⟨_, ·⟩) (⟨_, ·⟩)
      by_cases hg : g = k
      · subst hg
        exact .canceling hidle hor (status_set_self hst)
      · exact .same ((status_eq_set hst).trans (if_neg hg))
  | act hx => exact .same (acted_restatus hu (act_cases hx) g)
  | return_request _ =>
      refine .same ?_
      unfold WavemakerNode.return_request
      split
      · rfl
      · rfl
  | ret hx => exact .same (returned_restatus (ret_cases hx) g)
  | worker hx => exact worked_restatus (worker_cases hx) g _
  | transition hlc hx =>
      rcases ran_restatus (transition_cases hlc hx) g with hsame | ⟨hholds, -, -⟩
      · exact .same hsame
      · exact absurd hlc (not_idle_of_holds hholds)
  | tick hlc =>
      rcases ran_restatus (tick_cases s) g with hsame | ⟨hholds, -, -⟩
      · exact .same hsame
      · exact absurd hlc (not_idle_of_holds hholds)
  | lc hx =>
      rcases ran_restatus (lc_cases hx) g with hsame | ⟨hholds, hor, heq⟩
      · exact .same hsame
      · exact .aborted hholds hor heq
  | fault _ _ | report _ | soft_stop | clock | context_shutdown => exact .same rfl

section Restatus

variable {s t : State P} {g : ℕ} {e : Event P}

/-- A goal is never forgotten. -/
theorem Restatus.known (h : Restatus s t g e) (hs : (s.status g).isSome = true) :
    (t.status g).isSome = true := by
  cases h with
  | same heq =>
      rw [heq]
      exact hs
  | accepted _ _ hnone _ =>
      rw [State.status, hnone] at hs
      cases hs
  | canceling _ _ heq | worked _ _ heq _ | aborted _ _ heq =>
      rw [heq]
      rfl

/-- A goal in a terminal state stays there. -/
theorem Restatus.final (h : Restatus s t g e) {st : GoalStatus} (hs : s.status g = some st)
    (hst : st.is_active = false) : t.status g = some st := by
  have ended : ∀ {st' : GoalStatus}, st'.is_active = true → s.status g ≠ some st' := by
    intro st' hactive heq
    rw [hs] at heq
    cases heq
    rw [hst] at hactive
    cases hactive
  cases h with
  | same heq => rw [heq, hs]
  | accepted _ _ hnone _ =>
      rw [State.status, hnone] at hs
      cases hs
  | canceling _ hor _ =>
      rcases hor with heq | heq
      · exact absurd heq (ended rfl)
      · exact absurd heq (ended rfl)
  | worked _ hopen _ _ =>
      obtain ⟨st', heq, hactive⟩ := State.open_iff.mp hopen
      exact absurd heq (ended hactive)
  | aborted _ hor _ =>
      rcases hor with heq | heq
      · exact absurd heq (ended rfl)
      · exact absurd heq (ended rfl)

/-- An accepted goal was accepted before, or it is new. -/
theorem Restatus.was_accepted (h : Restatus s t g e) (ht : t.status g = some .accepted) :
    s.status g = some .accepted ∨ t.act = .handle g := by
  cases h with
  | same heq => exact .inl (heq.symm.trans ht)
  | accepted _ _ _ hact => exact .inr hact
  | canceling _ _ heq =>
      rw [heq] at ht
      cases ht
  | worked _ _ heq hne =>
      rw [heq] at ht
      exact absurd (Option.some.inj ht) hne
  | aborted _ _ heq =>
      rw [heq] at ht
      cases ht

end Restatus

/-! ## Handles -/

/-- What a step does to `goal_handle_` and to the program point of the action
group. -/
inductive Rehandled (s t : State P) : Prop where
  | kept : t.act = s.act → t.goal_handle_ = s.goal_handle_ ∨ t.goal_handle_ = none → Rehandled s t
  | fresh (g : ℕ) : s.act = .idle → s.goals g = none → t.act = .handle g → t.goal_handle_ = s.goal_handle_ →
      Rehandled s t
  | acted : Acted s t → Rehandled s t

theorem release_rehandled (s : State P) (g : ℕ) :
    (s.release_handle g).act = s.act ∧ ((s.release_handle g).goal_handle_ = s.goal_handle_ ∨
      (s.release_handle g).goal_handle_ = none) := by
  rcases release_handle_cases s g with ⟨-, heq⟩ | ⟨-, heq⟩
  · rw [heq]
    exact ⟨rfl, .inr rfl⟩
  · rw [heq]
    exact ⟨rfl, .inl rfl⟩

theorem worked_rehandled {s t : State P} (h : Worked s t) : Rehandled s t := by
  cases h with
  | @releases g e _ =>
      obtain ⟨hact, hhd⟩ := release_rehandled s g
      exact .kept hact hhd
  | @rejects g message _ =>
      obtain ⟨hact, hhd⟩ := release_rehandled { s with accepting_goals_ := false } g
      exact .kept hact hhd
  | @retires g _ =>
      obtain ⟨hact, hhd⟩ := release_rehandled s g
      exact .kept hact hhd
  | @aborts g pc m _ _ _ =>
      rcases s.abort_goal_cases g m with ⟨st, -, -, heq⟩ | ⟨heq, -⟩
      · rw [heq]
        exact .kept rfl (.inl rfl)
      · rw [heq]
        exact .kept rfl (.inl rfl)
  | _ => exact .kept rfl (.inl rfl)

theorem ran_rehandled {s t : State P} (h : Ran s t) : Rehandled s t := by
  cases h with
  | quiet hs => exact .kept hs.act (.inl hs.handle)
  | configure _ _ hs => exact .kept hs.act (.inl hs.handle)
  | refuse hs => exact .kept hs.act (.inl hs.handle)
  | take _ hs => exact .kept hs.act (.inr hs.handle)
  | @abort g _ hs =>
      obtain ⟨goals, heq⟩ := abort_goal?_eq s g
      rw [heq] at hs
      exact .kept hs.act (.inl hs.handle)
  | join _ hs => exact .kept hs.act (.inl hs.handle)
  | accept _ hs => exact .kept hs.act (.inl hs.handle)

theorem rehandled {s t : State P} {e : Event P} (h : Stepped s e t) : Rehandled s t := by
  cases h with
  | request hidle hfresh hx =>
      cases hx with
      | ignored => exact .kept rfl (.inl rfl)
      | rejected _ => exact .kept rfl (.inl rfl)
      | accepted _ _ => exact .fresh _ hidle hfresh rfl rfl
  | cancel _ _ => exact .kept rfl (.inl rfl)
  | act hx => exact .acted hx
  | claim _ _ => exact .kept rfl (.inl rfl)
  | turn_away _ _ => exact .kept rfl (.inl rfl)
  | ret hx =>
      cases hx with
      | starts _ hs => cases hs <;> exact .kept rfl (.inl rfl)
      | _ => exact .kept rfl (.inl rfl)
  | worker hx => exact worked_rehandled hx
  | lc hx _ => exact ran_rehandled hx
  | quiet hs => exact .kept hs.act (.inl hs.handle)

section Rehandled

variable {s t : State P} {g : ℕ}

/-- `goal_handle_` is set by `handle_accepted_callback` only. -/
theorem Rehandled.handle (h : Rehandled s t) (hg : t.goal_handle_ = some g) :
    s.goal_handle_ = some g ∨ s.act = .handle g ∧ t.act = .start g .lock := by
  cases h with
  | kept _ hhd =>
      rcases hhd with hhd | hhd
      · exact .inl (hhd.symm.trans hg)
      · rw [hhd] at hg
        cases hg
  | fresh k _ _ _ hhd => exact .inl (hhd.symm.trans hg)
  | acted hx =>
      cases hx with
      | @accept k hp _ =>
          cases hg
          exact .inr ⟨hp, rfl⟩
      | @give_up k _ =>
          have hg : (if s.goal_handle_ = some k then none else s.goal_handle_) = some g := hg
          split at hg
          · cases hg
          · exact .inl hg
      | @abort k m _ _ =>
          rcases s.abort_goal_cases k m with ⟨st, -, -, heq⟩ | ⟨heq, -⟩
          · rw [heq] at hg
            exact .inl hg
          · rw [heq] at hg
            exact .inl hg
      | starts _ hs => cases hs <;> exact .inl hg
      | _ => exact .inl hg

theorem Rehandled.handles (h : Rehandled s t) (hg : t.act = .handle g) :
    s.act = .handle g ∨ s.goals g = none := by
  cases h with
  | kept hact _ => exact .inl (hact.symm.trans hg)
  | fresh k _ hnone hact _ =>
      rw [hact] at hg
      cases hg
      exact .inr hnone
  | acted hx => cases hx <;> cases hg

theorem Rehandled.aborts (h : Rehandled s t) (hg : t.act = .abort g) :
    s.act = .abort g ∨ s.act = .handle g ∨ t.goal_handle_ ≠ some g := by
  cases h with
  | kept hact _ => exact .inl (hact.symm.trans hg)
  | fresh k _ _ hact _ =>
      rw [hact] at hg
      cases hg
  | acted hx =>
      cases hx with
      | decline hp _ =>
          cases hg
          exact .inr (.inl hp)
      | @give_up k hp =>
          cases hg
          refine .inr (.inr ?_)
          show (if s.goal_handle_ = some g then none else s.goal_handle_) ≠ some g
          split
          · nofun
          · rename_i hne
            exact hne
      | _ => cases hg

end Rehandled

/-! ## The lifecycle thread's goal -/

/-- The lifecycle thread gets a goal by taking it out of `goal_handle_`. -/
structure Takes (s t : State P) (g : ℕ) : Prop where
  handle : s.goal_handle_ = some g
  taken : t.goal_handle_ = none
  act : t.act = s.act

theorem stop_holds {s t : State P} {why : Why} {p : Stop} {g : ℕ} (h : stop_step s why p = some t)
    (hg : t.lc.holds g = true) : Takes s t g := by
  cases p with
  | release =>
      cases h
      exact ⟨beq_iff_eq.mp hg, rfl, rfl⟩
  | lock =>
      simp only [stop_step] at h
      split at h
      · cases h
      · cases h
        cases hg
  | join | actuator =>
      obtain ⟨u, -, rfl⟩ := Option.map_eq_some_iff.mp h
      cases hg
  | accepting | abort k | store | unlock | bond =>
      cases h
      cases hg

theorem lc_holds {s t : State P} {i : LcInput} {g : ℕ} (h : lc_step s i = some t)
    (hg : t.lc.holds g = true) : Takes s t g := by
  unfold lc_step at h
  cases hlc : s.lc <;> simp only [hlc] at h
  case idle => cases h
  case stop why p => exact stop_holds h hg
  case tick_release =>
    cases h
    exact ⟨beq_iff_eq.mp hg, rfl, rfl⟩
  case factory =>
    split at h
    all_goals cases h
    all_goals cases hg
  case start =>
    split at h
    · cases h
      cases hg
    · obtain ⟨u, -, rfl⟩ := Option.map_eq_some_iff.mp h
      cases hg
    · cases h
  case bond =>
    split at h
    · rename_i ok
      cases h
      cases ok
      · cases hg
      · cases hg
    · cases h
  case bond_failed =>
    obtain ⟨u, -, rfl⟩ := Option.map_eq_some_iff.mp h
    cases hg
  case tick_state =>
    cases h
    by_cases hp : s.primary = .active
    · rw [if_pos hp] at hg
      cases hg
    · rw [if_neg hp] at hg
      cases hg
  case after why =>
    cases h
    cases why with
    | deactivate tick =>
        simp only [after_stop] at hg
        split at hg
        · cases hg
        · cases hg
    | _ => cases hg
  all_goals
    cases h
    cases hg

theorem acted_lc {s t : State P} (h : Acted s t) : t.lc = s.lc := by
  cases h with
  | @abort g m _ _ =>
      rcases s.abort_goal_cases g m with ⟨st, -, -, heq⟩ | ⟨heq, -⟩
      · rw [heq]
        rfl
      · rw [heq]
  | starts _ hs => cases hs <;> rfl
  | _ => rfl

theorem returned_lc {s t : State P} (h : Returned s t) : t.lc = s.lc := by
  cases h with
  | starts _ hs => cases hs <;> rfl
  | _ => rfl

theorem holds_after {s t : State P} {e : Event P} {g : ℕ} (h : raw_step s e = some t)
    (hg : t.lc.holds g = true) : s.lc.holds g = true ∨ Takes s t g := by
  cases happens h with
  | @goal_request r _ _ =>
      generalize goal_callback s r = t, goal_callback_cases s r = hx at hg
      cases hx <;> exact .inl hg
  | act hx =>
      rw [acted_lc (act_cases hx)] at hg
      exact .inl hg
  | return_request _ =>
      unfold WavemakerNode.return_request at hg
      split at hg
      · exact .inl hg
      · exact .inl hg
  | ret hx =>
      rw [returned_lc (ret_cases hx)] at hg
      exact .inl hg
  | worker hx =>
      have hframe := (worker_cases hx).frame.2
      simp only [Prod.mk.injEq] at hframe
      rw [hframe.2.2.1] at hg
      exact .inl hg
  | @transition tr _ _ hx =>
      -- a transition begins without a goal in its hands
      cases tr with
      | configure cfg =>
          simp only [begin_transition] at hx
          split at hx
          · cases hx
            by_cases hv : P.valid cfg = true
            · simp only [hv, if_true] at hg
              cases hg
            · simp only [hv] at hg
              cases hg
          · cases hx
      | activate | deactivate | cleanup | shutdown =>
          simp only [begin_transition] at hx
          split at hx
          all_goals cases hx
          cases hg
  | tick _ =>
      unfold begin_tick at hg
      split at hg
      · cases hg
      · exact .inl hg
  | lc hx => exact .inr (lc_holds hx hg)
  | cancel _ _ | fault _ _ | report _ | soft_stop | clock | context_shutdown => exact .inl hg

/-! ## The invariant -/

structure Owners (s : State P) : Prop where
  handle_known : ∀ g, s.goal_handle_ = some g → (s.status g).isSome = true
  lc_known : ∀ g, s.lc.holds g = true → (s.status g).isSome = true
  handle : ∀ g, s.goal_handle_ = some g → s.act ≠ .handle g ∧ s.act ≠ .abort g
  taken : ∀ g, s.lc.holds g = true → s.goal_handle_ ≠ some g ∧ s.act ≠ .handle g

theorem raw_step_owners {s t : State P} {e : Event P} (hu : s.UnderWay) (h : Owners s)
    (hx : raw_step s e = some t) : Owners t := by
  have hre := restatus hu hx
  have hact := rehandled (raw_step_cases hx)
  -- a goal that is known is not a new one
  have not_new : ∀ g, (s.status g).isSome = true → s.goals g ≠ none := by
    intro g hg hnone
    rw [State.status, hnone] at hg
    cases hg
  refine ⟨fun g hg => ?_, fun g hg => ?_, fun g hg => ?_, fun g hg => ?_⟩
  · rcases hact.handle hg with hg | ⟨hg, -⟩
    · exact (hre g).known (h.handle_known g hg)
    · refine (hre g).known ?_
      rw [hu.waiting g (by rw [hg]; rfl)]
      rfl
  · rcases holds_after hx hg with hg | htake
    · exact (hre g).known (h.lc_known g hg)
    · exact (hre g).known (h.handle_known g htake.handle)
  · rcases hact.handle hg with hs | ⟨-, hstart⟩
    · refine ⟨fun hp => ?_, fun hp => ?_⟩
      · rcases hact.handles hp with hp | hp
        · exact (h.handle g hs).1 hp
        · exact not_new g (h.handle_known g hs) hp
      · rcases hact.aborts hp with hp | hp | hp
        · exact (h.handle g hs).2 hp
        · exact (h.handle g hs).1 hp
        · exact hp hg
    · rw [hstart]
      exact ⟨by rintro ⟨⟩, by rintro ⟨⟩⟩
  · rcases holds_after hx hg with hg | htake
    · obtain ⟨hfree, hpast⟩ := h.taken g hg
      refine ⟨fun hhd => ?_, fun hp => ?_⟩
      · rcases hact.handle hhd with hs | ⟨hs, -⟩
        · exact hfree hs
        · exact hpast hs
      · rcases hact.handles hp with hp | hp
        · exact hpast hp
        · exact not_new g (h.lc_known g hg) hp
    · refine ⟨?_, ?_⟩
      · rw [htake.taken]
        rintro ⟨⟩
      · rw [htake.act]
        exact (h.handle g htake.handle).1

/-- An accepted goal that is named, or whose callback has just started its
worker, has somebody who will call it. -/
structure Accounted (s : State P) : Prop where
  named : ∀ g, s.goal_handle_ = some g → s.status g = some .accepted →
    s.act.waiting = some g ∨ s.worker = some (.goal g .execute)
  started : ∀ g, s.act = .start g (.unlock true) → s.status g = some .accepted →
    s.worker = some (.goal g .execute)

/-- A worker stands in front of `execute()` as long as its goal is accepted. -/
theorem execute_stays {s t : State P} {e : Event P} {g : ℕ} (hj : Joined s)
    (hx : raw_step s e = some t) (hw : s.worker = some (.goal g .execute))
    (hs : s.status g = some .accepted) (ht : t.status g = some .accepted) :
    t.worker = some (.goal g .execute) := by
  by_cases he : ∃ i, e = .worker i
  · obtain ⟨i, rfl⟩ := he
    have hstep : goal_step s g i .execute = some t := by
      simpa only [raw_step, worker_step, hw] using hx
    have hcall : s.goal_call g .execute "" = some (s.set_status g .executing "") := by
      rw [State.goal_call, hs]
      rfl
    simp only [goal_step, hcall] at hstep
    cases hstep
    have hset : (s.set_status g .executing "").status g = some .accepted := ht
    rw [status_set_self hs] at hset
    cases hset
  · have he : ∀ i, e ≠ .worker i := fun i hi => he ⟨i, hi⟩
    exact (other_handled hj (raw_step_cases hx) he).running hw (by rintro ⟨⟩)

/-- A request that waits goes on waiting, hands its goal to a worker, or lets it
go. -/
theorem waiting_after {s t : State P} {g : ℕ} (h : Rehandled s t) (hg : s.act.waiting = some g) :
    t.act.waiting = some g ∨ t.worker = some (.goal g .execute) ∨ s.act = .abort g := by
  cases h with
  | kept hact _ =>
      rw [hact]
      exact .inl hg
  | fresh k hidle _ _ _ =>
      rw [hidle] at hg
      cases hg
  | acted hx =>
      cases hx with
      | accept hp _ | decline hp _ | refused hp | give_up hp =>
          rw [hp] at hg
          exact .inl hg
      | started hp =>
          rw [hp] at hg
          cases hg
      | abort hp _ =>
          rw [hp] at hg ⊢
          cases hg
          exact .inr (.inr rfl)
      | starts hp hs =>
          rw [hp] at hg
          cases hs with
          | spawn =>
              cases hg
              exact .inr (.inl rfl)
          | _ =>
              cases hg
              exact .inl rfl

theorem raw_step_accounted {s t : State P} {e : Event P} (hu : s.UnderWay) (hj : Joined s)
    (ho : Owners s) (h : Accounted s) (hx : raw_step s e = some t) : Accounted t := by
  have hact := rehandled (raw_step_cases hx)
  refine ⟨fun g hg hst => ?_, fun g hg hst => ?_⟩
  · rcases (restatus hu hx g).was_accepted hst with hs | hnew
    · rcases hact.handle hg with hhd | ⟨-, hstart⟩
      · rcases h.named g hhd hs with hwait | hw
        · rcases waiting_after hact hwait with hwait | hw | habort
          · exact .inl hwait
          · exact .inr hw
          · exact absurd habort (ho.handle g hhd).2
        · exact .inr (execute_stays hj hx hw hs hst)
      · rw [hstart]
        exact .inl rfl
    · rw [hnew]
      exact .inl rfl
  · rcases (restatus hu hx g).was_accepted hst with hs | hnew
    · cases hact with
      | kept heq _ => exact execute_stays hj hx (h.started g (heq.symm.trans hg) hs) hs hst
      | fresh k _ _ heq _ =>
          rw [heq] at hg
          cases hg
      | acted ha =>
          cases ha with
          | starts hp hs' =>
              cases hs' with
              | spawn =>
                  cases hg
                  rfl
              | _ => cases hg
          | _ => cases hg
    · rw [hnew] at hg
      cases hg

/-! ## Dropped handles -/

theorem status_reap {s : State P} {g : ℕ} (h : s.referenced g = true) :
    (reap s).status g = s.status g := by
  rw [State.status, goals_reap h]
  rfl

theorem status_isSome_reap {s : State P} {g : ℕ} (h : (s.status g).isSome = true) :
    ((reap s).status g).isSome = true := by
  rw [State.status, Option.isSome_map] at h
  simpa only [State.status, reap, Option.isSome_map] using h

/-- What is accepted afterwards was accepted before and is referenced. -/
theorem accepted_reap {s : State P} {g : ℕ} (h : (reap s).status g = some .accepted) :
    s.status g = some .accepted ∧ s.referenced g = true := by
  have href := (open_reap (open_of_status h rfl)).2
  rw [status_reap href] at h
  exact ⟨h, href⟩

theorem Owners.reap {s : State P} (h : Owners s) : Owners (reap s) :=
  ⟨fun g hg => status_isSome_reap (h.handle_known g hg),
    fun g hg => status_isSome_reap (h.lc_known g hg), h.handle, h.taken⟩

theorem Accounted.reap {s : State P} (h : Accounted s) : Accounted (reap s) :=
  ⟨fun g hg hst => h.named g hg (accepted_reap hst).1,
    fun g hg hst => h.started g hg (accepted_reap hst).1⟩

/-- An accepted goal is still being handled, its worker is about to call
`execute()`, or the lifecycle thread has it. -/
def Answered (s : State P) : Prop :=
  ∀ g, s.status g = some .accepted → s.act.waiting = some g ∨
    s.worker = some (.goal g .execute) ∨ s.lc.holds g = true

theorem reap_answered {s : State P} (hu : s.UnderWay) (h : Accounted s) : Answered (reap s) := by
  intro g hst
  obtain ⟨hst, href⟩ := accepted_reap hst
  simp only [State.referenced, Bool.or_eq_true, beq_iff_eq] at href
  rcases href with ((hhd | hact) | hw) | hlc
  · rcases h.named g hhd hst with hwait | hw
    · exact .inl hwait
    · exact .inr (.inl hw)
  · rcases waiting_of_holds hact with hwait | hstart
    · exact .inl hwait
    · exact .inr (.inl (h.started g hstart hst))
  · obtain ⟨pc, hw⟩ := worker_of_holds hw
    by_cases hpc : pc = .execute
    · subst hpc
      exact .inr (.inl hw)
    · exact absurd hst (hu.executed g pc hw hpc)
  · exact .inr (.inr hlc)

/-! ## Every run -/

/-- The invariants of the node that no order of steps breaks. -/
structure Sound (s : State P) : Prop where
  ladder : Ladder s
  underWay : s.UnderWay
  joined : Joined s
  owners : Owners s
  accounted : Accounted s
  answered : Answered s

theorem step_sound {s t : State P} {e : Event P} (h : Sound s) (hs : step s e = some t) :
    Sound t := by
  obtain ⟨u, hx, rfl⟩ := step_eq_some hs
  have hacc := raw_step_accounted h.underWay h.joined h.owners h.accounted hx
  have hu := raw_step_underWay h.underWay (raw_step_cases hx)
  exact ⟨step_ladder h.ladder hs, UnderWay.reap hu, step_joined h.ladder h.joined hs,
    (raw_step_owners h.underWay h.owners hx).reap, hacc.reap, reap_answered hu hacc⟩

theorem init_sound {s : State P} (h : Init s) : Sound s := by
  refine ⟨init_ladder h, init_underWay h, init_joined h, ?_, ?_, ?_⟩
  all_goals
    obtain ⟨-, -, -, hhd, -, -, -, -, -, -, -, -, -, -, -, hgoals, -, -, hact, -, -, hlc, -, -, -⟩ := h
  · refine ⟨?_, ?_, ?_, ?_⟩
    · rw [hhd]
      nofun
    · rw [hlc]
      nofun
    · rw [hhd]
      nofun
    · rw [hlc]
      nofun
  · refine ⟨?_, ?_⟩
    · rw [hhd]
      nofun
    · rw [hact]
      nofun
  · intro g hst
    rw [State.status, hgoals g] at hst
    cases hst

theorem reach_sound {C : State P → Event P → Prop} {s : State P} (h : Reach step C Init s) :
    Sound s :=
  h.invariant (fun _ hs => init_sound hs) fun _ _ _ hs _ hstep => step_sound hs hstep

end WavemakerNode
