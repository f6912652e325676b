/-
A driver fault acts once, on the configuration it belongs to.

The fault callback and a rejected setpoint set `fault_pending_`; a tick of the
fault timer takes it, and in the active state deactivates the node with
`fault_transition_pending_` set, on which `on_deactivate` returns ERROR. The
ghost field `fresh` says that the actuator of the current configuration has
reported a fault no tick has taken.

`fault_pending_` outlives the configuration that set it: nothing but a tick
clears it, and between a deactivation and the next activation there need not be
one. A node that is activated with such a leftover is deactivated again by the
first tick, for a fault its actuator never reported. `StepOk` excludes exactly
that; in every other run `fault_pending_` and `fresh` agree while the node is
active.
-/
import Wavemakers.StopActivity

set_option autoImplicit false

namespace WavemakerNode.DriverFault

open Interleave

variable {P : Plant}

/-! ## The condition -/

/-- The condition on a step: the node is not activated while `fault_pending_` is
left over from an actuator that is gone. -/
def StepOk (s : State P) (e : Event P) : Prop :=
  activates s e = true → s.fault_pending_ = true → s.fresh = true

instance (s : State P) (e : Event P) : Decidable (StepOk s e) :=
  inferInstanceAs (Decidable (_ → _ → _))

/-! ## The invariant -/

/-- Behind `fault_transition_pending_.store(true)`. -/
def ticked : Lc → Bool
  | .stop (.deactivate true) _ | .after (.deactivate true) => true
  | _ => false

structure Inv (s : State P) : Prop where
  pending : s.fresh = true → s.fault_pending_ = true
  current : s.primary = .active → s.fault_pending_ = true → s.fresh = true
  reporter : ∀ n, s.reporter = some n → n = s.epoch
  flag : s.fault_transition_pending_ = ticked s.lc

/-- A step that leaves the faults alone. -/
theorem Inv.keep {s t : State P} (h : Inv s) (hp : t.fault_pending_ = s.fault_pending_)
    (hf : t.fresh = s.fresh) (hr : t.reporter = s.reporter) (he : t.epoch = s.epoch)
    (hprimary : t.primary = .active → s.primary = .active)
    (hflag : t.fault_transition_pending_ = ticked t.lc) : Inv t := by
  refine ⟨?_, ?_, ?_, hflag⟩
  · rw [hp, hf]
    exact h.pending
  · rw [hp, hf]
    exact fun ha => h.current (hprimary ha)
  · rw [hr, he]
    exact h.reporter

/-- No poll thread is left when `on_configure` creates the next actuator. -/
theorem factory_quiet {s : State P} (hl : Ladder s) (hlc : s.lc = .factory) :
    s.primary ≠ .active ∧ s.reporter = none := by
  have hp := hl.entering (by rw [hlc]; rfl)
  have hrank : s.rank = 4 := rank_down hp (by rw [hlc]; rfl)
  refine ⟨hp, ?_⟩
  by_contra hne
  have hpoll := hl.reporter (Option.isSome_iff_ne_none.mpr hne)
  rw [hl.polling (by omega)] at hpoll
  cases hpoll

/-! ## The lifecycle thread -/

theorem transition_inv {s t : State P} {tr : Transition P} (h : Inv s) (hlc : s.lc = .idle)
    (hx : begin_transition s tr = some t) : Inv t := by
  have hflag : s.fault_transition_pending_ = false := by
    rw [h.flag, hlc]
    rfl
  cases tr with
  | configure cfg =>
      simp only [begin_transition] at hx
      split at hx
      · cases hx
        refine h.keep rfl rfl rfl rfl id ?_
        show s.fault_transition_pending_ = ticked (if P.valid cfg then .factory else .idle)
        rw [hflag]
        split
        · rfl
        · rfl
      · cases hx
  | activate | deactivate | cleanup | shutdown =>
      simp only [begin_transition] at hx
      split at hx
      all_goals cases hx
      exact h.keep rfl rfl rfl rfl id hflag

theorem tick_inv {s : State P} (h : Inv s) (hlc : s.lc = .idle) : Inv (begin_tick s) := by
  unfold begin_tick
  split
  · refine ⟨nofun, fun _ => nofun, h.reporter, ?_⟩
    have hflag := h.flag
    rw [hlc] at hflag
    exact hflag
  · exact h

theorem stop_inv {s t : State P} {why : Why} {p : Stop} (h : Inv s) (hlc : s.lc = .stop why p)
    (hx : stop_step s why p = some t) : Inv t := by
  -- whoever called `stop_activity` stays the same
  have hwhy : ∀ {q : Stop}, s.fault_transition_pending_ = ticked (.stop why q) := by
    intro q
    rw [h.flag, hlc]
    cases why with
    | deactivate b => cases b <;> rfl
    | _ => rfl
  have hafter : s.fault_transition_pending_ = ticked (.after why) := by
    rw [h.flag, hlc]
    cases why with
    | deactivate b => cases b <;> rfl
    | _ => rfl
  cases p with
  | accepting =>
      cases hx
      exact h.keep rfl rfl rfl rfl id hwhy
  | release =>
      cases hx
      exact h.keep rfl rfl rfl rfl id hwhy
  | abort g =>
      cases hx
      obtain ⟨goals, heq⟩ := abort_goal?_eq s g
      rw [heq]
      exact h.keep rfl rfl rfl rfl id hwhy
  | lock =>
      simp only [stop_step] at hx
      split at hx
      · cases hx
      · cases hx
        exact h.keep rfl rfl rfl rfl id hwhy
  | store =>
      cases hx
      exact h.keep rfl rfl rfl rfl id hwhy
  | join =>
      obtain ⟨u, hu, rfl⟩ := Option.map_eq_some_iff.mp hx
      obtain ⟨rfl, -⟩ := join_eq_some hu
      exact h.keep rfl rfl rfl rfl id hwhy
  | unlock =>
      cases hx
      exact h.keep rfl rfl rfl rfl id hwhy
  | actuator =>
      obtain ⟨u, hu, rfl⟩ := Option.map_eq_some_iff.mp hx
      obtain ⟨rfl, -⟩ := stop_actuator_eq_some hu
      exact h.keep rfl rfl rfl rfl id hwhy
  | bond =>
      cases hx
      exact h.keep rfl rfl rfl rfl id hafter

theorem lc_inv {s t : State P} {i : LcInput} (hl : Ladder s) (h : Inv s)
    (hok : s.lc = .accept → s.fault_pending_ = true → s.fresh = true)
    (hx : lc_step s i = some t) : Inv t := by
  have hflag := h.flag
  unfold lc_step at hx
  cases hlc : s.lc <;> simp only [hlc] at hx <;> rw [hlc] at hflag
  case idle => cases hx
  case stop why p => exact stop_inv h hlc hx
  case factory =>
    obtain ⟨hp, hrep⟩ := factory_quiet hl hlc
    split at hx
    · cases hx
      -- the new actuator begins a new epoch, and no reporter of the old one is left
      refine ⟨by rintro ⟨⟩, by rintro ⟨⟩, ?_, hflag⟩
      intro n hn
      have hn : s.reporter = some n := hn
      rw [hrep] at hn
      cases hn
    · cases hx
      exact h.keep rfl rfl rfl rfl id hflag
    · cases hx
      exact h.keep rfl rfl rfl rfl id hflag
    · cases hx
  case start =>
    split at hx
    · cases hx
      exact h.keep rfl rfl rfl rfl id hflag
    · obtain ⟨u, hu, rfl⟩ := Option.map_eq_some_iff.mp hx
      obtain ⟨rfl, -⟩ := stop_actuator_eq_some hu
      exact h.keep rfl rfl rfl rfl id hflag
    · cases hx
  case bond =>
    split at hx
    · rename_i ok
      cases hx
      refine h.keep rfl rfl rfl rfl id ?_
      cases ok
      · exact hflag
      · exact hflag
    · cases hx
  case bond_failed =>
    obtain ⟨u, hu, rfl⟩ := Option.map_eq_some_iff.mp hx
    obtain ⟨rfl, -⟩ := stop_actuator_eq_some hu
    exact h.keep rfl rfl rfl rfl id hflag
  case accept =>
    cases hx
    -- a fault still pending when the node becomes active has to be of this epoch
    exact ⟨h.pending, fun _ => hok hlc, h.reporter, hflag⟩
  case tick_state =>
    cases hx
    refine h.keep rfl rfl rfl rfl id ?_
    show s.fault_transition_pending_ = ticked (if s.primary = .active then .tick_release else .idle)
    rw [hflag]
    split
    · rfl
    · rfl
  case tick_abort g =>
    cases hx
    obtain ⟨goals, heq⟩ := abort_goal?_eq s g
    rw [heq]
    exact h.keep rfl rfl rfl rfl id hflag
  case tick_flag =>
    cases hx
    exact h.keep rfl rfl rfl rfl id rfl
  case after why =>
    cases hx
    cases why with
    | deactivate b =>
        simp only [after_stop]
        split
        · exact h.keep rfl rfl rfl rfl (by rintro ⟨⟩) rfl
        · rename_i hfalse
          exact h.keep rfl rfl rfl rfl (by rintro ⟨⟩) (Bool.eq_false_iff.mpr hfalse)
    | _ => exact h.keep rfl rfl rfl rfl (by rintro ⟨⟩) hflag
  all_goals
    cases hx
    exact h.keep rfl rfl rfl rfl id hflag

/-! ## The other threads -/

/-- What the fault handling reads. -/
abbrev seen (s : State P) : Bool × Bool × Option ℕ × ℕ × Primary × Bool × Lc :=
  (s.fault_pending_, s.fresh, s.reporter, s.epoch, s.primary, s.fault_transition_pending_, s.lc)

theorem Inv.unseen {s t : State P} (h : Inv s) (heq : seen t = seen s) : Inv t := by
  simp only [seen, Prod.mk.injEq] at heq
  obtain ⟨h1, h2, h3, h4, h5, h6, h7⟩ := heq
  refine h.keep h1 h2 h3 h4 (by rw [h5]; exact id) ?_
  rw [h6, h7]
  exact h.flag

theorem seen_starts {s t : State P} {work : Worker} {p q : Start} (h : Starts s work p t q) :
    seen t = seen s := by
  cases h <;> rfl

theorem seen_abort (s : State P) (g : ℕ) (m : String) : seen (s.abort_goal g m) = seen s := by
  rcases s.abort_goal_cases g m with ⟨st, -, -, heq⟩ | ⟨heq, -⟩
  · rw [heq]
    rfl
  · rw [heq]

theorem seen_release (s : State P) (g : ℕ) : seen (s.release_handle g) = seen s := by
  rcases release_handle_cases s g with ⟨-, heq⟩ | ⟨-, heq⟩
  · rw [heq]
  · rw [heq]

theorem seen_act {s t : State P} (h : Acted s t) : seen t = seen s := by
  cases h with
  | starts _ hs =>
      have heq := seen_starts hs
      exact heq
  | abort _ _ => exact seen_abort s _ _
  | _ => rfl

theorem seen_ret {s t : State P} (h : Returned s t) : seen t = seen s := by
  cases h with
  | starts _ hs =>
      have heq := seen_starts hs
      exact heq
  | _ => rfl

theorem seen_request {s t : State P} {r : GoalRequest P} (h : Requested s r t) :
    seen t = seen s := by
  cases h <;> rfl

theorem worker_inv {s t : State P} (h : Inv s) (hx : Worked s t) : Inv t := by
  cases hx with
  | store _ => exact ⟨fun _ => rfl, fun _ _ => rfl, h.reporter, h.flag⟩
  | releases _ => exact h.unseen (seen_release s _)
  | rejects _ => exact h.unseen (seen_release _ _)
  | aborts _ _ _ => exact h.unseen (seen_abort s _ _)
  | retires _ => exact h.unseen (seen_release s _)
  | _ => exact h.unseen rfl

/-! ## Every step -/

/-- What a step does to what the fault handling reads. -/
inductive Changed (s : State P) : Event P → State P → Prop where
  | unseen {e : Event P} {t : State P} : seen t = seen s → Changed s e t
  | worker {e : Event P} {t : State P} : Worked s t → Changed s e t
  | transition {tr : Transition P} {t : State P} : s.lc = .idle →
      begin_transition s tr = some t → Changed s (.transition tr) t
  | tick : s.lc = .idle → Changed s .tick (begin_tick s)
  | lc {i : LcInput} {t : State P} : lc_step s i = some t → Changed s (.lc i) t
  | fault {reason : String} :
      Changed s (.fault reason) { report_reason s reason with reporter := some s.epoch }
  | report {n : ℕ} : s.reporter = some n →
      Changed s .report { s with fault_pending_ := true, fresh := s.fresh || n == s.epoch
                                 reporter := none }

theorem raw_step_changed {s t : State P} {e : Event P} (h : raw_step s e = some t) :
    Changed s e t := by
  cases happens h with
  | goal_request _ _ => exact .unseen (seen_request (goal_callback_cases s _))
  | act hx => exact .unseen (seen_act (act_cases hx))
  | return_request _ =>
      unfold WavemakerNode.return_request
      split
      · exact .unseen rfl
      · exact .unseen rfl
  | ret hx => exact .unseen (seen_ret (ret_cases hx))
  | worker hx => exact .worker (worker_cases hx)
  | transition hlc hx => exact .transition hlc hx
  | tick hlc => exact .tick hlc
  | lc hx => exact .lc hx
  | fault _ _ => exact .fault
  | report hrep => exact .report hrep
  | cancel _ _ | soft_stop | clock | context_shutdown => exact .unseen rfl

theorem changed_inv {s t : State P} {e : Event P} (hl : Ladder s) (h : Inv s)
    (hok : StepOk s e) (hx : Changed s e t) : Inv t := by
  cases hx with
  | unseen heq => exact h.unseen heq
  | worker hx => exact worker_inv h hx
  | transition hlc hx => exact transition_inv h hlc hx
  | tick hlc => exact tick_inv h hlc
  | lc hx =>
      refine lc_inv hl h (fun hlc => hok ?_) hx
      simp only [activates, hlc, beq_self_eq_true]
  | fault =>
      refine ⟨h.pending, h.current, ?_, h.flag⟩
      intro n hn
      cases hn
      rfl
  | @report n hrep =>
      refine ⟨fun _ => rfl, fun _ _ => ?_, by rintro _ ⟨⟩, h.flag⟩
      -- the callback belongs to the current actuator
      show (s.fresh || n == s.epoch) = true
      rw [h.reporter n hrep, beq_self_eq_true, Bool.or_true]

theorem init_inv {s : State P} (h : Init s) : Inv s := by
  obtain ⟨-, -, -, -, -, -, -, -, hp, hflag, -, -, -, -, -, -, -, -, -, -, -, hlc, hrep, -, hf⟩ := h
  refine ⟨?_, ?_, ?_, ?_⟩
  · rw [hf]
    nofun
  · rw [hp]
    nofun
  · rw [hrep]
    nofun
  · rw [hflag, hlc]
    rfl

theorem reach_inv {s : State P} (h : Reach step StepOk Init s) : Ladder s ∧ Inv s := by
  have hinit : ∀ s : State P, Init s → Ladder s ∧ Inv s := fun s hs => ⟨init_ladder hs, init_inv hs⟩
  have hstep : ∀ (s : State P) e t, Ladder s ∧ Inv s → StepOk s e → step s e = some t →
      Ladder t ∧ Inv t := by
    rintro s e t ⟨hl, hi⟩ hok hs
    refine ⟨step_ladder hl hs, ?_⟩
    obtain ⟨u, hx, rfl⟩ := step_eq_some hs
    exact (changed_inv hl hi hok (raw_step_changed hx)).unseen rfl
  exact h.invariant hinit hstep

/-! ## Handling a fault -/

/-- A tick has taken up a fault, up to the return of `on_deactivate`. -/
def handles : Lc → Bool
  | .tick_reason | .tick_accepting | .tick_state | .tick_release | .tick_abort _
  | .tick_flag => true
  | l => ticked l

/-- The active node is on its way through `on_deactivate` because of a fault. -/
def Handling (s : State P) : Prop := s.primary = .active ∧ handles s.lc = true

/-- `on_deactivate` returns ERROR in this step. -/
def Errs (s t : State P) : Prop :=
  s.lc = .after (.deactivate true) ∧ t.primary = .unconfigured ∧ t.lc = .stop .error .accepting

theorem stop_handling {s t : State P} {p : Stop} (hp : s.primary = .active)
    (hx : stop_step s (.deactivate true) p = some t) : Handling t := by
  cases p with
  | abort g =>
      cases hx
      obtain ⟨goals, heq⟩ := abort_goal?_eq s g
      rw [heq]
      exact ⟨hp, rfl⟩
  | lock =>
      simp only [stop_step] at hx
      split at hx
      · cases hx
      · cases hx
        exact ⟨hp, rfl⟩
  | join =>
      obtain ⟨u, hu, rfl⟩ := Option.map_eq_some_iff.mp hx
      obtain ⟨rfl, -⟩ := join_eq_some hu
      exact ⟨hp, rfl⟩
  | actuator =>
      obtain ⟨u, hu, rfl⟩ := Option.map_eq_some_iff.mp hx
      obtain ⟨rfl, -⟩ := stop_actuator_eq_some hu
      exact ⟨hp, rfl⟩
  | accepting | release | store | unlock | bond =>
      cases hx
      exact ⟨hp, rfl⟩

theorem lc_handling {s t : State P} {i : LcInput} (hi : Inv s) (h : Handling s)
    (hx : lc_step s i = some t) : Handling t ∨ Errs s t := by
  obtain ⟨hp, hh⟩ := h
  have hflag := hi.flag
  unfold lc_step at hx
  cases hlc : s.lc <;> simp only [hlc] at hx <;> rw [hlc] at hh hflag
  case stop why p =>
    match why, hh with
    | .deactivate true, _ => exact .inl (stop_handling hp hx)
  case after why =>
    match why, hh with
    | .deactivate true, _ =>
        cases hx
        refine .inr ⟨hlc, ?_⟩
        have hflag : s.fault_transition_pending_ = true := hflag
        simp only [after_stop]
        rw [if_pos hflag]
        exact ⟨rfl, rfl⟩
  case tick_state =>
    cases hx
    rw [if_pos hp]
    exact .inl ⟨hp, rfl⟩
  case tick_abort g =>
    cases hx
    obtain ⟨goals, heq⟩ := abort_goal?_eq s g
    rw [heq]
    exact .inl ⟨hp, rfl⟩
  case tick_reason | tick_accepting | tick_release | tick_flag =>
    cases hx
    exact .inl ⟨hp, rfl⟩
  all_goals cases hh

theorem Handling.unseen {s t : State P} (h : Handling s) (heq : seen t = seen s) : Handling t := by
  simp only [seen, Prod.mk.injEq] at heq
  obtain ⟨-, -, -, -, hp, -, hlc⟩ := heq
  unfold Handling
  rw [hp, hlc]
  exact h

theorem worker_handling {s t : State P} (h : Handling s) (hx : Worked s t) : Handling t := by
  obtain ⟨-, hframe⟩ := hx.frame
  simp only [Prod.mk.injEq] at hframe
  unfold Handling
  rw [hframe.2.2.1, hframe.2.2.2.1]
  exact h

/-- Nothing stops a fault from being handled. -/
theorem step_handling {s t : State P} {e : Event P} (hi : Inv s) (h : Handling s)
    (hs : step s e = some t) : Handling t ∨ Errs s t := by
  obtain ⟨u, hx, rfl⟩ := step_eq_some hs
  show Handling u ∨ Errs s u
  have hidle : s.lc ≠ .idle := by
    intro hlc
    have hh := h.2
    rw [hlc] at hh
    cases hh
  cases raw_step_changed hx with
  | unseen heq => exact .inl (h.unseen heq)
  | worker hx => exact .inl (worker_handling h hx)
  | transition hlc _ => exact absurd hlc hidle
  | tick hlc => exact absurd hlc hidle
  | lc hx => exact lc_handling hi h hx
  | fault => exact .inl h
  | report _ => exact .inl h

/-- What a tick does to an active node. -/
theorem tick_takes {s t : State P} (hi : Inv s) (hp : s.primary = .active)
    (hs : step s .tick = some t) : (Handling t ↔ s.fresh = true) ∧ t.fresh = false := by
  obtain ⟨u, hx, rfl⟩ := step_eq_some hs
  show (Handling u ↔ s.fresh = true) ∧ u.fresh = false
  cases happens hx with
  | tick hlc =>
      unfold begin_tick
      by_cases hpending : s.fault_pending_ = true
      · rw [if_pos hpending]
        exact ⟨⟨fun _ => hi.current hp hpending, fun _ => ⟨hp, rfl⟩⟩, rfl⟩
      · rw [if_neg hpending]
        -- nothing pending is nothing fresh, and an idle node handles nothing
        have hfresh : s.fresh = false := Bool.eq_false_iff.mpr fun hf => hpending (hi.pending hf)
        refine ⟨⟨fun hh => ?_, fun hf => ?_⟩, hfresh⟩
        · have hh := hh.2
          rw [hlc] at hh
          cases hh
        · rw [hfresh] at hf
          cases hf

/-- **A driver fault acts once, on the configuration it belongs to.** A tick
starts to deactivate an active node exactly when the actuator of the current
configuration has reported a fault that no tick has taken, and takes it; from
there the node goes to the return of `on_deactivate`, which is ERROR, whatever
the other threads do; and the return of a deactivation somebody asked for is
not. -/
theorem fault_acts_once {s : State P} (h : Reach step StepOk Init s) :
    (s.primary = .active → ∀ t, step s .tick = some t →
      (Handling t ↔ s.fresh = true) ∧ t.fresh = false) ∧
    (Handling s → ∀ e t, step s e = some t → Handling t ∨ Errs s t) ∧
    ∀ tick, s.lc = .after (.deactivate tick) → s.fault_transition_pending_ = tick := by
  obtain ⟨-, hi⟩ := reach_inv h
  refine ⟨fun hp t hs => tick_takes hi hp hs, fun hh e t hs => step_handling hi hh hs, ?_⟩
  intro tick hlc
  rw [hi.flag, hlc]
  cases tick
  · rfl
  · rfl

/-! ## A leftover -/

/-- A fault reported while the node is active, and the tick behind it. -/
theorem fault_while_active :
    ∃ s t : State bench, Reach step StepOk Init s ∧ s.primary = .active ∧ s.fresh = true ∧
      step s .tick = some t ∧ Handling t := by
  have heval : ((run (guarded step StepOk) constructed (boot ++ [.fault "bus", .report])).bind
      fun s => (step s .tick).map fun t => (s.primary, s.fresh, t.primary, t.lc)) =
      some (.active, true, .active, .tick_reason) := by
    decide +kernel
  obtain ⟨s, hrun, hval⟩ := Option.bind_eq_some_iff.mp heval
  obtain ⟨t, ht, hval⟩ := Option.map_eq_some_iff.mp hval
  simp only [Prod.mk.injEq] at hval
  obtain ⟨hp, hf, -, -⟩ := hval
  have hreach : Reach step StepOk Init s := .guarded_run _ (.init constructed_init) hrun
  exact ⟨s, t, hreach, hp, hf, ht, (((fault_acts_once hreach).1 hp t ht).1).mpr hf⟩

/-- The actuator reports a fault while the node is being deactivated; it is
cleaned up, configured and activated again before the next tick. -/
def faulted_configuration : List (Event bench) :=
  boot ++ [.transition .deactivate, .fault "bus", .report] ++ stops ++ [.lc .proceed] ++
    [.transition .cleanup] ++ stops ++ [.lc .proceed] ++ configures_bench ++ activates_bench

theorem leftover_fault_deactivates :
    ∃ s t : State bench, Reach step Any Init s ∧ s.primary = .active ∧ s.fresh = false ∧
      step s .tick = some t ∧ Handling t := by
  have heval : ((run step constructed faulted_configuration).bind fun s =>
      (step s .tick).map fun t => (s.primary, s.fresh, t.primary, t.lc)) =
      some (.active, false, .active, .tick_reason) := by
    decide +kernel
  obtain ⟨s, hrun, hval⟩ := Option.bind_eq_some_iff.mp heval
  obtain ⟨t, ht, hval⟩ := Option.map_eq_some_iff.mp hval
  simp only [Prod.mk.injEq] at hval
  obtain ⟨hp, hf, hp', hlc⟩ := hval
  refine ⟨s, t, .run (.init constructed_init) hrun, hp, hf, ht, hp', ?_⟩
  rw [hlc]
  rfl

end WavemakerNode.DriverFault
