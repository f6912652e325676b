/-
An engaged soft stop lets at most one more setpoint out.

`soft_stop_active()` is read in four places: by the two requests, which it turns
away, and by the two control loops, between the head of the loop and the next
setpoint. A worker is `armed` when it has read it and not written yet. While the
soft stop stays active nobody becomes armed, also not a worker that is spawned
for a request from before, and a write disarms; so the writes still to come are
counted by `armed`, and they are at most one.

The history beside the state counts from the start of a stretch of a run in
which the soft stop is active all along.
-/
import Wavemakers.NodeGoals
import Wavemakers.WorkerSteps

set_option autoImplicit false

namespace WavemakerNode.SoftStop

open Interleave

variable {P : Plant}

/-! ## The history of a stretch -/

structure History where
  /-- calls of `write_setpoint` -/
  writes : ℕ
  /-- of the worker there is at the start: its steps, its call of `halt`, its end -/
  steps : ℕ
  halted : Bool
  ended : Bool

def History.start : History := ⟨0, 0, false, false⟩

def record (h : History) (s : State P) : Event P → History
  | .worker i =>
      { writes := if writes_setpoint s (.worker i) then h.writes + 1 else h.writes
        steps := if h.ended then h.steps else h.steps + 1
        halted := h.halted || (!h.ended && calls_halt s.worker)
        ended := h.ended || (worker_step s i).any (·.worker == some .finished) }
  | _ => h

/-- The soft stop is active before the step. -/
def Engaged (x : State P × History) (_ : Event P) : Prop := x.1.soft_stop_active = true

instance (x : State P × History) (e : Event P) : Decidable (Engaged x e) :=
  inferInstanceAs (Decidable (_ = _))

/-! ## At most one write -/

/-- Behind the check of the soft stop and in front of the write. -/
def armed : Option Worker → Bool
  | some (.goal _ .sample) | some (.goal _ (.write _ _ _))
  | some (.return_to_upright _ .faulted) | some (.return_to_upright _ .write) => true
  | _ => false

/-- The writes a worker may still make while the soft stop stays active. -/
def budget (w : Option Worker) : ℕ := (armed w).toNat

theorem goal_spends {s : State P} {g : ℕ} {i : WorkerInput} {pc : GoalPc} {n : Option GoalPc}
    (hactive : s.soft_stop_active = true) (h : Goes s g i pc n) :
    (if pc matches .write _ _ _ then 1 else 0) + budget (behind g n) ≤
      budget (some (.goal g pc)) := by
  cases h with
  | released hoff =>
      rw [hactive] at hoff
      cases hoff
  | @raises what pc hcalls =>
      cases pc with
      | write x v complete => exact le_rfl
      | halt e => exact le_rfl
      | _ => first
          | exact le_rfl
          | cases hcalls
  | _ => simp [budget, armed, behind]

theorem return_spends {s : State P} (id : ℕ) {pc : ReturnPc} {n : Option ReturnPc}
    (hactive : s.soft_stop_active = true) (h : ReturnGoes s pc n) :
    (if pc matches .write then 1 else 0) + budget (return_behind id n) ≤
      budget (some (.return_to_upright id pc)) := by
  cases h with
  | released hoff =>
      rw [hactive] at hoff
      cases hoff
  | _ => simp [budget, armed, return_behind]

/-- A step of the worker takes a write from the budget. -/
theorem worker_spends {s t : State P} {i : WorkerInput} (hactive : s.soft_stop_active = true)
    (h : worker_step s i = some t) :
    (if writes_setpoint s (.worker i) then 1 else 0) + budget t.worker ≤ budget s.worker := by
  unfold worker_step at h
  split at h
  · rename_i g pc hw
    obtain ⟨n, hgo, ht⟩ := goal_goes h
    have hle := goal_spends hactive hgo
    rw [ht, hw]
    cases pc with
    | write x v complete => simpa [writes_setpoint, hw] using hle
    | _ => simpa [writes_setpoint, hw] using hle
  · rename_i id pc hw
    obtain ⟨n, hgo, ht⟩ := return_goes h
    have hle := return_spends id hactive hgo
    rw [ht, hw]
    cases pc with
    | write => simpa [writes_setpoint, hw] using hle
    | _ => simpa [writes_setpoint, hw] using hle
  · cases h

theorem budget_le_one (w : Option Worker) : budget w ≤ 1 := Bool.toNat_le _

theorem other_spends {s : State P} {w : Option Worker} (h : Handled s w) :
    budget w ≤ budget s.worker := by
  cases h with
  | same hw => rw [hw]
  | joined _ hw =>
      rw [hw]
      exact Nat.zero_le _
  | goal g _ hw =>
      rw [hw]
      exact Nat.zero_le _
  | return_to_upright id _ hw =>
      rw [hw]
      exact Nat.zero_le _

theorem record_eq {h : History} {s : State P} {e : Event P} (he : ∀ i, e ≠ .worker i) :
    record h s e = h := by
  cases e with
  | worker i => exact absurd rfl (he i)
  | _ => rfl

/-- What the start of the stretch allows is not exceeded. -/
theorem step_spends {x y : State P × History} {e : Event P} (hj : Joined x.1)
    (hactive : x.1.soft_stop_active = true) (h : observe step record x e = some y) :
    y.2.writes + budget y.1.worker ≤ x.2.writes + budget x.1.worker := by
  obtain ⟨hs, hy⟩ := observe_eq_some.mp h
  obtain ⟨u, hx, heq⟩ := step_eq_some hs
  have hw : y.1.worker = u.worker := by rw [heq]; rfl
  rw [hw, hy]
  by_cases he : ∃ i, e = .worker i
  · obtain ⟨i, rfl⟩ := he
    have hspend := worker_spends hactive hx
    simp only [record]
    split
    · rename_i hwrite
      rw [if_pos hwrite] at hspend
      omega
    · rename_i hwrite
      rw [if_neg hwrite] at hspend
      omega
  · have he : ∀ i, e ≠ .worker i := fun i hi => he ⟨i, hi⟩
    rw [record_eq he]
    have := other_spends (other_handled hj (raw_step_cases hx) he)
    omega

/-! ## A worker at its check -/

/-- In front of the check of the soft stop, behind the head of the loop. -/
def at_check : Option Worker → Bool
  | some (.goal _ .loop) | some (.goal _ .canceling) | some (.goal _ .soft_stop)
  | some (.return_to_upright _ .loop) | some (.return_to_upright _ .soft_stop) => true
  | _ => false

/-- The steps left to a goal's worker that does not get past its check. The
longest way out is a cancel that the library refuses, with a second halt. -/
def GoalPc.drain : GoalPc → ℕ
  | .loop => 9
  | .canceling => 8
  | .soft_stop => 7
  | .halt .canceled => 6
  | .release .canceled => 5
  | .finish .canceled => 4
  | .halt .soft_stop | .halt .stopped => 4
  | .halt (.failed _) => 3
  | .release _ => 2
  | .finish _ => 1
  | _ => 0

def ReturnPc.drain : ReturnPc → ℕ
  | .loop => 5
  | .soft_stop => 4
  | .halt _ => 3
  | .release _ => 2
  | .respond _ => 1
  | _ => 0

def drain : Option Worker → ℕ
  | some (.goal _ pc) => GoalPc.drain pc
  | some (.return_to_upright _ pc) => ReturnPc.drain pc
  | _ => 0

/-- Behind a call of `halt`, on the way out. -/
def past_halt : Option Worker → Bool
  | some (.goal _ (.release _)) | some (.goal _ (.finish _))
  | some (.return_to_upright _ (.release _)) | some (.return_to_upright _ (.respond _))
  | some .finished => true
  | _ => false

/-- One step on the way out. -/
structure Drains (w w' : Option Worker) : Prop where
  down : drain w' < drain w
  on : 0 < drain w' ∨ w' = some .finished
  halts : past_halt w' = true → past_halt w = true ∨ calls_halt w = true

theorem goal_drains {s : State P} {g : ℕ} {i : WorkerInput} {pc : GoalPc} {n : Option GoalPc}
    (hactive : s.soft_stop_active = true) (hpos : 0 < GoalPc.drain pc) (h : Goes s g i pc n) :
    Drains (some (.goal g pc)) (behind g n) := by
  cases h with
  | released hoff =>
      rw [hactive] at hoff
      cases hoff
  | @raises what pc hcalls =>
      -- of the calls that may raise, only `halt` is on the way out
      cases pc with
      | halt e =>
          cases e with
          | failed what' => cases hcalls
          | _ =>
              exact ⟨by simp [drain, behind, GoalPc.drain],
                .inl (by simp [drain, behind, GoalPc.drain]), nofun⟩
      | write _ _ _ | feedback _ | fail_stop _ | succeed_halt => simp [GoalPc.drain] at hpos
      | _ => cases hcalls
  | @halted e =>
      refine ⟨?_, .inl ?_, fun _ => .inr rfl⟩
      · cases e <;> simp [drain, behind, GoalPc.drain]
      · cases e <;> simp [drain, behind, GoalPc.drain]
  | @gives_up _ e =>
      refine ⟨?_, .inl ?_, fun _ => .inl rfl⟩
      · cases e <;> simp [drain, behind, GoalPc.drain]
      · cases e <;> simp [drain, behind, GoalPc.drain]
  | @aborts _ e hne =>
      refine ⟨?_, .inr rfl, fun _ => .inl rfl⟩
      cases e with
      | canceled => exact absurd rfl hne
      | _ => simp [drain, behind, GoalPc.drain]
  | reports_canceled _ => exact ⟨by simp [drain, behind, GoalPc.drain], .inr rfl, fun _ => .inl rfl⟩
  | halt_raises =>
      exact ⟨by simp [drain, behind, GoalPc.drain], .inl (by simp [drain, behind, GoalPc.drain]),
        fun _ => .inr rfl⟩
  | finish_raises _ | enter _ _ | leave _ | canceled _ | not_canceled _ | soft_stopped _ =>
      exact ⟨by simp [drain, behind, GoalPc.drain], .inl (by simp [drain, behind, GoalPc.drain]), nofun⟩
  | _ => simp [GoalPc.drain] at hpos

theorem return_drains {s : State P} (id : ℕ) {pc : ReturnPc} {n : Option ReturnPc}
    (hactive : s.soft_stop_active = true) (hpos : 0 < ReturnPc.drain pc) (h : ReturnGoes s pc n) :
    Drains (some (.return_to_upright id pc)) (return_behind id n) := by
  cases h with
  | released hoff =>
      rw [hactive] at hoff
      cases hoff
  | enter | leave | soft_stopped _ =>
      exact ⟨by simp [drain, return_behind, ReturnPc.drain],
        .inl (by simp [drain, return_behind, ReturnPc.drain]), nofun⟩
  | halted =>
      exact ⟨by simp [drain, return_behind, ReturnPc.drain],
        .inl (by simp [drain, return_behind, ReturnPc.drain]), fun _ => .inr rfl⟩
  | gives_back =>
      exact ⟨by simp [drain, return_behind, ReturnPc.drain],
        .inl (by simp [drain, return_behind, ReturnPc.drain]), fun _ => .inl rfl⟩
  | replies => exact ⟨by simp [drain, return_behind, ReturnPc.drain], .inr rfl, fun _ => .inl rfl⟩
  | _ => simp [ReturnPc.drain] at hpos

theorem worker_drains {s t : State P} {i : WorkerInput} (hactive : s.soft_stop_active = true)
    (hpos : 0 < drain s.worker) (h : worker_step s i = some t) : Drains s.worker t.worker := by
  unfold worker_step at h
  split at h
  · rename_i g pc hw
    obtain ⟨n, hgo, ht⟩ := goal_goes h
    rw [hw] at hpos ⊢
    rw [ht]
    exact goal_drains hactive hpos hgo
  · rename_i id pc hw
    obtain ⟨n, hgo, ht⟩ := return_goes h
    rw [hw] at hpos ⊢
    rw [ht]
    exact return_drains id hactive hpos hgo
  · cases h

/-- Nobody else touches a worker on its way out. -/
theorem other_drains {s : State P} {w : Option Worker} (hpos : 0 < drain s.worker)
    (h : Handled s w) : w = s.worker := by
  cases h with
  | same hw => exact hw
  | joined hended _ =>
      rcases hended with hw | hw
      · rw [hw] at hpos
        cases hpos
      · rw [hw] at hpos
        cases hpos
  | goal g hw _ =>
      rw [hw] at hpos
      cases hpos
  | return_to_upright id hw _ =>
      rw [hw] at hpos
      cases hpos

/-- The worker of the start of the stretch is on its way out. -/
structure Leaving (w : Option Worker) (h : History) : Prop where
  on : h.ended = false → 0 < drain w ∧ h.steps + drain w ≤ 9 ∧ (past_halt w = true → h.halted = true)
  out : h.ended = true → h.halted = true

theorem Leaving.start {w : Option Worker} (h : at_check w = true) : Leaving w .start := by
  refine ⟨fun _ => ?_, nofun⟩
  unfold at_check at h
  split at h
  all_goals first
    | cases h
      done
    | exact ⟨by simp [drain, GoalPc.drain, ReturnPc.drain],
        by simp [drain, GoalPc.drain, ReturnPc.drain, History.start], nofun⟩

theorem worker_leaves {s t : State P} {h : History} {i : WorkerInput}
    (hactive : s.soft_stop_active = true) (hi : Leaving s.worker h)
    (hx : worker_step s i = some t) : Leaving t.worker (record h s (.worker i)) := by
  by_cases hended : h.ended = true
  · refine ⟨fun hnot => ?_, fun _ => ?_⟩
    · simp only [record, hended, Bool.true_or] at hnot
      cases hnot
    · simp only [record, hi.out hended, Bool.true_or]
  · rw [Bool.not_eq_true] at hended
    obtain ⟨hpos, hsteps, hhalted⟩ := hi.on hended
    obtain ⟨hdown, hon, hhalts⟩ := worker_drains hactive hpos hx
    -- a call of `halt` in this step is recorded with it
    have hpast : past_halt t.worker = true → (h.halted || calls_halt s.worker) = true := by
      intro hp
      rcases hhalts hp with hs | hs
      · rw [hhalted hs, Bool.true_or]
      · rw [hs, Bool.or_true]
    refine ⟨fun hnot => ?_, fun hend => ?_⟩
    · simp only [record, hended, hx, Option.any_some, Bool.false_or, beq_eq_false_iff_ne,
        ne_eq] at hnot
      simp only [record, hended, Bool.not_false, Bool.true_and, if_false, Bool.false_eq_true]
      rcases hon with hon | hon
      · exact ⟨hon, by omega, hpast⟩
      · exact absurd hon hnot
    · simp only [record, hended, hx, Option.any_some, Bool.false_or, beq_iff_eq] at hend
      simp only [record, hended, Bool.not_false, Bool.true_and]
      apply hpast
      rw [hend]
      rfl

theorem step_leaves {x y : State P × History} {e : Event P} (hj : Joined x.1)
    (hactive : x.1.soft_stop_active = true) (hi : Leaving x.1.worker x.2)
    (h : observe step record x e = some y) : Leaving y.1.worker y.2 := by
  obtain ⟨hs, hy⟩ := observe_eq_some.mp h
  obtain ⟨u, hx, heq⟩ := step_eq_some hs
  have hw : y.1.worker = u.worker := by rw [heq]; rfl
  rw [hw, hy]
  by_cases he : ∃ i, e = .worker i
  · obtain ⟨i, rfl⟩ := he
    exact worker_leaves hactive hi hx
  · have he : ∀ i, e ≠ .worker i := fun i hi => he ⟨i, hi⟩
    have hother := other_handled hj (raw_step_cases hx) he
    rw [record_eq he]
    refine ⟨fun hnot => ?_, hi.out⟩
    obtain ⟨hpos, hrest⟩ := hi.on hnot
    rw [other_drains hpos hother]
    exact ⟨hpos, hrest⟩

/-! ## Requests -/

theorem not_admitted {s : State P} (hactive : s.soft_stop_active = true) : admits s = false := by
  simp only [admits, hactive, Bool.not_true, Bool.and_false, Bool.false_and]

theorem goal_turned_away {s t : State P} {r : GoalRequest P} (hactive : s.soft_stop_active = true)
    (h : step s (.goal_request r) = some t) : t.act = .idle ∧ t.goals r.id = none := by
  obtain ⟨u, hu, rfl⟩ := step_eq_some h
  cases happens hu with
  | goal_request hidle hnew =>
      have hsame : goal_callback s r = s := by
        rw [goal_callback, not_admitted hactive]
        rfl
      rw [hsame]
      refine ⟨hidle, ?_⟩
      show (s.goals r.id).map _ = none
      rw [hnew]
      rfl

theorem return_turned_away {s t : State P} {r : ReturnRequest} (hactive : s.soft_stop_active = true)
    (h : step s (.return_request r) = some t) :
    ∃ reply, t.ret = .respond r.id reply ∧ reply.status = .CONTROLLER_INACTIVE := by
  obtain ⟨u, hu, rfl⟩ := step_eq_some h
  cases happens hu with
  | return_request _ =>
      unfold WavemakerNode.return_request return_check
      by_cases hacc : s.accepting_goals_ = false
      · simp only [hacc, if_true]
        exact ⟨_, rfl, rfl⟩
      · simp only [hacc, hactive, if_true]
        exact ⟨_, rfl, rfl⟩

/-! ## The stretch -/

theorem reach_joined {C : State P → Event P → Prop} {s : State P} (h : Reach step C Init s) :
    Ladder s ∧ Joined s := by
  have hinit : ∀ t : State P, Init t → Ladder t ∧ Joined t :=
    fun t ht => ⟨init_ladder ht, init_joined ht⟩
  have hstep : ∀ (t : State P) e u, Ladder t ∧ Joined t → C t e → step t e = some u →
      Ladder u ∧ Joined u := by
    rintro t e u ⟨hl, hj⟩ - hs
    exact ⟨step_ladder hl hs, step_joined hl hj hs⟩
  exact h.invariant hinit hstep

/-- What holds along a stretch that begins in `s`. -/
structure Stretch (s : State P) (x : State P × History) : Prop where
  joined : Ladder x.1 ∧ Joined x.1
  spent : x.2.writes + budget x.1.worker ≤ budget s.worker
  leaving : at_check s.worker = true → Leaving x.1.worker x.2

theorem Stretch.step {s : State P} {x y : State P × History} {e : Event P} (h : Stretch s x)
    (hactive : x.1.soft_stop_active = true) (hs : observe step record x e = some y) :
    Stretch s y := by
  obtain ⟨⟨hl, hj⟩, hspent, hleave⟩ := h
  have hy := (observe_eq_some.mp hs).1
  refine ⟨⟨step_ladder hl hy, step_joined hl hj hy⟩, ?_, fun hc => ?_⟩
  · exact (step_spends hj hactive hs).trans hspent
  · exact step_leaves hj hactive (hleave hc) hs

/-- **An engaged soft stop lets at most one more setpoint out.** Over a stretch of
a run with the soft stop active before every step there is at most one write; no
goal and no return requested in it is taken on; and a worker that stands at its
check when the stretch begins makes none of the writes, ends within nine steps of
its own and has called `halt` by then. -/
theorem engaged_stretch {s : State P} (hs : Reach step Any Init s) {x : State P × History}
    (h : Reach (observe step record) Engaged (fun y => y = (s, History.start)) x) :
    x.2.writes ≤ 1 ∧
    (x.1.soft_stop_active = true →
      (∀ r t, step x.1 (.goal_request r) = some t → t.act = .idle ∧ t.goals r.id = none) ∧
      (∀ r t, step x.1 (.return_request r) = some t →
        ∃ reply, t.ret = .respond r.id reply ∧ reply.status = .CONTROLLER_INACTIVE)) ∧
    (at_check s.worker = true → x.2.writes = 0 ∧ (9 ≤ x.2.steps → x.2.ended = true) ∧
      (x.2.ended = true → x.2.halted = true)) := by
  have hinit : ∀ y : State P × History, y = (s, .start) → Stretch s y := by
    rintro y rfl
    exact ⟨reach_joined hs, by simp [History.start], fun hc => Leaving.start hc⟩
  obtain ⟨-, hspent, hleave⟩ := h.invariant hinit fun y e z hy hactive hz => hy.step hactive hz
  refine ⟨?_, fun hactive => ⟨fun r t ht => goal_turned_away hactive ht,
    fun r t ht => return_turned_away hactive ht⟩, fun hc => ⟨?_, fun hsteps => ?_, ?_⟩⟩
  · have := budget_le_one s.worker
    omega
  · have hnone : budget s.worker = 0 := by
      unfold at_check at hc
      split at hc
      all_goals first
        | rename_i hw; rw [hw]; rfl
        | cases hc
    omega
  · by_contra hnot
    rw [Bool.not_eq_true] at hnot
    obtain ⟨hpos, hle, -⟩ := (hleave hc).on hnot
    omega
  · exact (hleave hc).out

/-- The worker of a goal is back at the head of its loop when the soft stop comes. -/
def engages : List (Event bench) :=
  boot ++ requests 0 1 :: .act :: starts ++ to_sample ++
    [.worker (.elapsed 0), .worker (.wrote true ""), .worker .proceed, .worker .proceed,
      .soft_stop true]

/-- The rest of its worker's run. -/
def runs_out : List (Event bench) := List.replicate 6 (.worker .proceed)

theorem worker_runs_out :
    ∃ (s : State bench) (x : State bench × History), Reach step Any Init s ∧
      Reach (observe step record) Engaged (fun y => y = (s, History.start)) x ∧
      at_check s.worker = true ∧ x.2.ended = true ∧ x.1.status 0 = some .aborted ∧
      x.2.writes = 0 ∧ x.2.halted = true := by
  have heval : ((run step constructed engages).bind fun s =>
      (run (guarded (observe step record) Engaged) (s, History.start) runs_out).map fun x =>
        (at_check s.worker, x.2.ended, x.1.status 0)) = some (true, true, some .aborted) := by
    decide +kernel
  obtain ⟨s, hs, heval⟩ := Option.bind_eq_some_iff.mp heval
  obtain ⟨x, hx, hval⟩ := Option.map_eq_some_iff.mp heval
  simp only [Prod.mk.injEq] at hval
  obtain ⟨hcheck, hended, hst⟩ := hval
  have hreach : Reach step Any Init s := .run (.init constructed_init) hs
  have hstretch : Reach (observe step record) Engaged (fun y => y = (s, History.start)) x :=
    .guarded_run _ (.init rfl) hx
  obtain ⟨-, -, hleft⟩ := engaged_stretch hreach hstretch
  obtain ⟨hwrites, -, hhalts⟩ := hleft hcheck
  exact ⟨s, x, hreach, hstretch, hcheck, hended, hst, hwrites, hhalts hended⟩

end WavemakerNode.SoftStop
