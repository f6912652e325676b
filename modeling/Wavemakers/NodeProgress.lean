/-
Nobody waits for ever: the node has no deadlock.

A worker can be brought to its end from every program point by its own steps
alone, since it takes neither `execution_mutex_` nor waits for anybody; whoever
holds `execution_mutex_` can be brought to its unlock, since the worker it may
have to join can be brought to its end. These are facts about what the node can
do next, so they are stated as runs that exist: `Leads C s Q` is a run from `s`
to a state in which `Q` holds, whose steps all meet `C`.
-/
import Wavemakers.NodeGoals

set_option autoImplicit false

namespace WavemakerNode

open Interleave

variable {P : Plant}

/-- A run from `s`, of steps that meet `C`, to a state in which `Q` holds. -/
def Leads (C : State P → Event P → Prop) (s : State P) (Q : State P → Prop) : Prop :=
  ∃ t, Reach step C (fun x => x = s) t ∧ Q t

section Leads

variable {C : State P → Event P → Prop} {Q R : State P → Prop} {s t : State P} {e : Event P}

theorem Leads.here (h : Q s) : Leads C s Q := ⟨s, .init rfl, h⟩

theorem Leads.trans (h : Leads C s Q) (hQ : ∀ t, Q t → Leads C t R) : Leads C s R := by
  obtain ⟨t, ht, hq⟩ := h
  obtain ⟨u, hu, hr⟩ := hQ t hq
  exact ⟨u, ht.trans hu, hr⟩

theorem Leads.step (hc : C s e) (hs : step s e = some t) (h : Leads C t Q) : Leads C s Q :=
  Leads.trans (Q := fun u => u = t) ⟨t, .step (.init rfl) hc hs, rfl⟩ fun u hu => by
    rw [hu]
    exact h

end Leads

/-! ## The worker -/

/-- The input that takes a goal's worker towards its end. -/
def GoalPc.out : GoalPc → WorkerInput
  | .sample => .elapsed 0
  | .write _ _ _ | .feedback _ | .fail_stop _ | .succeed_halt => .throws none
  | _ => .proceed

/-- The steps it takes at most. -/
def GoalPc.left : GoalPc → ℕ
  | .execute | .sleep => 10
  | .loop => 9
  | .canceling => 8
  | .soft_stop => 7
  | .sample => 5
  | .write _ _ _ | .feedback _ | .fail_stop _ | .succeed => 4
  | .halt .canceled => 6
  | .release .canceled => 5
  | .finish .canceled => 4
  | .halt _ => 3
  | .release _ => 2
  | .finish _ => 1
  | .fail_release _ => 7
  | .fail_reason _ => 6
  | .fail_store _ => 5
  | .fail_abort _ => 1
  | .succeed_halt => 4
  | .succeed_release => 1

def ReturnPc.out : ReturnPc → WorkerInput
  | .begin => .from_position .invalid
  | .faulted => .faulted true
  | .write => .wrote false ""
  | .progress => .progress .reached
  | .respond _ => .fault_reason ""
  | _ => .proceed

def ReturnPc.left : ReturnPc → ℕ
  | .sleep => 7
  | .loop => 6
  | .soft_stop => 5
  | .faulted | .write | .progress => 4
  | .begin | .halt _ => 3
  | .release _ => 2
  | .respond _ => 1

/-- The worker's next step, taken towards its end. -/
theorem goal_out (s : State P) (g : ℕ) (pc : GoalPc) :
    ∃ t, goal_step s g pc.out pc = some t ∧
      (t.worker = some .finished ∨ ∃ pc', t.worker = some (.goal g pc') ∧ pc'.left < pc.left) := by
  have goes : ∀ {t : State P} {pc' : GoalPc}, t.worker = some (.goal g pc') →
      pc'.left < pc.left → t.worker = some .finished ∨
        ∃ pc', t.worker = some (.goal g pc') ∧ pc'.left < pc.left :=
    fun hw hlt => .inr ⟨_, hw, hlt⟩
  cases pc with
  | execute =>
      simp only [goal_step]
      split
      · exact ⟨_, rfl, goes rfl (by simp [GoalPc.left])⟩
      · exact ⟨_, rfl, .inr ⟨_, rfl, by simp [GoalPc.left]⟩⟩
  | loop | canceling | soft_stop =>
      refine ⟨_, rfl, ?_⟩
      split
      · exact goes rfl (by simp [GoalPc.left])
      · exact goes rfl (by simp [GoalPc.left])
  | sample | write x v complete | feedback complete | sleep =>
      exact ⟨_, rfl, goes rfl (by simp [GoalPc.left])⟩
  | halt e =>
      cases e with
      | canceled | soft_stop | stopped => exact ⟨_, rfl, goes rfl (by simp [GoalPc.left])⟩
      | failed what => exact ⟨_, rfl, .inr ⟨_, rfl, Nat.lt_succ_self 2⟩⟩
  | release e =>
      refine ⟨_, rfl, .inr ⟨.finish e, rfl, ?_⟩⟩
      cases e with
      | canceled | soft_stop | stopped => decide
      | failed what => exact Nat.lt_succ_self 1
  | finish e =>
      cases e with
      | canceled =>
          -- refused by the library, the goal leaves through the handler instead
          simp only [goal_step]
          split
          · exact ⟨_, rfl, .inl rfl⟩
          · exact ⟨_, rfl, .inr ⟨_, rfl, by simp [GoalPc.left]⟩⟩
      | soft_stop | stopped | failed what => exact ⟨_, rfl, .inl rfl⟩
  | fail_release message | fail_reason message | fail_store message | fail_stop message
  | succeed_halt =>
      exact ⟨_, rfl, goes rfl (by simp [GoalPc.left])⟩
  | fail_abort message => exact ⟨_, rfl, .inl rfl⟩
  | succeed =>
      simp only [goal_step]
      split
      · exact ⟨_, rfl, goes rfl (by simp [GoalPc.left])⟩
      · exact ⟨_, rfl, .inr ⟨_, rfl, by simp [GoalPc.left]⟩⟩
  | succeed_release => exact ⟨_, rfl, .inl rfl⟩

theorem return_out (s : State P) (id : ℕ) (pc : ReturnPc) :
    ∃ t, return_step s id pc.out pc = some t ∧
      (t.worker = some .finished ∨
        ∃ pc', t.worker = some (.return_to_upright id pc') ∧ pc'.left < pc.left) := by
  cases pc with
  | loop =>
      refine ⟨_, rfl, .inr ⟨_, rfl, ?_⟩⟩
      split
      · simp [ReturnPc.left]
      · simp [ReturnPc.left]
  | soft_stop =>
      refine ⟨_, rfl, .inr ⟨_, rfl, ?_⟩⟩
      split
      · simp [ReturnPc.left]
      · simp [ReturnPc.left]
  | respond status => exact ⟨_, rfl, .inl rfl⟩
  | _ => exact ⟨_, rfl, .inr ⟨_, rfl, by simp [ReturnPc.left]⟩⟩

/-- What a run towards the end of the worker leaves alone. -/
abbrev aside (s : State P) : Act × Ret × Lc := (s.act, s.ret, s.lc)

/-- The condition lets the threads go on. -/
structure Permits (C : State P → Event P → Prop) : Prop where
  goal : ∀ s g pc, s.worker = some (.goal g pc) → C s (.worker pc.out)
  return_to_upright : ∀ s id pc, s.worker = some (.return_to_upright id pc) → C s (.worker pc.out)
  act : ∀ s, C s .act
  ret : ∀ s, C s .ret
  lc : ∀ s, C s (.lc .proceed)

section Progress

variable {C : State P → Event P → Prop}

/-- The worker can be brought to its end. -/
theorem worker_ends (hC : Permits C) (s : State P) : Leads C s fun t => Ended t.worker ∧ aside t = aside s := by
  -- one step, and the rest by induction on the steps left
  have go : ∀ {s t : State P} {i : WorkerInput} {R : State P → Prop}, worker_step s i = some t →
      C s (.worker i) → Leads C (reap t) (fun u => R u ∧ aside u = aside (reap t)) →
      Leads C s fun u => R u ∧ aside u = aside s := by
    intro s t i R hx hc hrest
    have hs : step s (.worker i) = some (reap t) := by
      show Option.map reap (worker_step s i) = _
      rw [hx]
      rfl
    have hframe : aside (reap t) = aside s := by
      obtain ⟨-, hframe⟩ := (worker_cases hx).frame
      simp only [Prod.mk.injEq] at hframe
      show (t.act, t.ret, t.lc) = _
      rw [hframe.1, hframe.2.1, hframe.2.2.1]
    rw [hframe] at hrest
    exact .step hc hs hrest
  have goal : ∀ n s g pc, s.worker = some (.goal g pc) → pc.left ≤ n →
      Leads C s fun t => Ended t.worker ∧ aside t = aside s := by
    intro n
    induction n with
    | zero =>
        intro s g pc _ hle
        exfalso
        cases pc with
        | halt e => cases e <;> simp [GoalPc.left] at hle
        | release e => cases e <;> simp [GoalPc.left] at hle
        | finish e => cases e <;> simp [GoalPc.left] at hle
        | _ => simp [GoalPc.left] at hle
    | succ n ih =>
        intro s g pc hw hle
        obtain ⟨t, ht, hor⟩ := goal_out s g pc
        have hx : worker_step s pc.out = some t := by
          simp only [worker_step, hw]
          exact ht
        refine go hx (hC.goal s g pc hw) ?_
        rcases hor with hfin | ⟨pc', hw', hlt⟩
        · exact .here ⟨.inr hfin, rfl⟩
        · exact ih (reap t) g pc' hw' (by omega)
  have ret : ∀ n s id pc, s.worker = some (.return_to_upright id pc) → pc.left ≤ n →
      Leads C s fun t => Ended t.worker ∧ aside t = aside s := by
    intro n
    induction n with
    | zero =>
        intro s id pc _ hle
        exfalso
        cases pc <;> simp [ReturnPc.left] at hle
    | succ n ih =>
        intro s id pc hw hle
        obtain ⟨t, ht, hor⟩ := return_out s id pc
        have hx : worker_step s pc.out = some t := by
          simp only [worker_step, hw]
          exact ht
        refine go hx (hC.return_to_upright s id pc hw) ?_
        rcases hor with hfin | ⟨pc', hw', hlt⟩
        · exact .here ⟨.inr hfin, rfl⟩
        · exact ih (reap t) id pc' hw' (by omega)
  match hw : s.worker with
  | none => exact .here ⟨.inl hw, rfl⟩
  | some .finished => exact .here ⟨.inr hw, rfl⟩
  | some (.goal g pc) => exact goal _ s g pc hw le_rfl
  | some (.return_to_upright id pc) => exact ret _ s id pc hw le_rfl

/-! ## `execution_mutex_` -/

/-- The steps of `start_execution` that are left. -/
def Start.left : Start → ℕ
  | .lock => 7
  | .store => 6
  | .join => 5
  | .check => 4
  | .clear => 3
  | .spawn => 2
  | .unlock _ => 1

/-- Behind its lock `start_execution` goes on, with the worker it has to join
ended. -/
theorem start_out {s : State P} (work : Worker) {p : Start} (hp : p ≠ .lock)
    (hu : ∀ b, p ≠ .unlock b) (hw : Ended s.worker) :
    ∃ t q, start_step s work p = some (t, q) ∧ q.left < p.left ∧ q ≠ .lock ∧
      (Ended t.worker ∨ q = .unlock true ∧ t.worker = some work) := by
  cases p with
  | lock => exact absurd rfl hp
  | store => exact ⟨_, _, rfl, by decide, by rintro ⟨⟩, .inl hw⟩
  | join =>
      refine ⟨{ s with worker := none }, .check, ?_, by decide, by rintro ⟨⟩, .inl (.inl rfl)⟩
      simp only [start_step, State.join]
      rcases hw with hw | hw
      · rw [hw]
        rfl
      · rw [hw]
        rfl
  | check =>
      refine ⟨_, _, rfl, ?_, ?_, .inl hw⟩
      · split
        · decide
        · exact Nat.lt_of_sub_pos (by decide)
      · split
        · rintro ⟨⟩
        · rintro ⟨⟩
  | clear => exact ⟨_, _, rfl, by decide, by rintro ⟨⟩, .inl hw⟩
  | spawn => exact ⟨_, _, rfl, by simp [Start.left], by rintro ⟨⟩, .inr ⟨rfl, rfl⟩⟩
  | unlock b => exact absurd rfl (hu b)

/-- The action group can be brought to its unlock. -/
theorem act_unlocks (hC : Permits C) {s : State P} {g : ℕ} {p : Start}
    (hact : s.act = .start g p) (hp : p ≠ .lock) (hw : Ended s.worker ∨ ∃ b, p = .unlock b) :
    Leads C s fun t => t.act.locked = false ∧ t.ret = s.ret ∧ t.lc = s.lc := by
  -- on the steps of `start_execution` that are left
  induction hn : p.left using Nat.strong_induction_on generalizing s p with
  | _ n ih =>
      by_cases hu : ∃ b, p = .unlock b
      · obtain ⟨b, rfl⟩ := hu
        have hs : ∃ t, act_step s = some t ∧ t.act.locked = false ∧ t.ret = s.ret ∧ t.lc = s.lc := by
          unfold act_step
          rw [hact]
          cases b with
          | true => exact ⟨_, rfl, rfl, rfl, rfl⟩
          | false => exact ⟨_, rfl, rfl, rfl, rfl⟩
        obtain ⟨t, ht, h1, h2, h3⟩ := hs
        have hs : step s .act = some (reap t) := by
          show Option.map reap (act_step s) = _
          rw [ht]
          rfl
        exact .step (hC.act s) hs (.here ⟨h1, h2, h3⟩)
      · have hne : ∀ b, p ≠ .unlock b := fun b hb => hu ⟨b, hb⟩
        have hw : Ended s.worker := hw.resolve_right hu
        obtain ⟨t, q, hx, hlt, hq, hor⟩ := start_out (.goal g .execute) hp hne hw
        have hact' : act_step s = some { t with act := .start g q } := by
          unfold act_step
          rw [hact]
          cases p with
          | unlock b => exact absurd rfl (hne b)
          | lock => exact absurd rfl hp
          | _ =>
              simp only [hx, Option.map_some]
        have hs : step s .act = some (reap { t with act := .start g q }) := by
          show Option.map reap (act_step s) = _
          rw [hact']
          rfl
        obtain ⟨⟨hlc, -, -, -, -, -, -, hret⟩, -, -, -⟩ := starts_spec (start_cases hx)
        -- a worker that was just spawned has the unlock next
        have hrest := ih q.left (by omega) (s := reap { t with act := .start g q }) rfl hq
          (by
            rcases hor with hor | ⟨rfl, -⟩
            · exact .inl hor
            · exact .inr ⟨true, rfl⟩) rfl
        refine .step (hC.act s) hs ?_
        obtain ⟨u, hu, h1, h2, h3⟩ := hrest
        exact ⟨u, hu, h1, h2.trans hret, h3.trans hlc⟩

/-- So can the lifecycle thread in `stop_execution`. -/
theorem lc_unlocks (hC : Permits C) {s : State P} (hlc : s.lc.locked = true)
    (hw : Ended s.worker) :
    Leads C s fun t => t.lc.locked = false ∧ t.ret = s.ret ∧ t.act = s.act := by
  have go : ∀ {s t : State P}, lc_step s .proceed = some t → step s (.lc .proceed) = some (reap t) := by
    intro s t ht
    show Option.map reap (lc_step s .proceed) = _
    rw [ht]
    rfl
  have unlock : ∀ {s : State P} {why : Why}, s.lc = .stop why .unlock →
      Leads C s fun t => t.lc.locked = false ∧ t.ret = s.ret ∧ t.act = s.act := by
    intro s why hlc
    have ht : lc_step s .proceed = some { s with lc := .stop why .actuator } := by
      simp only [lc_step, hlc, stop_step]
    exact .step (hC.lc s) (go ht) (.here ⟨rfl, rfl, rfl⟩)
  have join : ∀ {s : State P} {why : Why}, s.lc = .stop why .join → Ended s.worker →
      Leads C s fun t => t.lc.locked = false ∧ t.ret = s.ret ∧ t.act = s.act := by
    intro s why hlc hw
    have ht : lc_step s .proceed = some { s with worker := none, lc := .stop why .unlock } := by
      simp only [lc_step, hlc, stop_step, State.join]
      rcases hw with hw | hw
      · rw [hw]
        rfl
      · rw [hw]
        rfl
    exact .step (hC.lc s) (go ht) (unlock rfl)
  -- only these three points of `stop_execution` are inside the mutex
  cases h : s.lc with
  | stop why p =>
      rw [h] at hlc
      cases p with
      | unlock => exact unlock h
      | join => exact join h hw
      | store =>
          have ht : lc_step s .proceed =
              some { s with stop_execution_ := true, lc := .stop why .join } := by
            simp only [lc_step, h, stop_step]
          exact .step (hC.lc s) (go ht) (join rfl hw)
      | _ => cases hlc
  | _ =>
      rw [h] at hlc
      cases hlc

/-- **`execution_mutex_` is given back.** Whoever holds it while the return
service does not can be brought to give it up. -/
theorem mutex_freed (hC : Permits C) {s : State P} (hl : Ladder s) (hret : s.ret.locked = false) :
    Leads C s fun t => t.held = false ∧ t.ret = s.ret := by
  refine (worker_ends hC s).trans fun t ht => ?_
  obtain ⟨hw, haside⟩ := ht
  simp only [aside, Prod.mk.injEq] at haside
  obtain ⟨hact, hr, hlc⟩ := haside
  have held : ∀ u : State P, u.act.locked = false → u.ret = t.ret → u.lc.locked = false →
      u.held = false ∧ u.ret = s.ret := by
    intro u h1 h2 h3
    refine ⟨?_, h2.trans hr⟩
    simp only [State.held, h1, h2, hr, hret, h3, Bool.or_self]
  by_cases ha : t.act.locked = true
  · have hfree : t.lc.locked = false := by
      rw [hlc]
      apply hl.act_lc
      rw [← hact]
      exact ha
    cases h : t.act with
    | start g p =>
        rw [h] at ha
        have hp : p ≠ .lock := by
          rintro rfl
          cases ha
        refine (act_unlocks hC h hp (.inl hw)).trans fun u hu => ?_
        obtain ⟨h1, h2, h3⟩ := hu
        exact .here (held u h1 h2 (by rw [h3]; exact hfree))
    | _ =>
        rw [h] at ha
        cases ha
  · have ha : t.act.locked = false := Bool.eq_false_iff.mpr ha
    by_cases hlock : t.lc.locked = true
    · refine (lc_unlocks hC hlock hw).trans fun u hu => ?_
      obtain ⟨h1, h2, h3⟩ := hu
      exact .here (held u (by rw [h3]; exact ha) h2 h1)
    · exact .here (held t ha rfl (Bool.eq_false_iff.mpr hlock))

end Progress

end WavemakerNode
