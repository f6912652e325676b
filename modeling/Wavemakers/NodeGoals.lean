/-
Goals under way: what holds of the goals' states in every run.

A goal that the action group is still handling is accepted and has no worker
yet, because only its own `start_execution` spawns one. From `execute()` on the
worker's goal has left the accepted state, so each call that ends it succeeds or
finds it ended. And between the join and the spawn of `start_execution` there is
no worker, so a spawn never replaces one. None of this depends on the order in
which the other threads run.
-/
import Wavemakers.StopActivity

set_option autoImplicit false

namespace WavemakerNode

open Interleave

variable {P : Plant}

/-- The goal that `handle_accepted_callback` has not handed to a worker. -/
def Act.waiting : Act → Option ℕ
  | .idle | .start _ (.unlock true) => none
  | .handle g | .start g _ | .refused g | .abort g => some g

structure UnderWay (act : Act) (worker : Option Worker) (status : ℕ → Option GoalStatus) :
    Prop where
  known : ∀ g pc, worker = some (.goal g pc) → (status g).isSome = true
  waiting : ∀ g, act.waiting = some g → status g = some .accepted
  distinct : ∀ g, act.waiting = some g → ∀ h pc, worker = some (.goal h pc) → h ≠ g
  executed : ∀ g pc, worker = some (.goal g pc) → pc ≠ .execute → status g ≠ some .accepted

abbrev State.UnderWay (s : State P) : Prop := WavemakerNode.UnderWay s.act s.worker s.status

/-! ## The goals' states -/

theorem status_set_status (s : State P) (g : ℕ) (st : GoalStatus) (m : String) :
    (s.set_status g st m).status =
      fun h => if h = g then (s.status g).map fun _ => st else s.status h := by
  funext h
  by_cases hg : h = g
  · subst hg
    rw [if_pos rfl, State.status_set_status_self]
  · rw [if_neg hg, State.status_set_status_ne hg]

section Change

variable {act : Act} {worker : Option Worker} {status : ℕ → Option GoalStatus}

/-- Another program point of the worker. -/
theorem UnderWay.moves (h : UnderWay act worker status) {g : ℕ} {pc pc' : GoalPc}
    (hw : worker = some (.goal g pc))
    (hst : pc = .execute → status g ≠ some .accepted) :
    UnderWay act (some (.goal g pc')) status := by
  refine ⟨?_, h.waiting, ?_, ?_⟩
  · rintro g' pc'' heq
    cases heq
    exact h.known g pc hw
  · rintro g' hg h' pc'' heq
    cases heq
    exact h.distinct g' hg g pc hw
  · rintro g' pc'' heq -
    cases heq
    by_cases he : pc = .execute
    · exact hst he
    · exact h.executed g pc hw he

/-- The action group goes on with the goal it has, or without one. -/
theorem UnderWay.acts (h : UnderWay act worker status) {act' : Act}
    (hact : ∀ g, act'.waiting = some g → act.waiting = some g) : UnderWay act' worker status :=
  ⟨h.known, fun g hg => h.waiting g (hact g hg), fun g hg => h.distinct g (hact g hg), h.executed⟩

/-- The worker is gone, or it is not a goal's. -/
theorem UnderWay.no_goal (h : UnderWay act worker status) {worker' : Option Worker}
    (hw : ∀ g pc, worker' ≠ some (.goal g pc)) : UnderWay act worker' status :=
  ⟨fun g pc heq => absurd heq (hw g pc), h.waiting, fun _ _ g pc heq => absurd heq (hw g pc),
    fun g pc heq => absurd heq (hw g pc)⟩

/-- A goal that nobody is handling changes its state, and not to accepted. -/
theorem UnderWay.set (h : UnderWay act worker status) {g : ℕ} {st : GoalStatus}
    (hg : act.waiting ≠ some g) (hst : st ≠ .accepted) :
    UnderWay act worker fun k => if k = g then (status g).map fun _ => st else status k := by
  refine ⟨?_, ?_, h.distinct, ?_⟩
  · intro k pc hw
    have hk := h.known k pc hw
    by_cases hkg : k = g
    · subst hkg
      rw [if_pos rfl, Option.isSome_map]
      exact hk
    · rw [if_neg hkg]
      exact hk
  · intro k hk
    by_cases hkg : k = g
    · subst hkg
      exact absurd hk hg
    · rw [if_neg hkg]
      exact h.waiting k hk
  · intro k pc hw hpc
    by_cases hkg : k = g
    · subst hkg
      rw [if_pos rfl]
      cases status k with
      | none => nofun
      | some st' =>
          intro heq
          exact hst (Option.some.inj heq)
    · rw [if_neg hkg]
      exact h.executed k pc hw hpc

end Change

theorem abort_underWay {s : State P} (h : s.UnderWay) (g : ℕ) (m : String)
    (hg : s.act.waiting ≠ some g) : (s.abort_goal g m).UnderWay := by
  rcases s.abort_goal_cases g m with ⟨st, -, -, heq⟩ | ⟨heq, -⟩
  · rw [heq]
    unfold State.UnderWay
    rw [status_set_status]
    exact h.set hg nofun
  · rw [heq]
    exact h

/-- Aborting a goal that is still being handled raises an exception. -/
theorem abort_waiting {s : State P} (h : s.UnderWay) {g : ℕ} {m : String}
    (hg : s.act.waiting = some g) : s.abort_goal g m = s := by
  rcases s.abort_goal_cases g m with ⟨st, hst, hor, -⟩ | ⟨heq, -⟩
  · rw [h.waiting g hg] at hst
    cases hst
    rcases hor with hor | hor
    · cases hor
    · cases hor
  · exact heq

/-! ## One step -/

theorem act_underWay {s t : State P} (h : s.UnderWay) (hx : Acted s t) : t.UnderWay := by
  cases hx with
  | accept hp _ | decline hp _ | refused hp | give_up hp =>
      refine h.acts fun k hk => ?_
      rw [hp]
      exact hk
  | @started g hp => exact h.acts nofun
  | @abort g m hp _ =>
      rw [abort_waiting h (by rw [hp]; rfl)]
      exact h.acts nofun
  | @starts g p q u hp hs =>
      cases hs with
      | join _ =>
          refine UnderWay.no_goal (h.acts fun k hk => ?_) nofun
          rw [hp]
          exact hk
      | spawn =>
          -- the goal passes from the action callback to its worker
          have hst := h.waiting g (by rw [hp]; rfl)
          refine ⟨?_, nofun, nofun, ?_⟩
          · rintro k pc heq
            cases heq
            show (s.status g).isSome = true
            rw [hst]
            rfl
          · rintro k pc heq hpc
            cases heq
            exact absurd rfl hpc
      | lock _ | store | pass _ | refuse _ | clear =>
          refine h.acts fun k hk => ?_
          rw [hp]
          exact hk

theorem ret_underWay {s t : State P} (h : s.UnderWay) (hx : Returned s t) : t.UnderWay := by
  cases hx with
  | @starts id p q u hp hs =>
      cases hs with
      | join _ | spawn => exact UnderWay.no_goal h nofun
      | lock _ | store | pass _ | refuse _ | clear => exact h
  | started _ | refused _ | give_back _ | respond _ => exact h

/-- A goal with a worker is not being handled any more. -/
theorem UnderWay.not_waiting {act : Act} {worker : Option Worker}
    {status : ℕ → Option GoalStatus} (h : UnderWay act worker status) {g : ℕ} {pc : GoalPc}
    (hw : worker = some (.goal g pc)) : act.waiting ≠ some g :=
  fun hg => h.distinct g hg g pc hw rfl

theorem worker_underWay {s t : State P} (h : s.UnderWay) (hx : Worked s t) : t.UnderWay := by
  cases hx with
  | moves hw hm => exact UnderWay.moves h hw hm.executed.2
  | @executes g hw hst =>
      -- from here on the goal's status is the worker's to change
      have hset := h.set (h.not_waiting hw) (GoalStatus.noConfusion : GoalStatus.executing ≠ _)
      show UnderWay s.act (some (.goal g .loop)) (s.set_status g .executing "").status
      rw [status_set_status]
      refine UnderWay.moves hset hw fun _ => ?_
      rw [if_pos rfl, hst]
      nofun
  | @releases g e hw =>
      rcases release_handle_cases s g with ⟨-, heq⟩ | ⟨-, heq⟩
      · rw [heq]
        exact UnderWay.moves h hw nofun
      · rw [heq]
        exact UnderWay.moves h hw nofun
  | @rejects g message hw =>
      rcases release_handle_cases { s with accepting_goals_ := false } g with ⟨-, heq⟩ | ⟨-, heq⟩
      · rw [heq]
        exact UnderWay.moves h hw nofun
      · rw [heq]
        exact UnderWay.moves h hw nofun
  | reason hw | store hw | stop hw _ => exact UnderWay.moves h hw nofun
  | @aborts g pc m hw _ _ =>
      have ha := abort_underWay h g m (h.not_waiting hw)
      rcases s.abort_goal_cases g m with ⟨st, -, -, heq⟩ | ⟨heq, -⟩
      · rw [heq] at ha ⊢
        exact UnderWay.no_goal ha nofun
      · rw [heq]
        exact UnderWay.no_goal h nofun
  | @cancels g m hw hst =>
      have hset := h.set (h.not_waiting hw) (GoalStatus.noConfusion : GoalStatus.canceled ≠ _)
      show UnderWay s.act (some .finished) (s.set_status g .canceled m).status
      rw [status_set_status]
      exact hset.no_goal nofun
  | @succeeds g m hw hst =>
      have hset := h.set (h.not_waiting hw) (GoalStatus.noConfusion : GoalStatus.succeeded ≠ _)
      show UnderWay s.act (some (.goal g .succeed_release)) (s.set_status g .succeeded m).status
      rw [status_set_status]
      exact UnderWay.moves hset hw nofun
  | @retires g hw =>
      rcases release_handle_cases s g with ⟨-, heq⟩ | ⟨-, heq⟩
      · rw [heq]
        exact UnderWay.no_goal h nofun
      · rw [heq]
        exact UnderWay.no_goal h nofun
  | returns hw _ _ | gives_back hw | replies hw => exact UnderWay.no_goal h nofun

theorem same_underWay {s t : State P} (hs : Same s t) (h : s.UnderWay) : t.UnderWay := by
  unfold State.UnderWay
  have hstatus : t.status = s.status := by
    funext g
    unfold State.status
    rw [hs.goals]
  rw [hs.act, hs.worker, hstatus]
  exact h

theorem abort_goal?_underWay {s : State P} (h : s.UnderWay) (g : Option ℕ) :
    (s.abort_goal? g).UnderWay := by
  cases g with
  | none => exact h
  | some g =>
      show (s.abort_goal g _).UnderWay
      by_cases hg : s.act.waiting = some g
      · rw [abort_waiting h hg]
        exact h
      · exact abort_underWay h g _ hg

theorem lc_underWay {s t : State P} (h : s.UnderWay) (hx : Ran s t) : t.UnderWay := by
  cases hx with
  | quiet hs => exact same_underWay hs h
  | configure _ _ hs => exact same_underWay hs h
  | refuse hs => exact same_underWay hs h
  | take _ hs => exact same_underWay hs h
  | @abort g _ hs => exact same_underWay hs (abort_goal?_underWay h g)
  | join _ hs => exact same_underWay hs (UnderWay.no_goal h nofun)
  | accept _ hs => exact same_underWay hs h

theorem request_underWay {s t : State P} {r : GoalRequest P} (h : s.UnderWay)
    (hfresh : s.goals r.id = none) (hx : Requested s r t) : t.UnderWay := by
  cases hx with
  | ignored => exact h
  | rejected _ => exact h
  | @accepted wave pre cap plan _ _ =>
      have hself : ∀ k, k ≠ r.id → (Function.update s.goals r.id (some { status := .accepted, plan := plan })) k =
          s.goals k := fun k hk => Function.update_of_ne hk _ _
      -- no worker has the new goal's id
      have hne : ∀ k pc, s.worker = some (.goal k pc) → k ≠ r.id := by
        rintro k pc hw rfl
        have hk := h.known _ pc hw
        rw [State.status, hfresh] at hk
        cases hk
      refine ⟨?_, ?_, ?_, ?_⟩
      · intro k pc hw
        show ((Function.update s.goals r.id (some { status := .accepted, plan := plan }) k).map _).isSome = true
        rw [hself k (hne k pc hw)]
        exact h.known k pc hw
      · intro k hk
        cases hk
        show (Function.update s.goals r.id (some { status := .accepted, plan := plan }) r.id).map _ = _
        rw [Function.update_self]
        rfl
      · intro k hk
        cases hk
        exact hne
      · intro k pc hw hpc
        show (Function.update s.goals r.id (some { status := .accepted, plan := plan }) k).map _ ≠ _
        rw [hself k (hne k pc hw)]
        exact h.executed k pc hw hpc

theorem raw_step_underWay {s t : State P} {e : Event P} (h : s.UnderWay)
    (hx : Stepped s e t) : t.UnderWay := by
  cases hx with
  | request _ hfresh hx => exact request_underWay h hfresh hx
  | cancel hidle _ =>
      unfold State.UnderWay
      rw [status_set_status]
      refine h.set ?_ nofun
      show s.act.waiting ≠ _
      rw [hidle]
      nofun
  | act hx => exact act_underWay h hx
  | claim _ _ => exact h
  | turn_away _ _ => exact h
  | ret hx => exact ret_underWay h hx
  | worker hx => exact worker_underWay h hx
  | lc hx _ => exact lc_underWay h hx
  | quiet hs => exact same_underWay hs h

/-! ## Dropped handles -/

/-- A goal somebody references is left alone. -/
theorem goals_reap {s : State P} {g : ℕ} (h : s.referenced g = true) :
    (reap s).goals g = s.goals g := by
  show (s.goals g).map _ = _
  cases s.goals g with
  | none => rfl
  | some x =>
      simp only [h, Bool.not_true, Bool.and_false, Option.map_some, if_false, Bool.false_eq_true]

/-- What is open afterwards was open before and is referenced. -/
theorem open_reap {s : State P} {g : ℕ} (h : (reap s).Open g) :
    s.Open g ∧ s.referenced g = true := by
  obtain ⟨st, hst, hactive⟩ := State.open_iff.mp h
  by_cases href : s.referenced g = true
  · have hgoals := goals_reap href
    unfold State.status at hst
    rw [hgoals] at hst
    exact ⟨State.open_iff.mpr ⟨st, hst, hactive⟩, href⟩
  · rw [Bool.not_eq_true] at href
    simp only [State.status, reap, href, Bool.not_false, Bool.and_true, Option.map_map] at hst
    obtain ⟨x, hx, heq⟩ := Option.map_eq_some_iff.mp hst
    simp only [Function.comp_apply] at heq
    split at heq
    · rw [← heq] at hactive
      cases hactive
    · rename_i hnot
      rw [← heq] at hactive
      exact absurd hactive hnot

theorem referenced_of_act {s : State P} {g : ℕ} (h : s.act.holds g = true) :
    s.referenced g = true := by
  simp only [State.referenced, h, Bool.or_true, Bool.true_or]

theorem referenced_of_worker {s : State P} {g : ℕ} {pc : GoalPc}
    (h : s.worker = some (.goal g pc)) : s.referenced g = true := by
  simp only [State.referenced, h, Option.any_some, Worker.holds, beq_self_eq_true, Bool.or_true,
    Bool.true_or]

theorem holds_of_waiting {a : Act} {g : ℕ} (h : a.waiting = some g) : a.holds g = true := by
  unfold Act.waiting at h
  split at h
  · cases h
  · cases h
  all_goals
    cases h
    simp only [Act.holds, beq_self_eq_true]

theorem waiting_of_holds {a : Act} {g : ℕ} (h : a.holds g = true) :
    a.waiting = some g ∨ a = .start g (.unlock true) := by
  unfold Act.holds at h
  split at h
  · cases h
  · rw [beq_iff_eq] at h
    subst h
    exact .inl rfl
  · rename_i k p
    rw [beq_iff_eq] at h
    subst h
    cases p with
    | unlock b =>
        cases b with
        | true => exact .inr rfl
        | false => exact .inl rfl
    | _ => exact .inl rfl
  · rw [beq_iff_eq] at h
    subst h
    exact .inl rfl
  · rw [beq_iff_eq] at h
    subst h
    exact .inl rfl

theorem worker_of_holds {w : Option Worker} {g : ℕ} (h : w.any (·.holds g) = true) :
    ∃ pc, w = some (.goal g pc) := by
  match w, h with
  | some (.goal k pc), h =>
      rw [Option.any_some, Worker.holds, beq_iff_eq] at h
      subst h
      exact ⟨pc, rfl⟩

theorem UnderWay.reap {s : State P} (h : s.UnderWay) : (reap s).UnderWay := by
  refine ⟨?_, ?_, h.distinct, ?_⟩
  · intro g pc hw
    have hgoals := goals_reap (s := s) (referenced_of_worker hw)
    rw [State.status, hgoals]
    exact h.known g pc hw
  · intro g hg
    have hgoals := goals_reap (s := s) (referenced_of_act (holds_of_waiting hg))
    rw [State.status, hgoals]
    exact h.waiting g hg
  · intro g pc hw hpc
    have hgoals := goals_reap (s := s) (referenced_of_worker hw)
    rw [State.status, hgoals]
    exact h.executed g pc hw hpc

theorem step_underWay {s t : State P} {e : Event P} (h : s.UnderWay) (hs : step s e = some t) :
    t.UnderWay := by
  obtain ⟨u, hu, rfl⟩ := step_eq_some hs
  exact UnderWay.reap (raw_step_underWay h (raw_step_cases hu))

theorem init_underWay {s : State P} (h : Init s) : s.UnderWay := by
  obtain ⟨-, -, -, -, -, -, -, -, -, -, -, -, -, -, -, -, -, -, hact, -, hworker, -, -, -, -⟩ := h
  unfold State.UnderWay
  rw [hact, hworker]
  exact ⟨nofun, nofun, nofun, nofun⟩

/-! ## Behind the join -/

/-- In `start_execution` between its join and its spawn. -/
def joined : Start → Bool
  | .check | .clear | .spawn => true
  | _ => false

/-- There is no worker between a join and a spawn. -/
structure Joined (s : State P) : Prop where
  act : ∀ g p, s.act = .start g p → joined p = true → s.worker = none
  ret : ∀ id p, s.ret = .start id p → joined p = true → s.worker = none

theorem locked_of_joined {p : Start} (h : joined p = true) : p.locked = true := by
  cases p with
  | lock => cases h
  | _ => rfl

/-- The program points stay, and no worker appears. -/
theorem Joined.keep {s t : State P} (h : Joined s) (hact : t.act = s.act) (hret : t.ret = s.ret)
    (hw : s.worker = none → t.worker = none) : Joined t := by
  refine ⟨?_, ?_⟩
  · rw [hact]
    exact fun g p hp hj => hw (h.act g p hp hj)
  · rw [hret]
    exact fun id p hp hj => hw (h.ret id p hp hj)

theorem act_joined {s t : State P} (hl : Ladder s) (h : Joined s) (hx : Acted s t) :
    Joined t := by
  cases hx with
  | accept _ _ => exact ⟨fun g p hp hj => (by cases hp; cases hj), h.ret⟩
  | decline _ _ => exact ⟨nofun, h.ret⟩
  | started _ => exact ⟨nofun, h.ret⟩
  | refused _ => exact ⟨nofun, h.ret⟩
  | give_up _ => exact ⟨nofun, h.ret⟩
  | @abort g m hp _ =>
      rcases s.abort_goal_cases g _ with ⟨st, -, -, heq⟩ | ⟨heq, -⟩
      · rw [heq]
        exact ⟨nofun, h.ret⟩
      · rw [heq]
        exact ⟨nofun, h.ret⟩
  | @starts g p q u hp hs =>
      cases hs with
      | lock _ => exact ⟨fun g p hp hj => (by cases hp; cases hj), h.ret⟩
      | store => exact ⟨fun g p hp hj => (by cases hp; cases hj), h.ret⟩
      | join _ => exact ⟨fun _ _ _ _ => rfl, fun _ _ _ _ => rfl⟩
      | pass _ => exact ⟨fun _ _ _ _ => h.act g _ hp rfl, h.ret⟩
      | refuse _ => exact ⟨fun g p hp hj => (by cases hp; cases hj), h.ret⟩
      | clear => exact ⟨fun _ _ _ _ => h.act g _ hp rfl, h.ret⟩
      | spawn =>
          refine ⟨fun g p hp hj => (by cases hp; cases hj), fun id p hret hj => ?_⟩
          -- the other request would hold the mutex as well
          have hret : s.ret = .start id p := hret
          have hfree := hl.act_ret (by rw [hp]; rfl)
          rw [hret] at hfree
          have hlocked := locked_of_joined hj
          rw [show Ret.locked (.start id p) = p.locked from rfl, hlocked] at hfree
          cases hfree

theorem ret_joined {s t : State P} (hl : Ladder s) (h : Joined s) (hx : Returned s t) :
    Joined t := by
  cases hx with
  | started _ => exact ⟨h.act, nofun⟩
  | refused _ => exact ⟨h.act, nofun⟩
  | give_back _ => exact ⟨h.act, nofun⟩
  | respond _ => exact ⟨h.act, nofun⟩
  | @starts id p q u hp hs =>
      cases hs with
      | lock _ => exact ⟨h.act, fun id p hp hj => (by cases hp; cases hj)⟩
      | store => exact ⟨h.act, fun id p hp hj => (by cases hp; cases hj)⟩
      | join _ => exact ⟨fun _ _ _ _ => rfl, fun _ _ _ _ => rfl⟩
      | pass _ => exact ⟨h.act, fun _ _ _ _ => h.ret id _ hp rfl⟩
      | refuse _ => exact ⟨h.act, fun id p hp hj => (by cases hp; cases hj)⟩
      | clear => exact ⟨h.act, fun _ _ _ _ => h.ret id _ hp rfl⟩
      | spawn =>
          refine ⟨fun g p hact hj => ?_, fun id p hp hj => (by cases hp; cases hj)⟩
          have hact : s.act = .start g p := hact
          have hfree := hl.act_ret (by rw [hact]; exact locked_of_joined hj)
          rw [hp] at hfree
          cases hfree

theorem lc_joined {s t : State P} (h : Joined s) (hx : Ran s t) : Joined t := by
  cases hx with
  | quiet hs => exact h.keep hs.act hs.ret fun hw => hs.worker.trans hw
  | configure _ _ hs => exact h.keep hs.act hs.ret fun hw => hs.worker.trans hw
  | refuse hs => exact h.keep hs.act hs.ret fun hw => hs.worker.trans hw
  | take _ hs => exact h.keep hs.act hs.ret fun hw => hs.worker.trans hw
  | @abort g _ hs =>
      obtain ⟨goals, heq⟩ := abort_goal?_eq s g
      rw [heq] at hs
      exact h.keep hs.act hs.ret fun hw => hs.worker.trans hw
  | join _ hs => exact h.keep hs.act hs.ret fun _ => hs.worker
  | accept _ hs => exact h.keep hs.act hs.ret fun hw => hs.worker.trans hw

/-- There is no worker, or it has ended. -/
def Ended (w : Option Worker) : Prop := w = none ∨ w = some .finished

/-- What the other threads do to the worker: they leave it, join one that has
ended, or spawn one where there is none. -/
inductive Handled (s : State P) (w : Option Worker) : Prop where
  | same : w = s.worker → Handled s w
  | joined : Ended s.worker → w = none → Handled s w
  | goal (g : ℕ) : s.worker = none → w = some (.goal g .execute) → Handled s w
  | return_to_upright (id : ℕ) : s.worker = none → w = some (.return_to_upright id .begin) →
      Handled s w

/-- A worker that has not ended is left alone. -/
theorem Handled.running {s : State P} {w : Option Worker} {x : Worker} (h : Handled s w)
    (hw : s.worker = some x) (hx : x ≠ .finished) : w = some x := by
  cases h with
  | same heq => rw [heq, hw]
  | joined hended _ =>
      rw [hw] at hended
      rcases hended with hended | hended
      · cases hended
      · exact absurd (Option.some.inj hended) hx
  | goal k hnone _ =>
      rw [hw] at hnone
      cases hnone
  | return_to_upright id hnone _ =>
      rw [hw] at hnone
      cases hnone

theorem act_handled {s t : State P} (hj : Joined s) (hx : Acted s t) : Handled s t.worker := by
  cases hx with
  | @abort g m _ _ =>
      rcases s.abort_goal_cases g m with ⟨st, -, -, heq⟩ | ⟨heq, -⟩
      · rw [heq]
        exact .same rfl
      · rw [heq]
        exact .same rfl
  | @starts g p q u hp hs =>
      cases hs with
      | join hw => exact .joined hw rfl
      | spawn => exact .goal g (hj.act g _ hp rfl) rfl
      | _ => exact .same rfl
  | _ => exact .same rfl

theorem ret_handled {s t : State P} (hj : Joined s) (hx : Returned s t) : Handled s t.worker := by
  cases hx with
  | @starts id p q u hp hs =>
      cases hs with
      | join hw => exact .joined hw rfl
      | spawn => exact .return_to_upright id (hj.ret id _ hp rfl) rfl
      | _ => exact .same rfl
  | _ => exact .same rfl

theorem lc_handled {s t : State P} (hx : Ran s t) : Handled s t.worker := by
  cases hx with
  | quiet hs => exact .same hs.worker
  | configure _ _ hs => exact .same hs.worker
  | refuse hs => exact .same hs.worker
  | take _ hs => exact .same hs.worker
  | @abort g _ hs =>
      obtain ⟨goals, heq⟩ := abort_goal?_eq s g
      rw [heq] at hs
      exact .same hs.worker
  | join hw hs => exact .joined hw hs.worker
  | accept _ hs => exact .same hs.worker

theorem other_handled {s t : State P} {e : Event P} (hj : Joined s) (hx : Stepped s e t)
    (he : ∀ i, e ≠ .worker i) : Handled s t.worker := by
  cases hx with
  | request _ _ hx =>
      cases hx with
      | ignored => exact .same rfl
      | rejected _ => exact .same rfl
      | accepted _ _ => exact .same rfl
  | cancel _ _ => exact .same rfl
  | act hx => exact act_handled hj hx
  | claim _ _ => exact .same rfl
  | turn_away _ _ => exact .same rfl
  | ret hx => exact ret_handled hj hx
  | worker _ => exact absurd rfl (he _)
  | lc hx _ => exact lc_handled hx
  | quiet hs => exact .same hs.worker

theorem step_joined {s t : State P} {e : Event P} (hl : Ladder s) (h : Joined s)
    (hs : step s e = some t) : Joined t := by
  obtain ⟨u, hu, rfl⟩ := step_eq_some hs
  have hu : Joined u := by
    cases raw_step_cases hu with
    | request hidle _ hx =>
        cases hx with
        | ignored => exact h
        | rejected _ => exact ⟨h.act, h.ret⟩
        | accepted _ _ => exact ⟨nofun, h.ret⟩
    | cancel _ _ => exact ⟨h.act, h.ret⟩
    | act hx => exact act_joined hl h hx
    | claim _ _ => exact ⟨h.act, fun id p hp hj => (by cases hp; cases hj)⟩
    | turn_away _ _ => exact ⟨h.act, nofun⟩
    | ret hx => exact ret_joined hl h hx
    | worker hx =>
        obtain ⟨hw, hframe⟩ := hx.frame
        simp only [Prod.mk.injEq] at hframe
        exact h.keep hframe.1 hframe.2.1 fun hn => absurd hn hw
    | lc hx _ => exact lc_joined h hx
    | quiet hs => exact h.keep hs.act hs.ret fun hw => hs.worker.trans hw
  exact ⟨hu.act, hu.ret⟩

theorem init_joined {s : State P} (h : Init s) : Joined s := by
  obtain ⟨-, -, -, -, -, -, -, -, -, -, -, -, -, -, -, -, -, -, hact, hret, -, -, -, -, -⟩ := h
  refine ⟨?_, ?_⟩
  · rw [hact]
    nofun
  · rw [hret]
    nofun

end WavemakerNode
