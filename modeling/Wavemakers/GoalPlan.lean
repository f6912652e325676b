/-
A running goal plays its own trajectory.

`prepare_goal` overwrites the shared trajectory and speed cap before it decides,
and the worker reads them without a lock. While a worker plays a goal and the
node accepts goals, `goal_handle_` is that goal and it is active, so
`goal_callback` turns every other request away before it prepares anything; and
while the node does not accept goals it turns all of them away.

There is one way around this. A request that has set `goal_handle_` and stands in
front of the check in `start_execution` can sleep through a whole deactivation
and activation: `abort_active_goal` clears `goal_handle_`, the check finds
`accepting_goals_` true again, and the worker starts without being named by
`goal_handle_`. `StepOk` excludes that, and a reconfiguration that switches the
kind of trajectory under a request; `reprepared_under_a_running_goal` is the run
that shows what happens without it.
-/
import Wavemakers.NodeGoals

set_option autoImplicit false

namespace WavemakerNode.GoalPlan

open Interleave

variable {P : Plant}

/-! ## The condition -/

/-- The goal of a request that has not spawned its worker yet and may still do
so. -/
def carries : Act → Option ℕ
  | .handle g => some g
  | .start _ (.unlock _) => none
  | .start g _ => some g
  | _ => none

/-- In `start_execution`, in front of the end of its check. -/
def unchecked : Act → Bool
  | .start _ .lock | .start _ .store | .start _ .join | .start _ .check => true
  | _ => false

/-- The configuration the step puts in place. -/
def configures : Event P → Option P.Config
  | .transition (.configure cfg) => some cfg
  | _ => none

/-- The condition on a step: the node is not activated while a request stands in
front of the check in `start_execution`, and not switched between pregenerated
and regular waves while a request carries a goal. -/
def StepOk (s : State P) (e : Event P) : Prop :=
  (activates s e = true → unchecked s.act = false) ∧
    ∀ cfg ∈ configures e, carries s.act = none ∨
      P.wavemaker_mode_pregenerated cfg = P.wavemaker_mode_pregenerated s.cfg

instance (s : State P) (e : Event P) : Decidable (StepOk s e) :=
  inferInstanceAs (Decidable ((_ → _) ∧ ∀ cfg ∈ configures e, _))

/-! ## The invariant -/

/-- The shared trajectory and cap are the goal's own. -/
def Planned (s : State P) (g : ℕ) : Prop := (s.goals g).map (·.plan) = some s.current_plan

structure Inv (s : State P) : Prop where
  planned : ∀ g, carries s.act = some g → Planned s g
  handle : ∀ g p, s.act = .start g p → carries s.act = some g → s.accepting_goals_ = true →
    s.goal_handle_ = some g
  alone : ∀ g, s.act.waiting = some g → ∀ k pc, s.worker = some (.goal k pc) → pc.plays = false
  playing : ∀ g pc, s.worker = some (.goal g pc) → pc.plays = true →
    Planned s g ∧ (s.accepting_goals_ = true → s.goal_handle_ = some g ∧ s.Open g)

theorem waiting_of_carries {a : Act} {g : ℕ} (h : carries a = some g) : a.waiting = some g := by
  unfold carries at h
  split at h
  · cases h
    rfl
  · cases h
  · rename_i k p hne
    cases h
    unfold Act.waiting
    split
    · rename_i heq
      cases heq
    · rename_i heq
      cases heq
      exact absurd rfl (hne true)
    all_goals
      rename_i heq
      cases heq
    rfl
  · cases h

/-- While a goal is played, no other request gets as far as `prepare_goal`. -/
theorem Inv.not_admits {s : State P} (h : Inv s) {g : ℕ} {pc : GoalPc}
    (hw : s.worker = some (.goal g pc)) (hp : pc.plays = true) : admits s = false := by
  by_contra hne
  rw [Bool.not_eq_false] at hne
  simp only [admits, Bool.and_eq_true, Bool.not_eq_true', Bool.or_eq_false_iff] at hne
  obtain ⟨⟨hacc, -⟩, -, hhandle⟩ := hne
  obtain ⟨hg, hopen⟩ := (h.playing g pc hw hp).2 hacc
  rw [hg, Option.any_some] at hhandle
  rw [State.Open, hhandle] at hopen
  cases hopen

theorem planned_of_status {s : State P} {g k : ℕ} {st : GoalStatus} {m : String}
    (h : Planned s g) : Planned (s.set_status k st m) g := by
  unfold Planned
  rw [State.plan_set_status]
  exact h

/-! ## Requests -/

theorem request_inv {s t : State P} {r : GoalRequest P} (h : Inv s) (hact : s.act = .idle)
    (hx : Requested s r t) : Inv t := by
  -- who gets to `prepare_goal` finds nothing being played
  have quiet : admits s = true → ∀ g pc, s.worker = some (.goal g pc) → pc.plays = false := by
    intro hadmits g pc hw
    by_contra hne
    rw [Bool.not_eq_false] at hne
    rw [h.not_admits hw hne] at hadmits
    cases hadmits
  cases hx with
  | ignored => exact h
  | rejected hadmits =>
      refine ⟨?_, ?_, ?_, ?_⟩
      · intro g hg
        have hg : carries s.act = some g := hg
        rw [hact] at hg
        cases hg
      · intro g p hp
        have hp : s.act = .start g p := hp
        rw [hact] at hp
        cases hp
      · intro g _
        exact quiet hadmits
      · intro g pc hw hp
        rw [quiet hadmits g pc hw] at hp
        cases hp
  | @accepted wave pre cap plan haccepts hplan =>
      have hadmits := admits_of_accepts haccepts
      refine ⟨?_, nofun, ?_, ?_⟩
      · intro g hg
        cases hg
        show (Function.update s.goals r.id (some { status := .accepted, plan := plan }) r.id).map _ = _
        rw [Function.update_self, hplan]
        rfl
      · intro g _
        exact quiet hadmits
      · intro g pc hw hp
        rw [quiet hadmits g pc hw] at hp
        cases hp

theorem act_inv {s t : State P} (hu : s.UnderWay) (h : Inv s) (hx : Acted s t) : Inv t := by
  -- as long as the request waits, nothing is played
  have quiet : ∀ {g}, s.act.waiting = some g → ∀ {Q : Prop} {k pc},
      s.worker = some (.goal k pc) → pc.plays = true → Q := by
    intro g hg Q k pc hw hp
    rw [h.alone g hg k pc hw] at hp
    cases hp
  cases hx with
  | @accept g hp _ =>
      have hg : s.act.waiting = some g := by
        rw [hp]
        rfl
      refine ⟨?_, ?_, fun _ _ => h.alone g hg, fun k pc hw hplays => quiet hg hw hplays⟩
      · intro k hk
        cases hk
        exact h.planned g (by rw [hp]; rfl)
      · intro k p heq _ _
        cases heq
        rfl
  | @decline g hp _ =>
      have hg : s.act.waiting = some g := by
        rw [hp]
        rfl
      exact ⟨nofun, nofun, fun _ _ => h.alone g hg, fun k pc hw hplays => quiet hg hw hplays⟩
  | @started g hp => exact ⟨nofun, nofun, nofun, h.playing⟩
  | @refused g hp =>
      have hg : s.act.waiting = some g := by
        rw [hp]
        rfl
      exact ⟨nofun, nofun, fun _ _ => h.alone g hg, fun k pc hw hplays => quiet hg hw hplays⟩
  | @give_up g hp =>
      have hg : s.act.waiting = some g := by
        rw [hp]
        rfl
      exact ⟨nofun, nofun, fun _ _ => h.alone g hg, fun k pc hw hplays => quiet hg hw hplays⟩
  | @abort g m hp _ =>
      have hg : s.act.waiting = some g := by
        rw [hp]
        rfl
      rw [abort_waiting hu hg]
      exact ⟨nofun, nofun, nofun, h.playing⟩
  | @starts g p q u hp hs =>
      have hplanned := h.planned g
      have hhandle := h.handle g p hp
      rw [hp] at hplanned hhandle
      cases hs with
      | join _ =>
          refine ⟨?_, ?_, fun _ _ => nofun, nofun⟩
          · intro k hk
            cases hk
            exact hplanned rfl
          · intro k p' heq _ hacc
            cases heq
            exact hhandle rfl hacc
      | spawn =>
          refine ⟨nofun, nofun, nofun, ?_⟩
          intro k pc heq _
          cases heq
          refine ⟨hplanned rfl, fun hacc => ⟨hhandle rfl hacc, ?_⟩⟩
          exact State.open_iff.mpr ⟨_, hu.waiting g (by rw [hp]; rfl), rfl⟩
      | refuse _ =>
          have hg : s.act.waiting = some g := by
            rw [hp]
            rfl
          exact ⟨nofun, nofun, fun _ _ => h.alone g hg, fun k pc hw hplays => quiet hg hw hplays⟩
      | lock _ | store | pass _ | clear =>
          have hg : s.act.waiting = some g := by
            rw [hp]
            rfl
          refine ⟨?_, ?_, fun _ _ => h.alone g hg, fun k pc hw hplays => quiet hg hw hplays⟩
          · intro k hk
            cases hk
            exact hplanned rfl
          · intro k p' heq _ hacc
            cases heq
            exact hhandle rfl hacc

theorem ret_inv {s t : State P} (h : Inv s) (hx : Returned s t) : Inv t := by
  cases hx with
  | @starts id p q u hp hs =>
      cases hs with
      | join _ => exact ⟨h.planned, h.handle, fun _ _ => nofun, nofun⟩
      | spawn => exact ⟨h.planned, h.handle, fun _ _ => nofun, nofun⟩
      | lock _ | store | pass _ | refuse _ | clear =>
          exact ⟨h.planned, h.handle, h.alone, h.playing⟩
  | started _ | refused _ | give_back _ | respond _ =>
      exact ⟨h.planned, h.handle, h.alone, h.playing⟩

/-! ## The worker -/

theorem open_set_status {s : State P} {g : ℕ} {st : GoalStatus} {m : String}
    (hg : (s.status g).isSome = true) (hst : st.is_active = true) :
    (s.set_status g st m).Open g := by
  obtain ⟨st', hst'⟩ := Option.isSome_iff_exists.mp hg
  refine State.open_iff.mpr ⟨st, ?_, hst⟩
  rw [State.status_set_status_self, hst']
  rfl

/-- The worker has stopped playing, and the requests keep their handle. -/
theorem Inv.leaves {s t : State P} (h : Inv s) (hact : t.act = s.act)
    (hplanned : ∀ g, Planned s g → Planned t g)
    (hhandle : ∀ g, s.act.waiting = some g → t.accepting_goals_ = true →
      s.accepting_goals_ = true ∧ (s.goal_handle_ = some g → t.goal_handle_ = some g))
    (hworker : ∀ g pc, t.worker = some (.goal g pc) → pc.plays = false) : Inv t := by
  refine ⟨?_, ?_, fun _ _ => hworker, ?_⟩
  · rw [hact]
    exact fun g hg => hplanned g (h.planned g hg)
  · rw [hact]
    intro g p hp hc hacc
    obtain ⟨hacc', hkeep⟩ := hhandle g (waiting_of_carries hc) hacc
    exact hkeep (h.handle g p hp hc hacc')
  · intro g pc hw hp
    rw [hworker g pc hw] at hp
    cases hp

/-- Giving up the worker's goal leaves another goal's handle alone. -/
theorem release_keeps {s : State P} (hu : s.UnderWay) {g : ℕ} {pc : GoalPc}
    (hw : s.worker = some (.goal g pc)) :
    ∀ k, s.act.waiting = some k → s.goal_handle_ = some k →
      (s.release_handle g).goal_handle_ = some k := by
  intro k hk hhandle
  rcases release_handle_cases s g with ⟨hg, -⟩ | ⟨-, heq⟩
  · rw [hhandle] at hg
    cases hg
    exact absurd hk (hu.not_waiting hw)
  · rw [heq]
    exact hhandle

theorem worker_inv {s t : State P} (hu : s.UnderWay) (h : Inv s) (hx : Worked s t) : Inv t := by
  have gone : ∀ {w : Worker}, (∀ g pc, w ≠ .goal g pc) → ∀ g pc,
      some w = some (.goal g pc) → pc.plays = false :=
    fun hne g pc heq => absurd (Option.some.inj heq) (hne g pc)
  have at_pc : ∀ {k : ℕ} {pc' : GoalPc}, pc'.plays = false → ∀ g pc,
      some (Worker.goal k pc') = some (.goal g pc) → pc.plays = false := by
    intro k pc' hp g pc heq
    cases heq
    exact hp
  cases hx with
  | @moves g pc pc' x hw hm =>
      refine ⟨h.planned, h.handle, ?_, ?_⟩
      · intro k hk g' pc'' heq
        cases heq
        -- a worker that goes on playing was playing before
        have hstop := h.alone k hk g pc hw
        by_contra hne
        rw [Bool.not_eq_false] at hne
        rw [hm.plays hne] at hstop
        cases hstop
      · intro g' pc'' heq hp
        cases heq
        exact h.playing g pc hw (hm.plays hp)
  | @executes g hw hst =>
      refine ⟨fun k hk => planned_of_status (h.planned k hk), h.handle, ?_, ?_⟩
      · intro k hk
        cases h.alone k hk g .execute hw
      · intro k pc heq _
        cases heq
        obtain ⟨hplanned, hhandle⟩ := h.playing g .execute hw rfl
        refine ⟨planned_of_status hplanned, fun hacc => ⟨(hhandle hacc).1, ?_⟩⟩
        exact open_set_status (hu.known g .execute hw) rfl
  | @releases g e hw =>
      -- the handle is given up only if it still names this goal
      have hkeep := release_keeps hu hw
      rcases release_handle_cases s g with ⟨-, heq⟩ | ⟨-, heq⟩
      · rw [heq] at hkeep ⊢
        exact h.leaves rfl (fun _ hp => hp) (fun k hk hacc => ⟨hacc, hkeep k hk⟩) (at_pc rfl)
      · rw [heq]
        exact h.leaves rfl (fun _ hp => hp) (fun k hk hacc => ⟨hacc, id⟩) (at_pc rfl)
  | @rejects g message hw =>
      rcases release_handle_cases { s with accepting_goals_ := false } g with ⟨-, heq⟩ | ⟨-, heq⟩
      · rw [heq]
        exact h.leaves rfl (fun _ hp => hp) nofun (at_pc rfl)
      · rw [heq]
        exact h.leaves rfl (fun _ hp => hp) nofun (at_pc rfl)
  | reason hw | store hw | stop hw _ =>
      exact h.leaves rfl (fun _ hp => hp) (fun _ _ hacc => ⟨hacc, id⟩) (at_pc rfl)
  | @aborts g pc hw _ _ =>
      rcases s.abort_goal_cases g _ with ⟨st, -, -, heq⟩ | ⟨heq, -⟩
      · rw [heq]
        exact h.leaves rfl (fun _ hp => planned_of_status hp) (fun _ _ hacc => ⟨hacc, id⟩)
          (gone nofun)
      · rw [heq]
        exact h.leaves rfl (fun _ hp => hp) (fun _ _ hacc => ⟨hacc, id⟩) (gone nofun)
  | cancels hw _ =>
      exact h.leaves rfl (fun _ hp => planned_of_status hp) (fun _ _ hacc => ⟨hacc, id⟩)
        (gone nofun)
  | succeeds hw _ =>
      exact h.leaves rfl (fun _ hp => planned_of_status hp) (fun _ _ hacc => ⟨hacc, id⟩)
        (at_pc rfl)
  | @retires g hw =>
      have hkeep := release_keeps hu hw
      rcases release_handle_cases s g with ⟨-, heq⟩ | ⟨-, heq⟩
      · rw [heq] at hkeep ⊢
        exact h.leaves rfl (fun _ hp => hp) (fun k hk hacc => ⟨hacc, hkeep k hk⟩) (gone nofun)
      · rw [heq]
        exact h.leaves rfl (fun _ hp => hp) (fun k hk hacc => ⟨hacc, id⟩) (gone nofun)
  | returns hw _ _ | gives_back hw | replies hw =>
      exact h.leaves rfl (fun _ hp => hp) (fun _ _ hacc => ⟨hacc, id⟩) (gone nofun)

/-! ## The lifecycle thread -/

theorem same_inv {s t : State P} (hs : Same s t) (h : Inv s) : Inv t := by
  have hplan : t.current_plan = s.current_plan := by
    unfold State.current_plan
    rw [hs.cfg, hs.trajectory, hs.pregenerated, hs.cap]
  have hplanned : ∀ g, Planned s g → Planned t g := by
    intro g hg
    unfold Planned
    rw [hs.goals, hplan]
    exact hg
  have hopen : ∀ g, s.Open g → t.Open g := by
    intro g hg
    unfold State.Open State.is_active State.status
    rw [hs.goals]
    exact hg
  refine ⟨?_, ?_, ?_, ?_⟩
  · rw [hs.act]
    exact fun g hg => hplanned g (h.planned g hg)
  · rw [hs.act, hs.accepting, hs.handle]
    exact h.handle
  · rw [hs.act, hs.worker]
    exact h.alone
  · rw [hs.worker, hs.accepting, hs.handle]
    intro g pc hw hp
    obtain ⟨hg, hhandle⟩ := h.playing g pc hw hp
    exact ⟨hplanned g hg, fun hacc => ⟨(hhandle hacc).1, hopen g (hhandle hacc).2⟩⟩

/-- A node that does not accept goals keeps the invariant whatever happens to the
handle and to the goals' states. -/
theorem Inv.refuses {s t : State P} (h : Inv s) (hacc : t.accepting_goals_ = false)
    (hact : t.act = s.act) (hworker : t.worker = s.worker)
    (hplanned : ∀ g, Planned s g → Planned t g) : Inv t := by
  refine ⟨?_, ?_, ?_, ?_⟩
  · rw [hact]
    exact fun g hg => hplanned g (h.planned g hg)
  · rw [hacc]
    nofun
  · rw [hact, hworker]
    exact h.alone
  · rw [hworker, hacc]
    exact fun g pc hw hp => ⟨hplanned g (h.playing g pc hw hp).1, nofun⟩

theorem lc_inv {s t : State P} (hl : Ladder s) (h : Inv s) (hx : Ran s t)
    (haccept : s.lc = .accept → unchecked s.act = false)
    (hmode : s.lc = .idle → carries s.act = none ∨
      P.wavemaker_mode_pregenerated t.cfg = P.wavemaker_mode_pregenerated s.cfg) : Inv t := by
  cases hx with
  | quiet hs => exact same_inv hs h
  | @configure cfg hlc hp hs =>
      refine same_inv hs ?_
      have hrank : s.rank = 4 := rank_down (by rw [hp]; nofun) (by rw [hlc]; rfl)
      have hworker := hl.worker (by omega)
      refine ⟨?_, h.handle, ?_, ?_⟩
      · intro g hg
        rcases hmode hlc with hnone | hsame
        · have hg : carries s.act = some g := hg
          rw [hnone] at hg
          cases hg
        · have hplanned := h.planned g hg
          unfold Planned State.current_plan at hplanned ⊢
          rw [hs.cfg] at hsame
          simp only at hsame ⊢
          rw [hsame]
          exact hplanned
      · intro g _ k pc hw
        have hw : s.worker = some (.goal k pc) := hw
        rw [hworker] at hw
        cases hw
      · intro g pc hw
        have hw : s.worker = some (.goal g pc) := hw
        rw [hworker] at hw
        cases hw
  | refuse hs => exact same_inv hs (h.refuses rfl rfl rfl fun _ hp => hp)
  | take hlc hs =>
      have hrank : 1 ≤ s.rank := by
        refine le_rank ?_ (by decide)
        rcases hlc with hlc | ⟨why, hlc⟩
        · rw [hlc]
          exact le_rfl
        · rw [hlc]
          exact le_rfl
      exact same_inv hs (h.refuses (hl.accepting hrank) rfl rfl fun _ hp => hp)
  | @abort g hlc hs =>
      have hrank : 1 ≤ s.rank := by
        refine le_rank ?_ (by decide)
        rcases hlc with hlc | ⟨why, hlc⟩
        · rw [hlc]
          exact le_rfl
        · rw [hlc]
          exact le_rfl
      refine same_inv hs ?_
      cases g with
      | none => exact h
      | some g =>
          show Inv (s.abort_goal g _)
          have hacc := hl.accepting hrank
          rcases s.abort_goal_cases g _ with ⟨st, -, -, heq⟩ | ⟨heq, -⟩
          · rw [heq]
            exact h.refuses hacc rfl rfl fun _ hp => planned_of_status hp
          · rw [heq]
            exact h
  | join _ hs =>
      exact same_inv hs ⟨h.planned, h.handle, fun _ _ => nofun, nofun⟩
  | accept hlc hs =>
      refine same_inv hs ?_
      have hrank : s.rank = 3 :=
        rank_activating (hl.entering (by rw [hlc]; rfl)) (by rw [hlc]; rfl)
      have hworker := hl.worker (by omega)
      have hpast := hl.act_past (by omega)
      have hunchecked := haccept hlc
      refine ⟨h.planned, ?_, ?_, ?_⟩
      · -- a request in `start_execution` is neither in front of the check nor behind it
        intro g p hp hc _
        have hp : s.act = .start g p := hp
        have hc : carries s.act = some g := hc
        rw [hp] at hc hpast hunchecked
        cases p with
        | lock | store | join | check => cases hunchecked
        | clear | spawn => cases hpast
        | unlock b => cases hc
      · intro g _ k pc hw
        have hw : s.worker = some (.goal k pc) := hw
        rw [hworker] at hw
        cases hw
      · intro g pc hw
        have hw : s.worker = some (.goal g pc) := hw
        rw [hworker] at hw
        cases hw

/-! ## Every step -/

theorem transition_cfg {s t : State P} {tr : Transition P} (h : begin_transition s tr = some t) :
    t.cfg = s.cfg ∨ ∃ cfg, tr = .configure cfg ∧ t.cfg = cfg := by
  cases tr with
  | configure cfg =>
      simp only [begin_transition] at h
      split at h
      · cases h
        exact .inr ⟨cfg, rfl, rfl⟩
      · cases h
  | activate | deactivate | cleanup | shutdown =>
      simp only [begin_transition] at h
      split at h
      all_goals cases h
      exact .inl rfl

theorem raw_step_inv {s t : State P} {e : Event P} (hl : Ladder s) (hu : s.UnderWay) (h : Inv s)
    (hok : StepOk s e) (hx : raw_step s e = some t) : Inv t := by
  cases happens hx with
  | goal_request hidle _ => exact request_inv h hidle (goal_callback_cases s _)
  | @cancel g _ hor =>
      have hknown : (s.status g).isSome = true := by
        rcases hor with hst | hst
        · rw [hst]
          rfl
        · rw [hst]
          rfl
      refine ⟨fun k hk => planned_of_status (h.planned k hk), h.handle, h.alone, ?_⟩
      intro k pc hw hp
      obtain ⟨hplanned, hhandle⟩ := h.playing k pc hw hp
      refine ⟨planned_of_status hplanned, fun hacc => ⟨(hhandle hacc).1, ?_⟩⟩
      by_cases hk : k = g
      · -- a goal that is being canceled is still open
        subst hk
        exact open_set_status hknown rfl
      · have hopen := (hhandle hacc).2
        unfold State.Open State.is_active at hopen ⊢
        rw [State.status_set_status_ne hk]
        exact hopen
  | act hx => exact act_inv hu h (act_cases hx)
  | return_request _ =>
      unfold WavemakerNode.return_request
      split
      · exact ⟨h.planned, h.handle, h.alone, h.playing⟩
      · exact ⟨h.planned, h.handle, h.alone, h.playing⟩
  | ret hx => exact ret_inv h (ret_cases hx)
  | worker hx => exact worker_inv hu h (worker_cases hx)
  | transition hlc hx =>
      refine lc_inv hl h (transition_cases hlc hx) (by rw [hlc]; nofun) fun _ => ?_
      rcases transition_cfg hx with heq | ⟨cfg, rfl, heq⟩
      · rw [heq]
        exact .inr rfl
      · rw [heq]
        exact hok.2 cfg rfl
  | tick hlc =>
      refine lc_inv hl h (tick_cases s) (by rw [hlc]; nofun) fun _ => .inr ?_
      unfold begin_tick
      split
      · rfl
      · rfl
  | lc hx =>
      refine lc_inv hl h (lc_cases hx) (fun hlc => hok.1 ?_) fun hlc => ?_
      · simp only [activates, hlc, beq_self_eq_true]
      · simp only [lc_step, hlc] at hx
        cases hx
  | fault _ _ | report _ | soft_stop | clock | context_shutdown =>
      exact same_inv (outside_same rfl hx) h

theorem Inv.reap {s : State P} (h : Inv s) : Inv (reap s) := by
  have hplanned : ∀ g, Planned s g → Planned (WavemakerNode.reap s) g := by
    intro g hg
    unfold Planned at hg ⊢
    show ((s.goals g).map _).map _ = some s.current_plan
    rw [← hg, Option.map_map]
    congr 1
    funext x
    simp only [Function.comp_apply]
    split
    · rfl
    · rfl
  refine ⟨fun g hg => hplanned g (h.planned g hg), h.handle, h.alone, ?_⟩
  intro g pc hw hp
  obtain ⟨hg, hhandle⟩ := h.playing g pc hw hp
  refine ⟨hplanned g hg, fun hacc => ⟨(hhandle hacc).1, ?_⟩⟩
  have hopen := (hhandle hacc).2
  have hgoals := goals_reap (s := s) (referenced_of_worker hw)
  unfold State.Open State.is_active State.status at hopen ⊢
  rw [hgoals]
  exact hopen

theorem init_inv {s : State P} (h : Init s) : Inv s := by
  obtain ⟨-, -, -, -, -, -, -, -, -, -, -, -, -, -, -, -, -, -, hact, -, hworker, -, -, -, -⟩ := h
  refine ⟨?_, ?_, ?_, ?_⟩
  · rw [hact]
    nofun
  · rw [hact]
    nofun
  · rw [hact]
    nofun
  · rw [hworker]
    nofun

theorem reach_inv {s : State P} (h : Reach step StepOk Init s) :
    Ladder s ∧ s.UnderWay ∧ Inv s := by
  have hinit : ∀ s : State P, Init s → Ladder s ∧ s.UnderWay ∧ Inv s := fun s hs =>
    ⟨init_ladder hs, init_underWay hs, init_inv hs⟩
  have hstep : ∀ (s : State P) e t, Ladder s ∧ s.UnderWay ∧ Inv s → StepOk s e →
      step s e = some t → Ladder t ∧ t.UnderWay ∧ Inv t := by
    rintro s e t ⟨hl, hu, hi⟩ hok hs
    refine ⟨step_ladder hl hs, step_underWay hu hs, ?_⟩
    obtain ⟨u, hx, rfl⟩ := step_eq_some hs
    exact (raw_step_inv hl hu hi hok hx).reap
  exact h.invariant hinit hstep

/-- **A running goal plays its own trajectory.** As long as a goal's worker can
sample, the trajectory and the cap it reads are those `prepare_goal` computed
for the goal, and no other request gets as far as `prepare_goal`. -/
theorem plays_its_own_plan {s : State P} (h : Reach step StepOk Init s) {g : ℕ} {pc : GoalPc}
    (hw : s.worker = some (.goal g pc)) (hp : pc.plays = true) :
    (∃ x, s.goals g = some x ∧ x.plan = s.current_plan) ∧ admits s = false := by
  obtain ⟨-, -, hinv⟩ := reach_inv h
  refine ⟨?_, hinv.not_admits hw hp⟩
  obtain ⟨x, hx, hplan⟩ := Option.map_eq_some_iff.mp (hinv.playing g pc hw hp).1
  exact ⟨x, hx, hplan⟩

/-! ## The run around it -/

theorem plays_a_goal :
    ∃ s : State bench, Reach step StepOk Init s ∧ s.worker = some (.goal 0 .sample) ∧
      (∃ x, s.goals 0 = some x ∧ x.plan = s.current_plan) ∧ admits s = false := by
  have heval : ((run (guarded step StepOk) constructed (boot ++ [requests 0 (1 / 2), .act] ++
      starts ++ to_sample)).map (·.worker)) = some (some (.goal 0 .sample)) := by
    decide +kernel
  obtain ⟨s, hrun, hw⟩ := Option.map_eq_some_iff.mp heval
  have hreach : Reach step StepOk Init s := .guarded_run _ (.init constructed_init) hrun
  exact ⟨s, hreach, hw, plays_its_own_plan hreach hw rfl⟩

/-- Goal 0 stands in front of `start_execution` while the node is deactivated and
activated again, then starts without being named by `goal_handle_`; goal 1 is
accepted and goal 0 goes on with goal 1's samples and cap. -/
def asleep_through_activation : List (Event bench) :=
  boot ++ [requests 0 (1 / 2), .act, .transition .deactivate] ++ stops ++ [.lc .proceed] ++
    activates_bench ++ starts ++ to_sample ++ [requests 1 (1 / 4)]

theorem reprepared_under_a_running_goal :
    ∃ s : State bench, Reach step Any Init s ∧ s.worker = some (.goal 0 .sample) ∧
      ¬ ∃ x, s.goals 0 = some x ∧ x.plan = s.current_plan := by
  have heval : ((run step constructed asleep_through_activation).map fun s =>
      (s.worker, (s.goals 0).map (·.plan.cap), s.goal_velocity_cap_mps_)) =
      some (some (.goal 0 .sample), some (11 / 20), 11 / 40) := by
    decide +kernel
  obtain ⟨s, hrun, hval⟩ := Option.map_eq_some_iff.mp heval
  simp only [Prod.mk.injEq] at hval
  obtain ⟨hw, hplan, hcap⟩ := hval
  refine ⟨s, .run (.init constructed_init) hrun, hw, ?_⟩
  rintro ⟨x, hx, heq⟩
  rw [hx, Option.map_some, heq] at hplan
  have hcap' : s.goal_velocity_cap_mps_ = 11 / 20 := Option.some.inj hplan
  rw [hcap] at hcap'
  revert hcap'
  decide +kernel

end WavemakerNode.GoalPlan
