/-
`stop_activity` against requests in flight.

A request may stand anywhere between its acceptance and `start_execution` when
a transition stops the node. What keeps it from starting a worker afterwards is
a ladder the lifecycle thread climbs in `stop_activity`: first
`accepting_goals_` is false, then (once it has held `execution_mutex_`) nobody
is behind the check of `start_execution` any more, then the worker is joined,
then the poll thread. `rank` reads the rung off the lifecycle thread's program
point, `Ladder` says what each rung guarantees, and nothing takes the node down
again before `on_activate` sets `accepting_goals_`.
-/
import Wavemakers.NodeSteps

set_option autoImplicit false

namespace WavemakerNode

open Interleave

variable {P : Plant}

/-! ## The ladder -/

/-- Behind the check of `start_execution`, with its result true. -/
def Start.past : Start → Bool
  | .clear | .spawn | .unlock true => true
  | _ => false

def Act.past : Act → Bool
  | .start _ p => p.past
  | _ => false

def Ret.past : Ret → Bool
  | .start _ p => p.past
  | _ => false

def Stop.rank : Stop → ℕ
  | .accepting => 0
  | .release | .abort _ | .lock => 1
  | .store | .join => 2
  | .unlock | .actuator => 3
  | .bond => 4

/-- The rung of an active node. -/
def Lc.rank : Lc → ℕ
  | .stop _ p => p.rank
  | .after _ => 4
  | .tick_state | .tick_release | .tick_abort _ | .tick_flag => 1
  | _ => 0

/-- `on_activate` in front of `accepting_goals_`. -/
def Lc.activating : Lc → Bool
  | .start | .bond | .bond_failed | .accept => true
  | _ => false

def State.rank (s : State P) : ℕ :=
  if s.primary = .active then s.lc.rank else if s.lc.activating then 3 else 4

/-- `on_configure` and `on_activate`. -/
def Lc.entering : Lc → Bool
  | .factory | .start | .bond | .bond_failed | .accept => true
  | _ => false

structure Ladder (s : State P) : Prop where
  entering : s.lc.entering = true → s.primary ≠ .active
  accepting : 1 ≤ s.rank → s.accepting_goals_ = false
  act_past : 2 ≤ s.rank → s.act.past = false
  ret_past : 2 ≤ s.rank → s.ret.past = false
  worker : 3 ≤ s.rank → s.worker = none
  polling : 4 ≤ s.rank → s.polling = false
  reporter : s.reporter.isSome = true → s.polling = true
  stopped : s.stopped = true → 3 ≤ s.rank
  act_ret : s.act.locked = true → s.ret.locked = false
  act_lc : s.act.locked = true → s.lc.locked = false
  ret_lc : s.ret.locked = true → s.lc.locked = false

/-! ## Requests and the worker -/

/-- What a step outside the lifecycle thread may do: it gets behind the check
only while the node accepts, spawns a worker only from behind it, and locks
only a free mutex. -/
structure Minds (s t : State P) : Prop where
  lc : t.lc = s.lc
  primary : t.primary = s.primary
  stopped : t.stopped = s.stopped
  accepting : t.accepting_goals_ = true → s.accepting_goals_ = true
  act_past : t.act.past = true → s.act.past = true ∨ s.accepting_goals_ = true
  ret_past : t.ret.past = true → s.ret.past = true ∨ s.accepting_goals_ = true
  worker : s.worker = none → t.worker = none ∨ s.act.past = true ∨ s.ret.past = true
  act_locked : t.act.locked = true → s.act.locked = true ∨ s.held = false ∧ t.ret = s.ret
  ret_locked : t.ret.locked = true → s.ret.locked = true ∨ s.held = false ∧ t.act = s.act
  polling : t.polling = true → s.polling = true
  reporter : t.reporter.isSome = true → t.polling = true

theorem held_eq_false {s : State P} (h : s.held = false) :
    s.act.locked = false ∧ s.ret.locked = false ∧ s.lc.locked = false := by
  simpa only [State.held, Bool.or_eq_false_iff, and_assoc] using h

theorem Ladder.minds {s t : State P} (h : Ladder s) (hm : Minds s t) : Ladder t := by
  have hrank : t.rank = s.rank := by
    unfold State.rank
    rw [hm.lc, hm.primary]
  have not_true : ∀ {b : Bool}, (b = true → False) → b = false := by
    intro b hb
    by_contra hne
    rw [Bool.not_eq_false] at hne
    exact hb hne
  refine ⟨?_, ?_, ?_, ?_, ?_, ?_, hm.reporter, ?_, ?_, ?_, ?_⟩
  · rw [hm.lc, hm.primary]
    exact h.entering
  · rw [hrank]
    intro hr
    apply not_true
    intro ha
    have := hm.accepting ha
    rw [h.accepting hr] at this
    cases this
  · rw [hrank]
    intro hr
    apply not_true
    intro hp
    rcases hm.act_past hp with hp | hp
    · rw [h.act_past hr] at hp
      cases hp
    · rw [h.accepting (by omega)] at hp
      cases hp
  · rw [hrank]
    intro hr
    apply not_true
    intro hp
    rcases hm.ret_past hp with hp | hp
    · rw [h.ret_past hr] at hp
      cases hp
    · rw [h.accepting (by omega)] at hp
      cases hp
  · rw [hrank]
    intro hr
    -- from rung 3 on nobody is behind the check who could spawn a worker
    rcases hm.worker (h.worker hr) with hw | hp | hp
    · exact hw
    · rw [h.act_past (by omega)] at hp
      cases hp
    · rw [h.ret_past (by omega)] at hp
      cases hp
  · rw [hrank]
    intro hr
    apply not_true
    intro hp
    have := hm.polling hp
    rw [h.polling hr] at this
    cases this
  · rw [hrank, hm.stopped]
    exact h.stopped
  · intro hact
    apply not_true
    intro hret
    rcases hm.act_locked hact with ha | ⟨hfree, heq⟩
    · rcases hm.ret_locked hret with hr | ⟨hfree, -⟩
      · rw [h.act_ret ha] at hr
        cases hr
      · rw [(held_eq_false hfree).1] at ha
        cases ha
    · rw [heq, (held_eq_false hfree).2.1] at hret
      cases hret
  · rw [hm.lc]
    intro hact
    rcases hm.act_locked hact with ha | ⟨hfree, -⟩
    · exact h.act_lc ha
    · exact (held_eq_false hfree).2.2
  · rw [hm.lc]
    intro hret
    rcases hm.ret_locked hret with hr | ⟨hfree, -⟩
    · exact h.ret_lc hr
    · exact (held_eq_false hfree).2.2

/-- A step that touches none of it. -/
theorem Minds.of_eq {s t : State P} (h : Ladder s) (hlc : t.lc = s.lc)
    (hprimary : t.primary = s.primary) (hstopped : t.stopped = s.stopped)
    (hacc : t.accepting_goals_ = true → s.accepting_goals_ = true) (hact : t.act = s.act)
    (hret : t.ret = s.ret) (hworker : s.worker = none → t.worker = none)
    (hpolling : t.polling = s.polling) (hreporter : t.reporter = s.reporter) : Minds s t := by
  refine ⟨hlc, hprimary, hstopped, hacc, ?_, ?_, fun hw => .inl (hworker hw), ?_, ?_, ?_, ?_⟩
  · rw [hact]
    exact .inl
  · rw [hret]
    exact .inl
  · rw [hact]
    exact .inl
  · rw [hret]
    exact .inl
  · rw [hpolling]
    exact id
  · rw [hreporter, hpolling]
    exact h.reporter

/-- `start_execution` on behalf of either request. -/
theorem starts_spec {s t : State P} {work : Worker} {p q : Start} (h : Starts s work p t q) :
    (t.lc = s.lc ∧ t.primary = s.primary ∧ t.stopped = s.stopped ∧
      t.accepting_goals_ = s.accepting_goals_ ∧ t.polling = s.polling ∧ t.reporter = s.reporter ∧
      t.act = s.act ∧ t.ret = s.ret) ∧
    (q.past = true → p.past = true ∨ s.accepting_goals_ = true) ∧
    (s.worker = none → t.worker = none ∨ p.past = true) ∧
    (p.locked = true ∨ s.held = false) := by
  cases h with
  | lock hheld => exact ⟨by simp, nofun, .inl, .inr hheld⟩
  | store => exact ⟨by simp, nofun, .inl, .inl rfl⟩
  | join hw => exact ⟨by simp, nofun, fun _ => .inl rfl, .inl rfl⟩
  | pass ha => exact ⟨by simp, fun _ => .inr ha, .inl, .inl rfl⟩
  | refuse ha => exact ⟨by simp, nofun, .inl, .inl rfl⟩
  | clear => exact ⟨by simp, fun _ => .inl rfl, .inl, .inl rfl⟩
  | spawn => exact ⟨by simp, fun _ => .inl rfl, fun _ => .inr rfl, .inl rfl⟩

theorem act_minds {s t : State P} (h : Ladder s) (hx : Acted s t) : Minds s t := by
  -- outside `start_execution` the action group neither locks nor spawns
  have quiet : ∀ u : State P, u.lc = s.lc → u.primary = s.primary → u.stopped = s.stopped →
      u.accepting_goals_ = s.accepting_goals_ → u.act.past = false → u.act.locked = false →
      u.ret = s.ret → u.worker = s.worker → u.polling = s.polling → u.reporter = s.reporter →
      Minds s u := by
    intro u h1 h2 h3 h4 h5 h6 h7 h8 h9 h10
    refine ⟨h1, h2, h3, by rw [h4]; exact id, ?_, by rw [h7]; exact .inl, ?_, ?_,
      by rw [h7]; exact .inl, by rw [h9]; exact id, by rw [h9, h10]; exact h.reporter⟩
    · rw [h5]
      nofun
    · rw [h8]
      exact .inl
    · rw [h6]
      nofun
  cases hx with
  | accept hp _ => exact quiet _ rfl rfl rfl rfl rfl rfl rfl rfl rfl rfl
  | decline hp _ => exact quiet _ rfl rfl rfl rfl rfl rfl rfl rfl rfl rfl
  | started hp => exact quiet _ rfl rfl rfl rfl rfl rfl rfl rfl rfl rfl
  | refused hp => exact quiet _ rfl rfl rfl rfl rfl rfl rfl rfl rfl rfl
  | give_up hp => exact quiet _ rfl rfl rfl rfl rfl rfl rfl rfl rfl rfl
  | abort hp =>
      rcases s.abort_goal_cases _ _ with ⟨st, -, -, heq⟩ | ⟨heq, -⟩
      · rw [heq]
        exact quiet _ rfl rfl rfl rfl rfl rfl rfl rfl rfl rfl
      · rw [heq]
        exact quiet _ rfl rfl rfl rfl rfl rfl rfl rfl rfl rfl
  | @starts g p q u hp hs =>
      obtain ⟨⟨h1, h2, h3, h4, h5, h6, h7, h8⟩, hpast, hworker, hlock⟩ := starts_spec hs
      have hact : s.act.past = p.past ∧ s.act.locked = p.locked := by
        rw [hp]
        exact ⟨rfl, rfl⟩
      rw [← hact.1] at hpast hworker
      rw [← hact.2] at hlock
      refine ⟨h1, h2, h3, ?_, hpast, ?_, fun hw => ?_, fun _ => ?_, ?_, ?_, ?_⟩
      · exact fun ha => by rw [← h4]; exact ha
      · exact fun hr => .inl (by rw [← h8]; exact hr)
      · rcases hworker hw with hn | hp
        · exact .inl hn
        · exact .inr (.inl hp)
      · rcases hlock with hl | hl
        · exact .inl hl
        · exact .inr ⟨hl, h8⟩
      · exact fun hr => .inl (by rw [← h8]; exact hr)
      · exact fun hpoll => by rw [← h5]; exact hpoll
      · intro hrep
        show u.polling = true
        rw [h5]
        exact h.reporter (by rw [← h6]; exact hrep)

theorem ret_minds {s t : State P} (h : Ladder s) (hx : Returned s t) : Minds s t := by
  have quiet : ∀ u : State P, u.lc = s.lc → u.primary = s.primary → u.stopped = s.stopped →
      u.accepting_goals_ = s.accepting_goals_ → u.ret.past = false → u.ret.locked = false →
      u.act = s.act → u.worker = s.worker → u.polling = s.polling → u.reporter = s.reporter →
      Minds s u := by
    intro u h1 h2 h3 h4 h5 h6 h7 h8 h9 h10
    refine ⟨h1, h2, h3, by rw [h4]; exact id, by rw [h7]; exact .inl, ?_, ?_,
      by rw [h7]; exact .inl, ?_, by rw [h9]; exact id, by rw [h9, h10]; exact h.reporter⟩
    · rw [h5]
      nofun
    · rw [h8]
      exact .inl
    · rw [h6]
      nofun
  cases hx with
  | started hp | refused hp | give_back hp | respond hp =>
      exact quiet _ rfl rfl rfl rfl rfl rfl rfl rfl rfl rfl
  | @starts id p q u hp hs =>
      obtain ⟨⟨h1, h2, h3, h4, h5, h6, h7, h8⟩, hpast, hworker, hlock⟩ := starts_spec hs
      have hret : s.ret.past = p.past ∧ s.ret.locked = p.locked := by
        rw [hp]
        exact ⟨rfl, rfl⟩
      rw [← hret.1] at hpast hworker
      rw [← hret.2] at hlock
      refine ⟨h1, h2, h3, ?_, ?_, hpast, fun hw => ?_, ?_, fun _ => ?_, ?_, ?_⟩
      · exact fun ha => by rw [← h4]; exact ha
      · exact fun hr => .inl (by rw [← h7]; exact hr)
      · rcases hworker hw with hn | hp
        · exact .inl hn
        · exact .inr (.inr hp)
      · exact fun hr => .inl (by rw [← h7]; exact hr)
      · rcases hlock with hl | hl
        · exact .inl hl
        · exact .inr ⟨hl, h7⟩
      · exact fun hpoll => by rw [← h5]; exact hpoll
      · intro hrep
        show u.polling = true
        rw [h5]
        exact h.reporter (by rw [← h6]; exact hrep)

theorem worker_minds {s t : State P} (h : Ladder s) (hx : Worked s t) : Minds s t := by
  have quiet : ∀ u : State P, u.lc = s.lc → u.primary = s.primary → u.stopped = s.stopped →
      (u.accepting_goals_ = true → s.accepting_goals_ = true) → u.act = s.act → u.ret = s.ret →
      s.worker ≠ none → u.polling = s.polling → u.reporter = s.reporter → Minds s u := by
    intro u h1 h2 h3 h4 h5 h6 hw h7 h8
    exact .of_eq h h1 h2 h3 h4 h5 h6 (fun hn => absurd hn hw) h7 h8
  cases hx with
  | moves hw _ | executes hw _ | reason hw | store hw | cancels hw _ | succeeds hw _
  | returns hw _ _ | gives_back hw | replies hw =>
      exact quiet _ rfl rfl rfl id rfl rfl (by rw [hw]; nofun) rfl rfl
  | @releases g e hw | @retires g hw =>
      rcases release_handle_cases s g with ⟨-, heq⟩ | ⟨-, heq⟩
      · rw [heq]
        exact quiet _ rfl rfl rfl id rfl rfl (by rw [hw]; nofun) rfl rfl
      · rw [heq]
        exact quiet _ rfl rfl rfl id rfl rfl (by rw [hw]; nofun) rfl rfl
  | @rejects g message hw =>
      rcases release_handle_cases { s with accepting_goals_ := false } g with ⟨-, heq⟩ | ⟨-, heq⟩
      · rw [heq]
        exact quiet _ rfl rfl rfl nofun rfl rfl (by rw [hw]; nofun) rfl rfl
      · rw [heq]
        exact quiet _ rfl rfl rfl nofun rfl rfl (by rw [hw]; nofun) rfl rfl
  | stop hw hrep =>
      -- `stop_actuator` waits for the reporter, so none is left when the polling ends
      refine ⟨rfl, rfl, rfl, id, .inl, .inl, ?_, .inl, .inl, nofun, ?_⟩
      · rw [hw]
        nofun
      · intro hsome
        have hsome : s.reporter.isSome = true := hsome
        rw [hrep] at hsome
        cases hsome
  | @aborts g pc m hw _ _ =>
      rcases s.abort_goal_cases g _ with ⟨st, -, -, heq⟩ | ⟨heq, -⟩
      · rw [heq]
        exact quiet _ rfl rfl rfl id rfl rfl (by rw [hw]; nofun) rfl rfl
      · rw [heq]
        exact quiet _ rfl rfl rfl id rfl rfl (by rw [hw]; nofun) rfl rfl

/-! ## The lifecycle thread -/

/-- What a flag that is not set is said to bring. -/
theorem unset {p : Prop} {b : Bool} (h : b = false) (hb : b = true) : p :=
  absurd (h.symm.trans hb) Bool.false_ne_true

/-- What holds from rung `n` on, on a rung below it. -/
theorem above {p : Prop} {m n : ℕ} (h : m < n) (hle : n ≤ m) : p :=
  absurd hle (Nat.not_le.mpr h)


/-- A step of the lifecycle thread to rung `n`. -/
theorem Ladder.of_lc {s t : State P} (h : Ladder s) {n : ℕ} (hrank : t.rank = n)
    (hact : t.act = s.act) (hret : t.ret = s.ret)
    (hentering : t.lc.entering = true → t.primary ≠ .active)
    (hlock : t.lc.locked = true → s.lc.locked = true ∨ s.held = false)
    (haccepting : 1 ≤ n → t.accepting_goals_ = false)
    (hpast : 2 ≤ n → s.act.past = false ∧ s.ret.past = false)
    (hworker : 3 ≤ n → t.worker = none) (hpolling : 4 ≤ n → t.polling = false)
    (hreporter : t.reporter.isSome = true → t.polling = true)
    (hstopped : t.stopped = true → 3 ≤ n) : Ladder t := by
  subst hrank
  -- a request that holds the mutex keeps the lifecycle thread from it
  have free : ∀ {b : Bool}, b = true → (s.lc.locked = true → b = false) →
      (s.held = false → b = false) → t.lc.locked = false := by
    intro b hb hlc hheld
    by_contra hne
    rw [Bool.not_eq_false] at hne
    rcases hlock hne with hl | hl
    · rw [hlc hl] at hb
      cases hb
    · rw [hheld hl] at hb
      cases hb
  have contra : ∀ {a b : Bool}, (a = true → b = false) → b = true → a = false := by
    intro a b hab hb
    by_contra hne
    rw [Bool.not_eq_false] at hne
    rw [hab hne] at hb
    cases hb
  refine ⟨hentering, haccepting, ?_, ?_, hworker, hpolling, hreporter, hstopped, ?_, ?_, ?_⟩
  · rw [hact]
    exact fun hr => (hpast hr).1
  · rw [hret]
    exact fun hr => (hpast hr).2
  · rw [hact, hret]
    exact h.act_ret
  · rw [hact]
    intro hl
    exact free hl (contra h.act_lc) fun hheld => (held_eq_false hheld).1
  · rw [hret]
    intro hl
    exact free hl (contra h.ret_lc) fun hheld => (held_eq_false hheld).2.1

/-- A step that stays on its rung. -/
theorem Ladder.same_rung {s t : State P} (h : Ladder s) (hrank : t.rank = s.rank)
    (hact : t.act = s.act) (hret : t.ret = s.ret)
    (hentering : t.lc.entering = true → t.primary ≠ .active)
    (hlock : t.lc.locked = true → s.lc.locked = true ∨ s.held = false)
    (hacc : t.accepting_goals_ = false ∨ t.accepting_goals_ = s.accepting_goals_)
    (hworker : t.worker = none ∨ t.worker = s.worker)
    (hpoll : t.polling = s.polling ∧ t.reporter = s.reporter)
    (hstopped : t.stopped = s.stopped ∨ 3 ≤ s.rank) : Ladder t := by
  refine h.of_lc hrank hact hret hentering hlock ?_ ?_ ?_ ?_ ?_ ?_
  · intro hr
    rcases hacc with ha | ha
    · exact ha
    · rw [ha]
      exact h.accepting hr
  · exact fun hr => ⟨h.act_past hr, h.ret_past hr⟩
  · intro hr
    rcases hworker with hw | hw
    · exact hw
    · rw [hw]
      exact h.worker hr
  · rw [hpoll.1]
    exact h.polling
  · rw [hpoll.1, hpoll.2]
    exact h.reporter
  · intro hs
    rcases hstopped with heq | hr
    · rw [heq] at hs
      exact h.stopped hs
    · exact hr

theorem rank_active {s : State P} (h : s.primary = .active) : s.rank = s.lc.rank := by
  rw [State.rank, if_pos h]

theorem rank_down {s : State P} (h : s.primary ≠ .active) (hlc : s.lc.activating = false) :
    s.rank = 4 := by
  rw [State.rank, if_neg h, hlc]
  rfl

theorem rank_activating {s : State P} (h : s.primary ≠ .active) (hlc : s.lc.activating = true) :
    s.rank = 3 := by
  rw [State.rank, if_neg h, hlc]
  rfl

/-- Program points of one rung. -/
theorem rank_eq {s t : State P} (hprimary : t.primary = s.primary)
    (hrank : t.lc.rank = s.lc.rank) (hactivating : t.lc.activating = s.lc.activating) :
    t.rank = s.rank := by
  unfold State.rank
  rw [hprimary, hrank, hactivating]

/-- The program point alone bounds the rung from below. -/
theorem le_rank {s : State P} {n : ℕ} (h : n ≤ s.lc.rank) (hn : n ≤ 3) : n ≤ s.rank := by
  unfold State.rank
  split
  · exact h
  · split
    · exact hn
    · omega

theorem act_past_eq_false {a : Act} (h : a.locked = false) : a.past = false := by
  unfold Act.past
  split
  · rename_i g p
    cases p <;> first
      | rfl
      | cases h
  · rfl

theorem ret_past_eq_false {r : Ret} (h : r.locked = false) : r.past = false := by
  unfold Ret.past
  split
  · rename_i id p
    cases p <;> first
      | rfl
      | cases h
  · rfl

theorem abort_goal?_eq (s : State P) (g : Option ℕ) :
    ∃ goals, s.abort_goal? g = { s with goals := goals } := by
  cases g with
  | none => exact ⟨_, rfl⟩
  | some g =>
      rcases s.abort_goal_cases g _ with ⟨st, -, -, heq⟩ | ⟨heq, -⟩
      · exact ⟨_, heq⟩
      · exact ⟨_, heq⟩

/-- `stop_activity` on a node that is down stays at the top. -/
theorem stop_ladder_down {s t : State P} {why : Why} {p : Stop} (h : Ladder s)
    (hp : s.primary ≠ .active) (hlc : s.lc = .stop why p) (hx : stop_step s why p = some t) :
    Ladder t := by
  have hrank : s.rank = 4 := rank_down hp (by rw [hlc]; rfl)
  have top : ∀ u : State P, u.primary = s.primary → u.lc.activating = false → u.act = s.act →
      u.ret = s.ret → (u.lc.locked = true → s.lc.locked = true ∨ s.held = false) →
      (u.accepting_goals_ = false ∨ u.accepting_goals_ = s.accepting_goals_) →
      (u.worker = none ∨ u.worker = s.worker) →
      (u.polling = s.polling ∧ u.reporter = s.reporter) → Ladder u := by
    intro u hu hact h1 h2 h3 h4 h5 h6
    refine h.same_rung ?_ h1 h2 (fun _ => by rw [hu]; exact hp) h3 h4 h5 h6 (.inr (by omega))
    rw [hrank]
    exact rank_down (by rw [hu]; exact hp) hact
  cases p with
  | accepting =>
      cases hx
      exact top _ rfl rfl rfl rfl (unset rfl) (.inl rfl) (.inr rfl) ⟨rfl, rfl⟩
  | release =>
      cases hx
      exact top _ rfl rfl rfl rfl (unset rfl) (.inr rfl) (.inr rfl) ⟨rfl, rfl⟩
  | abort g =>
      cases hx
      obtain ⟨goals, heq⟩ := abort_goal?_eq s g
      rw [heq]
      exact top _ rfl rfl rfl rfl (unset rfl) (.inr rfl) (.inr rfl) ⟨rfl, rfl⟩
  | lock =>
      simp only [stop_step] at hx
      split at hx
      · cases hx
      · rename_i hheld
        cases hx
        exact top _ rfl rfl rfl rfl (fun _ => .inr (Bool.eq_false_iff.mpr hheld)) (.inr rfl)
          (.inr rfl) ⟨rfl, rfl⟩
  | store =>
      cases hx
      exact top _ rfl rfl rfl rfl (fun _ => .inl (by rw [hlc]; rfl)) (.inr rfl) (.inr rfl)
        ⟨rfl, rfl⟩
  | join =>
      obtain ⟨u, hu, rfl⟩ := Option.map_eq_some_iff.mp hx
      obtain ⟨rfl, -⟩ := join_eq_some hu
      exact top _ rfl rfl rfl rfl (fun _ => .inl (by rw [hlc]; rfl)) (.inr rfl) (.inl rfl)
        ⟨rfl, rfl⟩
  | unlock =>
      cases hx
      exact top _ rfl rfl rfl rfl (unset rfl) (.inr rfl) (.inr rfl) ⟨rfl, rfl⟩
  | actuator =>
      obtain ⟨u, hu, rfl⟩ := Option.map_eq_some_iff.mp hx
      obtain ⟨rfl, -⟩ := stop_actuator_eq_some hu
      -- the polling had ended already
      exact top _ rfl rfl rfl rfl (unset rfl) (.inr rfl) (.inr rfl) ⟨(h.polling (by omega)).symm, rfl⟩
  | bond =>
      cases hx
      exact top _ rfl rfl rfl rfl (unset rfl) (.inr rfl) (.inr rfl) ⟨rfl, rfl⟩

/-- **The climb.** -/
theorem stop_ladder_active {s t : State P} {why : Why} {p : Stop} (h : Ladder s)
    (hp : s.primary = .active) (hlc : s.lc = .stop why p) (hx : stop_step s why p = some t) :
    Ladder t := by
  have hrank : s.rank = p.rank := by
    rw [rank_active hp, hlc]
    rfl
  have hacc := h.accepting
  have hpastA := h.act_past
  have hpastR := h.ret_past
  have hworker := h.worker
  have hpolling := h.polling
  have hstopped := h.stopped
  rw [hrank] at hacc hpastA hpastR hworker hpolling hstopped
  cases p with
  | accepting =>
      cases hx
      exact h.of_lc (n := 1) (rank_active hp) rfl rfl (unset rfl) (unset rfl) (fun _ => rfl)
        (above (by decide)) (above (by decide)) (above (by decide)) h.reporter
        fun hs => absurd (hstopped hs) (by decide)
  | release =>
      cases hx
      exact h.of_lc (n := 1) (rank_active hp) rfl rfl (unset rfl) (unset rfl)
        (fun _ => hacc (by decide)) (above (by decide)) (above (by decide)) (above (by decide))
        h.reporter fun hs => absurd (hstopped hs) (by decide)
  | abort g =>
      cases hx
      obtain ⟨goals, heq⟩ := abort_goal?_eq s g
      rw [heq]
      exact h.of_lc (n := 1) (rank_active hp) rfl rfl (unset rfl) (unset rfl)
        (fun _ => hacc le_rfl) (above (by decide)) (above (by decide)) (above (by decide))
        h.reporter fun hs => absurd (hstopped hs) (show ¬ 3 ≤ 1 by decide)
  | lock =>
      simp only [stop_step] at hx
      split at hx
      · cases hx
      · rename_i hheld
        cases hx
        -- whoever is behind the check holds the mutex, and it is free
        have hfree := held_eq_false (Bool.eq_false_iff.mpr hheld)
        exact h.of_lc (n := 2) (rank_active hp) rfl rfl (unset rfl)
          (fun _ => .inr (Bool.eq_false_iff.mpr hheld)) (fun _ => hacc (by decide))
          (fun _ => ⟨act_past_eq_false hfree.1, ret_past_eq_false hfree.2.1⟩)
          (above (by decide)) (above (by decide)) h.reporter
          fun hs => absurd (hstopped hs) (by decide)
  | store =>
      cases hx
      exact h.of_lc (n := 2) (rank_active hp) rfl rfl (unset rfl)
        (fun _ => .inl (by rw [hlc]; rfl)) (fun _ => hacc (by decide))
        (fun _ => ⟨hpastA (by decide), hpastR (by decide)⟩) (above (by decide))
        (above (by decide)) h.reporter fun hs => absurd (hstopped hs) (by decide)
  | join =>
      obtain ⟨u, hu, rfl⟩ := Option.map_eq_some_iff.mp hx
      obtain ⟨rfl, -⟩ := join_eq_some hu
      exact h.of_lc (n := 3) (rank_active hp) rfl rfl (unset rfl)
        (fun _ => .inl (by rw [hlc]; rfl)) (fun _ => hacc (by decide))
        (fun _ => ⟨hpastA (by decide), hpastR (by decide)⟩) (fun _ => rfl) (above (by decide))
        h.reporter fun hs => absurd (hstopped hs) (by decide)
  | unlock =>
      cases hx
      exact h.of_lc (n := 3) (rank_active hp) rfl rfl (unset rfl) (unset rfl)
        (fun _ => hacc (by decide)) (fun _ => ⟨hpastA (by decide), hpastR (by decide)⟩)
        (fun _ => hworker (by decide)) (above (by decide)) h.reporter fun _ => le_rfl
  | actuator =>
      obtain ⟨u, hu, rfl⟩ := Option.map_eq_some_iff.mp hx
      obtain ⟨rfl, hrep⟩ := stop_actuator_eq_some hu
      refine h.of_lc (n := 4) (rank_active hp) rfl rfl (unset rfl) (unset rfl)
        (fun _ => hacc (by decide)) (fun _ => ⟨hpastA (by decide), hpastR (by decide)⟩)
        (fun _ => hworker (by decide)) (fun _ => rfl) ?_ fun _ => (by decide)
      intro hsome
      have hsome : s.reporter.isSome = true := hsome
      rw [hrep] at hsome
      cases hsome
  | bond =>
      cases hx
      exact h.of_lc (n := 4) (rank_active hp) rfl rfl (unset rfl) (unset rfl)
        (fun _ => hacc (by decide)) (fun _ => ⟨hpastA (by decide), hpastR (by decide)⟩)
        (fun _ => hworker (by decide)) (fun _ => hpolling (by decide)) h.reporter
        fun _ => (by decide)

theorem transition_ladder {s t : State P} {tr : Transition P} (h : Ladder s) (hlc : s.lc = .idle)
    (hx : begin_transition s tr = some t) : Ladder t := by
  have quiet : ∀ u : State P, u.rank = s.rank → u.act = s.act → u.ret = s.ret →
      (u.lc.entering = true → u.primary ≠ .active) → u.lc.locked = false →
      u.accepting_goals_ = s.accepting_goals_ → u.worker = s.worker →
      u.polling = s.polling → u.reporter = s.reporter → u.stopped = s.stopped → Ladder u := by
    intro u h1 h2 h3 he h4 h5 h6 h7 h8 h9
    exact h.same_rung h1 h2 h3 he (unset h4) (.inr h5) (.inr h6) ⟨h7, h8⟩ (.inl h9)
  have hidle : s.primary ≠ .active → s.rank = 4 := fun hp => rank_down hp (by rw [hlc]; rfl)
  cases tr with
  | configure cfg =>
      simp only [begin_transition] at hx
      split at hx
      · rename_i hp
        cases hx
        have hp' : s.primary ≠ .active := by
          rw [hp]
          rintro ⟨⟩
        refine quiet _ ?_ rfl rfl (fun _ => hp') ?_ rfl rfl rfl rfl rfl
        · rw [hidle hp']
          refine rank_down hp' ?_
          simp only
          split
          · rfl
          · rfl
        · simp only
          split
          · rfl
          · rfl
      · cases hx
  | activate =>
      simp only [begin_transition] at hx
      split at hx
      · rename_i hp
        cases hx
        have hp' : s.primary ≠ .active := by
          rw [hp]
          rintro ⟨⟩
        have hrank := hidle hp'
        -- polling begins, so the node steps down to rung 3
        exact h.of_lc (n := 3) (rank_activating hp' rfl) rfl rfl (fun _ => hp') (unset rfl)
          (fun _ => h.accepting (by omega))
          (fun _ => ⟨h.act_past (by omega), h.ret_past (by omega)⟩) (fun _ => h.worker (by omega))
          (above (by decide)) (fun _ => rfl) fun _ => le_rfl
      · cases hx
  | deactivate =>
      simp only [begin_transition] at hx
      split at hx
      · rename_i hp
        cases hx
        refine quiet _ ?_ rfl rfl (unset rfl) rfl rfl rfl rfl rfl rfl
        exact rank_eq rfl (by rw [hlc]; rfl) (by rw [hlc]; rfl)
      · cases hx
  | cleanup =>
      simp only [begin_transition] at hx
      split at hx
      · rename_i hp
        cases hx
        refine quiet _ ?_ rfl rfl (unset rfl) rfl rfl rfl rfl rfl rfl
        exact rank_eq rfl (by rw [hlc]; rfl) (by rw [hlc]; rfl)
      · cases hx
  | shutdown =>
      simp only [begin_transition] at hx
      split at hx
      · cases hx
      · cases hx
        refine quiet _ ?_ rfl rfl (unset rfl) rfl rfl rfl rfl rfl rfl
        exact rank_eq rfl (by rw [hlc]; rfl) (by rw [hlc]; rfl)

theorem tick_ladder {s : State P} (h : Ladder s) (hlc : s.lc = .idle) : Ladder (begin_tick s) := by
  unfold begin_tick
  split
  · refine h.same_rung ?_ rfl rfl nofun nofun (.inr rfl) (.inr rfl) ⟨rfl, rfl⟩ (.inl rfl)
    exact rank_eq rfl (by rw [hlc]; rfl) (by rw [hlc]; rfl)
  · exact h

theorem Ladder.stays_down {s t : State P} (h : Ladder s) (hrank : s.rank = 4)
    (hp : t.primary ≠ .active) (hlc : t.lc.activating = false) (hlock : t.lc.locked = false)
    (hact : t.act = s.act) (hret : t.ret = s.ret) (hacc : t.accepting_goals_ = s.accepting_goals_)
    (hworker : t.worker = s.worker) (hpoll : t.polling = s.polling)
    (hrep : t.reporter = s.reporter) (hstopped : t.stopped = s.stopped) : Ladder t := by
  refine h.same_rung ?_ hact hret (fun _ => hp) (by rw [hlock]; nofun) (.inr hacc) (.inr hworker)
    ⟨hpoll, hrep⟩ (.inl hstopped)
  rw [hrank]
  exact rank_down hp hlc

theorem after_ladder {s : State P} {why : Why} (h : Ladder s) (hlc : s.lc = .after why) :
    Ladder (after_stop s why) := by
  have hrank : s.rank = 4 := by
    by_cases hp : s.primary = .active
    · rw [rank_active hp, hlc]
      rfl
    · exact rank_down hp (by rw [hlc]; rfl)
  -- the node is down in whatever state the transition leaves it
  cases why with
  | deactivate tick =>
      simp only [after_stop]
      split
      · exact h.stays_down hrank (by rintro ⟨⟩) rfl rfl rfl rfl rfl rfl rfl rfl rfl
      · exact h.stays_down hrank (by rintro ⟨⟩) rfl rfl rfl rfl rfl rfl rfl rfl rfl
  | cleanup | error | configure | shutdown =>
      exact h.stays_down hrank (by rintro ⟨⟩) rfl rfl rfl rfl rfl rfl rfl rfl rfl

/-- An activation that fails stops the actuator again. -/
theorem start_failed {s u : State P} (h : Ladder s) (hp : s.primary ≠ .active) (hrank : s.rank = 3)
    (hu : stop_actuator s = some u) : Ladder { u with lc := .idle } := by
  obtain ⟨rfl, hrep⟩ := stop_actuator_eq_some hu
  refine h.of_lc (rank_down hp rfl) rfl rfl nofun nofun (fun _ => h.accepting (by omega))
    (fun _ => ⟨h.act_past (by omega), h.ret_past (by omega)⟩) (fun _ => h.worker (by omega))
    (fun _ => rfl) ?_ fun _ => by decide
  intro hsome
  have hsome : s.reporter.isSome = true := hsome
  rw [hrep] at hsome
  cases hsome

theorem lc_ladder {s t : State P} {i : LcInput} (h : Ladder s) (hx : lc_step s i = some t) :
    Ladder t := by
  have hentering := h.entering
  unfold lc_step at hx
  cases hlc : s.lc <;> simp only [hlc] at hx hentering
  case idle => cases hx
  case stop why p =>
    by_cases hp : s.primary = .active
    · exact stop_ladder_active h hp hlc hx
    · exact stop_ladder_down h hp hlc hx
  case after why =>
    cases hx
    exact after_ladder h hlc
  case factory =>
    have hp := hentering rfl
    have hrank : s.rank = 4 := rank_down hp (by rw [hlc]; rfl)
    split at hx
    · cases hx
      exact h.stays_down hrank nofun rfl rfl rfl rfl rfl rfl rfl rfl rfl
    · cases hx
      exact h.stays_down hrank hp rfl rfl rfl rfl rfl rfl rfl rfl rfl
    · cases hx
      exact h.stays_down hrank hp rfl rfl rfl rfl rfl rfl rfl rfl rfl
    · cases hx
  case start =>
    have hp := hentering rfl
    have hrank : s.rank = 3 := rank_activating hp (by rw [hlc]; rfl)
    split at hx
    · cases hx
      refine h.same_rung ?_ rfl rfl (fun _ => hp) nofun (.inr rfl) (.inr rfl) ⟨rfl, rfl⟩ (.inl rfl)
      rw [hrank]
      exact rank_activating hp rfl
    · obtain ⟨u, hu, rfl⟩ := Option.map_eq_some_iff.mp hx
      exact start_failed h hp hrank hu
    · cases hx
  case bond =>
    have hp := hentering rfl
    have hrank : s.rank = 3 := rank_activating hp (by rw [hlc]; rfl)
    split at hx
    · rename_i ok
      cases hx
      cases ok with
      | true | false =>
          refine h.same_rung ?_ rfl rfl (fun _ => hp) nofun (.inr rfl) (.inr rfl) ⟨rfl, rfl⟩
            (.inl rfl)
          rw [hrank]
          exact rank_activating hp rfl
    · cases hx
  case bond_failed =>
    have hp := hentering rfl
    have hrank : s.rank = 3 := rank_activating hp (by rw [hlc]; rfl)
    obtain ⟨u, hu, rfl⟩ := Option.map_eq_some_iff.mp hx
    exact start_failed h hp hrank hu
  case accept =>
    cases hx
    -- the node accepts again: the lowest rung promises nothing
    exact h.of_lc (n := 0) (rank_active rfl) rfl rfl nofun nofun nofun nofun nofun nofun h.reporter
      nofun
  case tick_accepting =>
    cases hx
    by_cases hp : s.primary = .active
    · have hrank : s.rank = 0 := by
        rw [rank_active hp, hlc]
        rfl
      exact h.of_lc (n := 1) (rank_active hp) rfl rfl nofun nofun (fun _ => rfl) nofun nofun nofun
        h.reporter fun hs => absurd (h.stopped hs) (by omega)
    -- a node that is down stays at the top
    · refine h.same_rung ?_ rfl rfl nofun nofun (.inl rfl) (.inr rfl) ⟨rfl, rfl⟩ (.inl rfl)
      rw [rank_down hp (by rw [hlc]; rfl)]
      exact rank_down hp rfl
  case tick_state =>
    by_cases hp : s.primary = .active
    · rw [if_pos hp] at hx
      cases hx
      refine h.same_rung ?_ rfl rfl nofun nofun (.inr rfl) (.inr rfl) ⟨rfl, rfl⟩ (.inl rfl)
      exact rank_eq rfl (by rw [hlc]; rfl) (by rw [hlc]; rfl)
    · rw [if_neg hp] at hx
      cases hx
      refine h.same_rung ?_ rfl rfl nofun nofun (.inr rfl) (.inr rfl) ⟨rfl, rfl⟩ (.inl rfl)
      rw [rank_down hp (by rw [hlc]; rfl)]
      exact rank_down hp rfl
  case tick_flag =>
    cases hx
    by_cases hp : s.primary = .active
    · have hrank : s.rank = 1 := by
        rw [rank_active hp, hlc]
        rfl
      exact h.of_lc (n := 0) (rank_active hp) rfl rfl nofun nofun nofun nofun nofun nofun
        h.reporter fun hs => absurd (h.stopped hs) (by omega)
    · refine h.same_rung ?_ rfl rfl nofun nofun (.inr rfl) (.inr rfl) ⟨rfl, rfl⟩ (.inl rfl)
      rw [rank_down hp (by rw [hlc]; rfl)]
      exact rank_down hp rfl
  case tick_abort g =>
    cases hx
    obtain ⟨goals, heq⟩ := abort_goal?_eq s g
    rw [heq]
    refine h.same_rung ?_ rfl rfl nofun nofun (.inr rfl) (.inr rfl) ⟨rfl, rfl⟩ (.inl rfl)
    exact rank_eq rfl (by rw [hlc]; rfl) (by rw [hlc]; rfl)
  -- the rest of the tick touches nothing of the ladder
  all_goals
    cases hx
    refine h.same_rung ?_ rfl rfl nofun nofun (.inr rfl) (.inr rfl) ⟨rfl, rfl⟩ (.inl rfl)
    exact rank_eq rfl (by rw [hlc]; rfl) (by rw [hlc]; rfl)

/-! ## Every step -/

theorem raw_step_ladder {s t : State P} {e : Event P} (h : Ladder s)
    (hx : raw_step s e = some t) : Ladder t := by
  have quiet : ∀ u : State P, u.lc = s.lc → u.primary = s.primary → u.stopped = s.stopped →
      u.accepting_goals_ = s.accepting_goals_ → u.act = s.act → u.ret = s.ret →
      u.worker = s.worker → u.polling = s.polling → u.reporter = s.reporter → Ladder u := by
    intro u h1 h2 h3 h4 h5 h6 h7 h8 h9
    exact h.minds (.of_eq h h1 h2 h3 (by rw [h4]; exact id) h5 h6 (by rw [h7]; exact id) h8 h9)
  cases happens hx with
  | @goal_request r _ _ =>
      have hreq := goal_callback_cases s r
      generalize goal_callback s r = t at hreq
      cases hreq with
      | ignored => exact h
      | rejected _ => exact quiet _ rfl rfl rfl rfl rfl rfl rfl rfl rfl
      | accepted _ =>
          exact h.minds ⟨rfl, rfl, rfl, id, nofun, .inl, .inl, nofun, .inl, id, h.reporter⟩
  | act hx => exact h.minds (act_minds h (act_cases hx))
  | return_request _ =>
      unfold WavemakerNode.return_request
      -- a new request is not behind the check, whether it is taken or refused at once
      split
      · exact h.minds ⟨rfl, rfl, rfl, id, .inl, nofun, .inl, .inl, nofun, id, h.reporter⟩
      · exact h.minds ⟨rfl, rfl, rfl, id, .inl, nofun, .inl, .inl, nofun, id, h.reporter⟩
  | ret hx => exact h.minds (ret_minds h (ret_cases hx))
  | worker hx => exact h.minds (worker_minds h (worker_cases hx))
  | transition hlc hx => exact transition_ladder h hlc hx
  | tick hlc => exact tick_ladder h hlc
  | lc hx => exact lc_ladder h hx
  | fault hpoll _ =>
      exact h.minds ⟨rfl, rfl, rfl, id, .inl, .inl, .inl, .inl, .inl, id, fun _ => hpoll⟩
  | report _ => exact h.minds ⟨rfl, rfl, rfl, id, .inl, .inl, .inl, .inl, .inl, id, nofun⟩
  | cancel _ _ | soft_stop | clock | context_shutdown =>
      exact quiet _ rfl rfl rfl rfl rfl rfl rfl rfl rfl

theorem step_eq_some {s t : State P} {e : Event P} (h : step s e = some t) :
    ∃ u, raw_step s e = some u ∧ t = reap u := by
  obtain ⟨u, hu, rfl⟩ := Option.map_eq_some_iff.mp h
  exact ⟨u, hu, rfl⟩

/-- Dropping handles changes the goals only. -/
theorem Ladder.reap {s : State P} (h : Ladder s) : Ladder (reap s) :=
  ⟨h.entering, h.accepting, h.act_past, h.ret_past, h.worker, h.polling, h.reporter, h.stopped,
    h.act_ret, h.act_lc, h.ret_lc⟩

theorem step_ladder {s t : State P} {e : Event P} (h : Ladder s) (hs : step s e = some t) :
    Ladder t := by
  obtain ⟨u, hu, rfl⟩ := step_eq_some hs
  exact (raw_step_ladder h hu).reap

theorem init_ladder {s : State P} (h : Init s) : Ladder s := by
  obtain ⟨hacc, -, -, -, -, -, -, -, -, -, -, hprimary, -, -, hpoll, -, -, -, hact, hret, hworker,
    hlc, hrep, hstopped, -⟩ := h
  refine ⟨?_, fun _ => hacc, ?_, ?_, fun _ => hworker, fun _ => hpoll, ?_, ?_, ?_, ?_, ?_⟩
  · rw [hprimary]
    nofun
  · rw [hact]
    exact fun _ => rfl
  · rw [hret]
    exact fun _ => rfl
  · rw [hrep]
    nofun
  · rw [hstopped]
    nofun
  · rw [hact]
    nofun
  · rw [hact]
    nofun
  · rw [hret]
    nofun

theorem reach_ladder {C : State P → Event P → Prop} {s : State P} (h : Reach step C Init s) :
    Ladder s :=
  h.invariant (fun _ => init_ladder) fun _ _ _ hi _ hs => step_ladder hi hs

/-! ## Nothing moves -/

/-- The program point of a call of `start_execution`. -/
def Starting (s : State P) (p : Start) : Prop :=
  (∃ g, s.act = .start g p) ∨ ∃ id, s.ret = .start id p

/-- The step calls `write_setpoint`. -/
def writes_setpoint (s : State P) : Event P → Bool
  | .worker _ =>
      match s.worker with
      | some (.goal _ (.write _ _ _)) | some (.return_to_upright _ .write) => true
      | _ => false
  | _ => false

/-- **Nothing moves after `stop_activity`.** From its return to the next
activation there is no worker, a call of `start_execution` fails its check, no
call stands behind a check it passed, and `write_setpoint` is not called. -/
theorem nothing_moves_after_stop {s : State P} (h : Reach step Any Init s)
    (hstopped : s.stopped = true) :
    s.worker = none ∧ s.accepting_goals_ = false ∧ (∀ p, Starting s p → p.past = false) ∧
      ∀ e, writes_setpoint s e = false := by
  have hladder := reach_ladder h
  have hrank := hladder.stopped hstopped
  have hworker := hladder.worker hrank
  refine ⟨hworker, hladder.accepting (by omega), ?_, ?_⟩
  · rintro p (⟨g, hg⟩ | ⟨id, hid⟩)
    · have hpast := hladder.act_past (by omega)
      rw [hg] at hpast
      exact hpast
    · have hpast := hladder.ret_past (by omega)
      rw [hid] at hpast
      exact hpast
  · intro e
    cases e with
    | worker i => simp only [writes_setpoint, hworker]
    | _ => rfl

/-- A goal stands in front of `start_execution` when the node is deactivated;
its call finds the node stopped. -/
theorem stopped_before_the_start :
    ∃ s : State bench, Reach step Any Init s ∧ s.stopped = true ∧ Starting s .lock ∧
      s.worker = none ∧ s.accepting_goals_ = false := by
  have heval : ((run step constructed (boot ++ [requests 0 (1 / 2), .act, .transition .deactivate] ++
      stops)).map fun s => (s.stopped, s.act)) = some (true, .start 0 .lock) := by
    decide +kernel
  obtain ⟨s, hrun, hval⟩ := Option.map_eq_some_iff.mp heval
  obtain ⟨hstopped, hact⟩ := Prod.mk.inj hval
  have hreach : Reach step Any Init s := .run (.init constructed_init) hrun
  obtain ⟨hworker, hacc, -, -⟩ := nothing_moves_after_stop hreach hstopped
  exact ⟨s, hreach, hstopped, .inl ⟨0, hact⟩, hworker, hacc⟩

end WavemakerNode
