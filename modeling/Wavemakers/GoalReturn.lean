/-
Goals and returns exclude each other.

A goal is claimed by `goal_pending_` from its acceptance to
`handle_accepted_callback`, and by `goal_handle_` from there until its worker
gives it up; a return claims the controller by `returning_to_upright_`. `Claims`
says how far the claims reach, in the terms of the program points: while the
node accepts goals, a request that is being handled is named by `goal_pending_`
or `goal_handle_`, and so is the goal of a worker that has not given it up.

The claims have three holes, and `StepOk` keeps the other threads out of them.
Every exit of `execute_goal` but the success gives up `goal_handle_` before it
ends the goal, and a return that comes in between finds nothing claimed. The
success ends the goal first, and its last section then clears the
`goal_pending_` of a goal that was accepted in between. And a request that is
being handled while the node is stopped and activated again has lost its claim.
-/
import Wavemakers.NodeGoals

set_option autoImplicit false

namespace WavemakerNode.GoalReturn

open Interleave

variable {P : Plant}

/-! ## The condition -/

/-- The worker has given up its goal and not ended it. -/
def releasing : Option Worker → Bool
  | some (.goal _ pc) => pc.releasing
  | _ => false

/-- The worker has ended its goal and not given it up. -/
def retiring : Option Worker → Bool
  | some (.goal _ .succeed_release) => true
  | _ => false

/-- The step claims the controller for a return. -/
def claims_return (s : State P) : Event P → Bool
  | .return_request r => (return_check s r).isNone
  | _ => false

/-- The step accepts a goal. -/
def accepts_goal (s : State P) : Event P → Bool
  | .goal_request r => accepts s r
  | _ => false

/-- The condition on a step: a return is not claimed, a goal not accepted and the
node not activated inside one of the three holes. -/
def StepOk (s : State P) (e : Event P) : Prop :=
  (claims_return s e = true → releasing s.worker = false) ∧
    (accepts_goal s e = true → retiring s.worker = false) ∧
    (activates s e = true → s.act = .idle)

instance (s : State P) (e : Event P) : Decidable (StepOk s e) :=
  inferInstanceAs (Decidable ((_ → _) ∧ (_ → _) ∧ (_ → _)))

/-! ## The claims -/

/-- Not in a terminal state. -/
abbrev Alive (st : Option GoalStatus) : Prop := st.any GoalStatus.is_active = true

/-- In `start_execution`, before it is decided. -/
def starting : Act → Option ℕ
  | .start _ (.unlock _) => none
  | .start g _ => some g
  | _ => none

/-- The request that may be named by `goal_handle_`. -/
def named : Act → Option ℕ
  | .start _ (.unlock true) => none
  | .start g _ | .refused g => some g
  | _ => none

/-- What the worker's program point says of its goal's claim and state. -/
structure Phase (accepting : Bool) (handle : Option ℕ) (st : Option GoalStatus) (g : ℕ)
    (pc : GoalPc) : Prop where
  held : handle = some g → pc.owns = true ∨ pc = .succeed_release
  owner : pc.owns = true → accepting = true → handle = some g ∧ Alive st
  succeeded : pc = .succeed_release → ¬ Alive st
  cancels : pc.cancels = true → accepting = true → st = some .canceling
  fails : pc.fails = true → accepting = false

structure Claims (accepting pending returning : Bool) (handle : Option ℕ) (act : Act)
    (worker : Option Worker) (status : ℕ → Option GoalStatus) : Prop where
  excluded : returning = true → pending = false ∧ ∀ g, ¬ Alive (status g)
  pends : pending = true → handle = none ∧ ∃ g, act = .handle g
  names : ∀ g, handle = some g → named act = some g ∨ ∃ pc, worker = some (.goal g pc)
  waiting : accepting = true → ∀ g, act.waiting = some g →
    act = .handle g ∧ pending = true ∨ starting act = some g ∧ handle = some g
  started : ∀ g, act = .start g (.unlock true) → Alive (status g) →
    ∃ pc, worker = some (.goal g pc)
  phase : ∀ g pc, worker = some (.goal g pc) → Phase accepting handle (status g) g pc

abbrev State.Claims (s : State P) : Prop :=
  GoalReturn.Claims s.accepting_goals_ s.goal_pending_ s.returning_to_upright_ s.goal_handle_
    s.act s.worker s.status

section Change

variable {a p r : Bool} {hd : Option ℕ} {act : Act} {w : Option Worker}
  {st : ℕ → Option GoalStatus}

theorem Phase.refuse {g : ℕ} {pc : GoalPc} {x : Option GoalStatus} (h : Phase a hd x g pc) :
    Phase false hd x g pc :=
  ⟨h.held, nofun, h.succeeded, nofun, fun _ => rfl⟩

/-- `accepting_goals_` is cleared. -/
theorem Claims.refuse (h : Claims a p r hd act w st) : Claims false p r hd act w st :=
  ⟨h.excluded, h.pends, h.names, nofun, h.started, fun g pc hw => (h.phase g pc hw).refuse⟩

/-- `abort_active_goal` takes the goal of a node that does not accept goals. -/
theorem Claims.take (h : Claims false p r hd act w st) : Claims false false r none act w st := by
  refine ⟨fun hr => ⟨rfl, (h.excluded hr).2⟩, nofun, nofun, nofun, h.started, ?_⟩
  intro g pc hw
  have hphase := h.phase g pc hw
  exact ⟨nofun, nofun, hphase.succeeded, nofun, hphase.fails⟩

/-- The node is activated with nothing under way. -/
theorem Claims.activate (h : Claims a p r hd .idle none st) : Claims true p r hd .idle none st :=
  ⟨h.excluded, h.pends, h.names, nofun, h.started, nofun⟩

/-- A return gives back its claim. -/
theorem Claims.give_back (h : Claims a p r hd act w st) : Claims a p false hd act w st :=
  ⟨nofun, h.pends, h.names, h.waiting, h.started, h.phase⟩

/-- The worker, not a goal's, is replaced by another that is not a goal's. -/
theorem Claims.no_goal (h : Claims a p r hd act w st) {w' : Option Worker}
    (hw : ∀ g pc, w ≠ some (.goal g pc)) (hw' : ∀ g pc, w' ≠ some (.goal g pc)) :
    Claims a p r hd act w' st := by
  refine ⟨h.excluded, h.pends, ?_, h.waiting, ?_, ?_⟩
  · intro g hg
    rcases h.names g hg with hn | ⟨pc, hpc⟩
    · exact .inl hn
    · exact absurd hpc (hw g pc)
  · intro g hg halive
    obtain ⟨pc, hpc⟩ := h.started g hg halive
    exact absurd hpc (hw g pc)
  · intro g pc hpc
    exact absurd hpc (hw' g pc)

/-- Goals end, and the worker's goal keeps its phase. -/
theorem Claims.restatus (h : Claims a p r hd act w st) {st' : ℕ → Option GoalStatus}
    (hdown : ∀ g, Alive (st' g) → Alive (st g))
    (hphase : ∀ g pc, w = some (.goal g pc) → Phase a hd (st g) g pc → Phase a hd (st' g) g pc) :
    Claims a p r hd act w st' := by
  refine ⟨?_, h.pends, h.names, h.waiting, ?_, ?_⟩
  · intro hr
    obtain ⟨hp, hg⟩ := h.excluded hr
    exact ⟨hp, fun g halive => hg g (hdown g halive)⟩
  · intro g hg halive
    exact h.started g hg (hdown g halive)
  · intro g pc hw
    exact hphase g pc hw (h.phase g pc hw)

/-- A step of a goal's worker. It may clear `accepting_goals_`, give up its own
goal and change its goal's state, and it goes on in a phase or ends. -/
theorem Claims.work {g : ℕ} {pc : GoalPc} (h : Claims a p r hd act (some (.goal g pc)) st)
    (hg : act.waiting ≠ some g) {a' p' : Bool} {hd' : Option ℕ} {w' : Option Worker}
    {st' : ℕ → Option GoalStatus} (ha : a' = true → a = true)
    (hclaim : hd' = hd ∧ p' = p ∨ hd = some g ∧ hd' = none ∧ p' = false)
    (hother : ∀ k, k ≠ g → st' k = st k) (hdown : Alive (st' g) → Alive (st g))
    (hw' : (∃ pc', w' = some (.goal g pc') ∧ Phase a' hd' (st' g) g pc') ∨
      w' = some .finished ∧ hd' ≠ some g ∧ ¬ Alive (st' g)) :
    Claims a' p' r hd' act w' st' := by
  have hdown' : ∀ k, Alive (st' k) → Alive (st k) := by
    intro k hk
    by_cases hkg : k = g
    · subst hkg
      exact hdown hk
    · rw [hother k hkg] at hk
      exact hk
  -- the claim of another goal is not touched
  have hkeep : ∀ k, k ≠ g → hd = some k → hd' = hd ∧ p' = p := by
    intro k hkg hk
    rcases hclaim with heq | ⟨heq, -, -⟩
    · exact heq
    · rw [hk] at heq
      exact absurd (Option.some.inj heq) hkg
  refine ⟨?_, ?_, ?_, ?_, ?_, ?_⟩
  · intro hr
    obtain ⟨hp, hdead⟩ := h.excluded hr
    refine ⟨?_, fun k hk => hdead k (hdown' k hk)⟩
    rcases hclaim with ⟨-, heq⟩ | ⟨-, -, heq⟩
    · rw [heq]
      exact hp
    · exact heq
  · intro hp
    rcases hclaim with ⟨heq, heq'⟩ | ⟨-, -, heq⟩
    · rw [heq]
      rw [heq'] at hp
      exact h.pends hp
    · rw [heq] at hp
      cases hp
  · intro k hk
    rcases hclaim with ⟨heq, -⟩ | ⟨-, heq, -⟩
    · rw [heq] at hk
      rcases h.names k hk with hn | ⟨pc₀, hw⟩
      · exact .inl hn
      · cases hw
        rcases hw' with ⟨pc', hw', -⟩ | ⟨-, hne, -⟩
        · exact .inr ⟨pc', hw'⟩
        · rw [heq] at hne
          exact absurd hk hne
    · rw [heq] at hk
      cases hk
  · intro hacc k hk
    have hkg : k ≠ g := by
      rintro rfl
      exact hg hk
    rcases h.waiting (ha hacc) k hk with ⟨hact, hp⟩ | ⟨hact, hhd⟩
    · refine .inl ⟨hact, ?_⟩
      rcases hclaim with ⟨-, heq⟩ | ⟨heq, -, -⟩
      · rw [heq]
        exact hp
      · rw [(h.pends hp).1] at heq
        cases heq
    · refine .inr ⟨hact, ?_⟩
      rw [(hkeep k hkg hhd).1]
      exact hhd
  · intro k hk halive
    obtain ⟨pc₀, hw⟩ := h.started k hk (hdown' k halive)
    cases hw
    rcases hw' with ⟨pc', hw', -⟩ | ⟨-, -, hdead⟩
    · exact ⟨pc', hw'⟩
    · exact absurd halive hdead
  · intro k pc₀ hk
    rcases hw' with ⟨pc', hw', hphase⟩ | ⟨hw', -, -⟩
    · rw [hw'] at hk
      cases hk
      exact hphase
    · rw [hw'] at hk
      cases hk

end Change

/-! ## Requests -/

theorem starting_start {g : ℕ} {p : Start} (h : ∀ b, p ≠ .unlock b) :
    starting (.start g p) = some g ∧ named (.start g p) = some g ∧
      Act.waiting (.start g p) = some g := by
  cases p with
  | unlock b => exact absurd rfl (h b)
  | _ => exact ⟨rfl, rfl, rfl⟩

section Requests

variable {a p r : Bool} {hd : Option ℕ} {w : Option Worker} {st : ℕ → Option GoalStatus} {g : ℕ}

/-- The section of `handle_accepted_callback` in a node that accepts goals. -/
theorem Claims.handled (h : Claims true p r hd (.handle g) w st)
    (hg : ∀ pc, w ≠ some (.goal g pc)) : Claims true false r (some g) (.start g .lock) w st := by
  -- the goal is pending, so `goal_handle_` is free
  have hpending : p = true := by
    rcases h.waiting rfl g rfl with ⟨-, hp⟩ | ⟨hs, -⟩
    · exact hp
    · cases hs
  have hfree := (h.pends hpending).1
  refine ⟨fun hr => ⟨rfl, (h.excluded hr).2⟩, nofun, ?_, ?_, nofun, ?_⟩
  · intro k hk
    cases hk
    exact .inl rfl
  · intro _ k hk
    cases hk
    exact .inr ⟨rfl, rfl⟩
  · intro k pc hw
    have hphase := h.phase k pc hw
    have howns : pc.owns = false := by
      by_contra hne
      rw [Bool.not_eq_false] at hne
      have := (hphase.owner hne rfl).1
      rw [hfree] at this
      cases this
    refine ⟨?_, ?_, hphase.succeeded, hphase.cancels, hphase.fails⟩
    · intro hk
      cases hk
      exact absurd hw (hg pc)
    · intro hne
      rw [howns] at hne
      cases hne

theorem Claims.declined (h : Claims false p r hd (.handle g) w st) :
    Claims false false r hd (.abort g) w st := by
  refine ⟨fun hr => ⟨rfl, (h.excluded hr).2⟩, nofun, ?_, nofun, nofun, h.phase⟩
  intro k hk
  rcases h.names k hk with hn | hw
  · cases hn
  · exact .inr hw

/-- `start_execution` goes on and has not decided. -/
theorem Claims.goes_on {x : Start} (h : Claims a p r hd (.start g x) w st) (y : Start)
    (hx : ∀ b, x ≠ .unlock b) (hy : ∀ b, y ≠ .unlock b) : Claims a p r hd (.start g y) w st := by
  obtain ⟨hsx, hnx, hwx⟩ := starting_start (g := g) hx
  obtain ⟨hsy, hny, hwy⟩ := starting_start (g := g) hy
  refine ⟨h.excluded, ?_, ?_, ?_, ?_, h.phase⟩
  · intro hp
    obtain ⟨-, k, hk⟩ := h.pends hp
    cases hk
  · intro k hk
    rw [hny, ← hnx]
    exact h.names k hk
  · intro hacc k hk
    rw [hwy, ← hwx] at hk
    rcases h.waiting hacc k hk with ⟨hk, -⟩ | ⟨hs, hhd⟩
    · cases hk
    · rw [hsy, ← hsx]
      exact .inr ⟨hs, hhd⟩
  · intro k hk
    cases hk
    exact absurd rfl (hy true)

/-- The check of `start_execution` fails. -/
theorem Claims.refused (h : Claims false p r hd (.start g .check) w st) :
    Claims false p r hd (.start g (.unlock false)) w st := by
  refine ⟨h.excluded, ?_, h.names, nofun, nofun, h.phase⟩
  intro hp
  obtain ⟨-, k, hk⟩ := h.pends hp
  cases hk

/-- The worker of the request is spawned. -/
theorem Claims.spawned (h : Claims a p r hd (.start g .spawn) none st) (hst : Alive (st g)) :
    Claims a p r hd (.start g (.unlock true)) (some (.goal g .execute)) st := by
  refine ⟨h.excluded, ?_, ?_, nofun, ?_, ?_⟩
  · intro hp
    obtain ⟨-, k, hk⟩ := h.pends hp
    cases hk
  · intro k hk
    rcases h.names k hk with hn | ⟨pc, hw⟩
    · cases hn
      exact .inr ⟨_, rfl⟩
    · cases hw
  · intro k hk _
    cases hk
    exact ⟨_, rfl⟩
  · intro k pc hw
    cases hw
    refine ⟨fun _ => .inl rfl, fun _ hacc => ⟨?_, hst⟩, nofun, nofun, nofun⟩
    rcases h.waiting hacc g rfl with ⟨hk, -⟩ | ⟨-, hhd⟩
    · cases hk
    · exact hhd

theorem Claims.done (h : Claims a p r hd (.start g (.unlock true)) w st) :
    Claims a p r hd .idle w st := by
  refine ⟨h.excluded, ?_, h.names, nofun, nofun, h.phase⟩
  intro hp
  obtain ⟨-, k, hk⟩ := h.pends hp
  cases hk

/-- Nobody is refused by a node that accepts goals. -/
theorem Claims.not_accepting {act : Act} (h : Claims a p r hd act w st)
    (hact : act.waiting = some g) (hs : starting act = none) (hne : act ≠ .handle g) :
    a = false := by
  by_contra ha
  rw [Bool.not_eq_false] at ha
  rcases h.waiting ha g hact with ⟨heq, -⟩ | ⟨heq, -⟩
  · exact hne heq
  · rw [hs] at heq
    cases heq

theorem Claims.turns_back (h : Claims a p r hd (.start g (.unlock false)) w st) :
    Claims a p r hd (.refused g) w st := by
  have ha := h.not_accepting rfl rfl nofun
  subst ha
  refine ⟨h.excluded, ?_, h.names, nofun, nofun, h.phase⟩
  intro hp
  obtain ⟨-, k, hk⟩ := h.pends hp
  cases hk

theorem Claims.gives_up (h : Claims a p r hd (.refused g) w st) :
    Claims a p r (if hd = some g then none else hd) (.abort g) w st := by
  have ha := h.not_accepting rfl rfl nofun
  subst ha
  have hsub : ∀ k, (if hd = some g then none else hd) = some k → hd = some k ∧ k ≠ g := by
    intro k hk
    split at hk
    · cases hk
    · rename_i hne
      refine ⟨hk, ?_⟩
      rintro rfl
      exact hne hk
  refine ⟨h.excluded, ?_, ?_, nofun, nofun, ?_⟩
  · intro hp
    obtain ⟨-, k, hk⟩ := h.pends hp
    cases hk
  · intro k hk
    obtain ⟨hk, hne⟩ := hsub k hk
    rcases h.names k hk with hn | hw
    · cases hn
      exact absurd rfl hne
    · exact .inr hw
  · intro k pc hw
    have hphase := h.phase k pc hw
    exact ⟨fun hk => hphase.held (hsub k hk).1, nofun, hphase.succeeded, nofun, hphase.fails⟩

theorem Claims.dropped (h : Claims a p r hd (.abort g) w st) : Claims a p r hd .idle w st := by
  refine ⟨h.excluded, ?_, ?_, nofun, nofun, h.phase⟩
  · intro hp
    obtain ⟨-, k, hk⟩ := h.pends hp
    cases hk
  · intro k hk
    rcases h.names k hk with hn | hw
    · cases hn
    · exact .inr hw

end Requests

theorem act_claims {s t : State P} (hu : s.UnderWay) (hj : Joined s) (h : State.Claims s)
    (hx : Acted s t) : State.Claims t := by
  unfold State.Claims at h
  cases hx with
  | @accept g hp ha =>
      rw [hp, ha] at h
      show Claims s.accepting_goals_ _ _ _ _ _ _
      rw [ha]
      -- no worker plays the goal that the callback takes
      refine h.handled fun pc hw => ?_
      exact hu.not_waiting hw (by rw [hp]; rfl)
  | @decline g hp ha =>
      rw [hp, ha] at h
      show Claims s.accepting_goals_ _ _ _ _ _ _
      rw [ha]
      exact h.declined
  | @started g hp =>
      rw [hp] at h
      exact h.done
  | @refused g hp =>
      rw [hp] at h
      exact h.turns_back
  | @give_up g hp =>
      rw [hp] at h
      exact h.gives_up
  | @abort g m hp _ =>
      rw [abort_waiting hu (by rw [hp]; rfl)]
      rw [hp] at h
      exact h.dropped
  | @starts g p q u hp hs =>
      rw [hp] at h
      cases hs with
      | lock _ => exact h.goes_on .store nofun nofun
      | store => exact h.goes_on .join nofun nofun
      | pass _ => exact h.goes_on .clear nofun nofun
      | clear => exact h.goes_on .spawn nofun nofun
      | join hw =>
          refine (h.goes_on .check nofun nofun).no_goal ?_ nofun
          rcases hw with hw | hw
          · rw [hw]
            nofun
          · rw [hw]
            nofun
      | refuse ha =>
          rw [ha] at h
          show Claims s.accepting_goals_ _ _ _ _ _ _
          rw [ha]
          exact h.refused
      | spawn =>
          -- the old worker was joined on the way here
          rw [hj.act g _ hp rfl] at h
          refine h.spawned ?_
          rw [hu.waiting g (by rw [hp]; rfl)]
          rfl

theorem ret_claims {s t : State P} (hj : Joined s) (h : State.Claims s) (hx : Returned s t) :
    State.Claims t := by
  cases hx with
  | started _ => exact h
  | refused _ => exact h
  | give_back _ => exact Claims.give_back h
  | respond _ => exact h
  | @starts id p q u hp hs =>
      cases hs with
      | lock _ => exact h
      | store => exact h
      | pass _ => exact h
      | refuse _ => exact h
      | clear => exact h
      | join hw =>
          refine Claims.no_goal h ?_ nofun
          rcases hw with hw | hw
          · rw [hw]
            nofun
          · rw [hw]
            nofun
      | spawn =>
          refine Claims.no_goal h ?_ nofun
          rw [hj.ret id _ hp rfl]
          nofun

/-! ## The worker -/

section Phases

variable {a : Bool} {hd : Option ℕ} {x : Option GoalStatus} {g : ℕ} {pc : GoalPc}

theorem owns_spec (h : pc.owns = true) : pc ≠ .succeed_release ∧ pc.fails = false := by
  cases pc with
  | fail_reason m => cases h
  | fail_store m => cases h
  | fail_stop m => cases h
  | fail_abort m => cases h
  | succeed_release => cases h
  | _ => exact ⟨nofun, rfl⟩

theorem releasing_spec (h : pc.releasing = true) : pc.owns = false ∧ pc ≠ .succeed_release := by
  cases pc with
  | finish e => exact ⟨rfl, nofun⟩
  | fail_reason m => exact ⟨rfl, nofun⟩
  | fail_store m => exact ⟨rfl, nofun⟩
  | fail_stop m => exact ⟨rfl, nofun⟩
  | fail_abort m => exact ⟨rfl, nofun⟩
  | _ => cases h

theorem Phase.of_owns (howns : pc.owns = true) (howner : a = true → hd = some g ∧ Alive x)
    (hcancels : pc.cancels = true → a = true → x = some .canceling) : Phase a hd x g pc := by
  obtain ⟨hne, hfails⟩ := owns_spec howns
  refine ⟨fun _ => .inl howns, fun _ => howner, fun heq => absurd heq hne, hcancels, ?_⟩
  intro hf
  rw [hfails] at hf
  cases hf

theorem Phase.of_releasing (hrel : pc.releasing = true) (hfree : hd ≠ some g)
    (hcancels : pc.cancels = true → a = true → x = some .canceling)
    (hfails : pc.fails = true → a = false) : Phase a hd x g pc := by
  obtain ⟨howns, hne⟩ := releasing_spec hrel
  refine ⟨fun hg => absurd hg hfree, ?_, fun heq => absurd heq hne, hcancels, hfails⟩
  intro ho
  rw [howns] at ho
  cases ho

/-- Who has given up the goal is not named any more. -/
theorem Phase.free (h : Phase a hd x g pc) (hrel : pc.releasing = true) : hd ≠ some g := by
  intro hg
  obtain ⟨howns, hne⟩ := releasing_spec hrel
  rcases h.held hg with ho | heq
  · rw [howns] at ho
    cases ho
  · exact hne heq

theorem Phase.moves {s : State P} {pc' : GoalPc} (h : Phase a hd (s.status g) g pc)
    (hm : Moves s g pc pc') : Phase a hd (s.status g) g pc' := by
  refine .of_owns hm.owns ?_ ?_
  · intro ha
    rcases hm.origin with howns | ⟨rfl, hst⟩ | ⟨m, rfl⟩
    · exact h.owner howns ha
    · exact absurd (h.cancels rfl ha) hst
    · rw [h.fails rfl] at ha
      cases ha
  · intro hc ha
    rcases hm.cancels hc with hc | hst
    · exact h.cancels hc ha
    · exact hst

end Phases

/-- The section that gives up the goal, on the way to `w'`. -/
theorem release_claims {s : State P} (hu : s.UnderWay) {g : ℕ} {pc : GoalPc}
    (hw : s.worker = some (.goal g pc)) (a : Bool) (ha : a = true → s.accepting_goals_ = true)
    (h : State.Claims s) {w' : Worker}
    (hw' : ∀ hd : Option ℕ, hd ≠ some g →
      (∃ pc', w' = .goal g pc' ∧ Phase a hd (s.status g) g pc') ∨
        w' = .finished ∧ ¬ Alive (s.status g)) :
    State.Claims { ({ s with accepting_goals_ := a }.release_handle g) with worker := some w' } := by
  have hgoal : ∀ hd : Option ℕ, hd ≠ some g →
      (∃ pc', some w' = some (.goal g pc') ∧ Phase a hd (s.status g) g pc') ∨
        some w' = some .finished ∧ hd ≠ some g ∧ ¬ Alive (s.status g) := by
    intro hd hne
    rcases hw' hd hne with ⟨pc', heq, hphase⟩ | ⟨heq, hdead⟩
    · exact .inl ⟨pc', congrArg some heq, hphase⟩
    · exact .inr ⟨congrArg some heq, hne, hdead⟩
  unfold State.Claims at h
  rw [hw] at h
  rcases release_handle_cases { s with accepting_goals_ := a } g with ⟨hg, heq⟩ | ⟨hg, heq⟩
  · rw [heq]
    exact h.work (hu.not_waiting hw) ha (.inr ⟨hg, rfl, rfl⟩) (fun _ _ => rfl) id
      (hgoal none nofun)
  · rw [heq]
    exact h.work (hu.not_waiting hw) ha (.inl ⟨rfl, rfl⟩) (fun _ _ => rfl) id (hgoal _ hg)

theorem worker_claims {s t : State P} (hu : s.UnderWay) (h : State.Claims s) (hx : Worked s t) :
    State.Claims t := by
  unfold State.Claims at h
  -- a status that the worker sets
  have hother : ∀ g st m k, k ≠ g → (s.set_status g st m).status k = s.status k :=
    fun g st m k hk => State.status_set_status_ne hk
  have hself : ∀ {g st x m}, s.status g = some x → (s.set_status g st m).status g = some st := by
    intro g st x m hx
    rw [State.status_set_status_self, hx]
    rfl
  cases hx with
  | @moves g pc pc' y hw hm =>
      have hphase := h.phase g pc hw
      rw [hw] at h
      exact h.work (hu.not_waiting hw) id (.inl ⟨rfl, rfl⟩) (fun _ _ => rfl) id
        (.inl ⟨pc', rfl, hphase.moves hm⟩)
  | @executes g hw hst =>
      have hphase := h.phase g _ hw
      rw [hw] at h
      refine h.work (hu.not_waiting hw) id (.inl ⟨rfl, rfl⟩) (hother g _ _) ?_ (.inl ⟨.loop, rfl, ?_⟩)
      · intro _
        rw [hst]
        rfl
      · refine .of_owns rfl (fun ha => ⟨(hphase.owner rfl ha).1, ?_⟩) nofun
        show Alive ((s.set_status g .executing "").status g)
        rw [hself hst]
        rfl
  | @releases g e hw =>
      have hphase := h.phase g _ hw
      refine release_claims hu hw _ id h fun hd hne => .inl ⟨.finish e, rfl, ?_⟩
      refine .of_releasing rfl hne (fun hc => hphase.cancels ?_) nofun
      cases e with
      | canceled => rfl
      | _ => cases hc
  | @rejects g message hw =>
      refine release_claims hu hw false nofun h fun hd hne => .inl ⟨.fail_reason message, rfl, ?_⟩
      exact .of_releasing rfl hne nofun fun _ => rfl
  | @reason g message hw =>
      have hphase := h.phase g _ hw
      rw [hw] at h
      refine h.work (hu.not_waiting hw) id (.inl ⟨rfl, rfl⟩) (fun _ _ => rfl) id (.inl ⟨_, rfl, ?_⟩)
      exact .of_releasing rfl (hphase.free rfl) nofun fun _ => hphase.fails rfl
  | @store g message hw =>
      have hphase := h.phase g _ hw
      rw [hw] at h
      refine h.work (hu.not_waiting hw) id (.inl ⟨rfl, rfl⟩) (fun _ _ => rfl) id (.inl ⟨_, rfl, ?_⟩)
      exact .of_releasing rfl (hphase.free rfl) nofun fun _ => hphase.fails rfl
  | @stop g message hw _ =>
      have hphase := h.phase g _ hw
      rw [hw] at h
      refine h.work (hu.not_waiting hw) id (.inl ⟨rfl, rfl⟩) (fun _ _ => rfl) id (.inl ⟨_, rfl, ?_⟩)
      exact .of_releasing rfl (hphase.free rfl) nofun fun _ => hphase.fails rfl
  | @aborts g pc m hw hrel hc =>
      have hphase := h.phase g _ hw
      rw [hw] at h
      have hne : pc ≠ .execute := by
        rintro rfl
        cases hrel
      rcases s.abort_goal_cases g _ with ⟨st, hst, hor, heq⟩ | ⟨heq, hacc⟩
      · rw [heq]
        refine h.work (hu.not_waiting hw) id (.inl ⟨rfl, rfl⟩) (hother g _ _) ?_
          (.inr ⟨rfl, hphase.free hrel, ?_⟩)
        · intro _
          rw [hst]
          rcases hor with rfl | rfl
          · rfl
          · rfl
        · show ¬ Alive ((s.set_status g .aborted _).status g)
          rw [hself hst]
          nofun
      · -- the goal has ended already: `execute()` took it out of the accepted state
        rw [heq]
        exact h.work (hu.not_waiting hw) id (.inl ⟨rfl, rfl⟩) (fun _ _ => rfl) id
          (.inr ⟨rfl, hphase.free hrel, fun hopen => hu.executed g pc hw hne (hacc hopen)⟩)
  | @cancels g m hw hst =>
      have hphase := h.phase g _ hw
      rw [hw] at h
      refine h.work (hu.not_waiting hw) id (.inl ⟨rfl, rfl⟩) (hother g _ _) ?_
        (.inr ⟨rfl, hphase.free rfl, ?_⟩)
      · intro _
        rw [hst]
        rfl
      · show ¬ Alive ((s.set_status g .canceled m).status g)
        rw [hself hst]
        nofun
  | @succeeds g m hw hst =>
      rw [hw] at h
      have halive : Alive (s.status g) := by
        rcases hst with hst | hst
        · rw [hst]
          rfl
        · rw [hst]
          rfl
      have hset : (s.set_status g .succeeded m).status g = some .succeeded := by
        rcases hst with hst | hst
        · exact hself hst
        · exact hself hst
      refine h.work (hu.not_waiting hw) id (.inl ⟨rfl, rfl⟩) (hother g _ _) (fun _ => halive)
        (.inl ⟨.succeed_release, rfl, ?_⟩)
      refine ⟨fun _ => .inr rfl, nofun, fun _ => ?_, nofun, nofun⟩
      show ¬ Alive ((s.set_status g .succeeded m).status g)
      rw [hset]
      nofun
  | @retires g hw =>
      have hphase := h.phase g _ hw
      exact release_claims hu hw _ id h fun hd _ => .inr ⟨rfl, hphase.succeeded rfl⟩
  | returns hw _ _ =>
      rw [hw] at h
      exact h.no_goal nofun nofun
  | gives_back hw =>
      rw [hw] at h
      exact h.give_back.no_goal nofun nofun
  | replies hw =>
      rw [hw] at h
      exact h.no_goal nofun nofun

/-! ## The lifecycle thread -/

theorem same_claims {s t : State P} (hs : Same s t) (h : State.Claims s) : State.Claims t := by
  unfold State.Claims
  have hstatus : t.status = s.status := by
    funext g
    unfold State.status
    rw [hs.goals]
  rw [hs.accepting, hs.pending, hs.returning, hs.handle, hs.act, hs.worker, hstatus]
  exact h

/-- A stopped node aborts a goal. -/
theorem abort_claims {s : State P} (h : State.Claims s) (ha : s.accepting_goals_ = false)
    (g : Option ℕ) : State.Claims (s.abort_goal? g) := by
  cases g with
  | none => exact h
  | some g =>
      show State.Claims (s.abort_goal g _)
      rcases s.abort_goal_cases g _ with ⟨st, hst, hor, heq⟩ | ⟨heq, -⟩
      · rw [heq]
        have hdown : ∀ m k, Alive ((s.set_status g .aborted m).status k) → Alive (s.status k) := by
          intro m k hk
          by_cases hkg : k = g
          · subst hkg
            rw [State.status_set_status_self, hst] at hk
            cases hk
          · rw [State.status_set_status_ne hkg] at hk
            exact hk
        refine Claims.restatus h (hdown _) fun k pc _ hphase => ?_
        rw [ha] at hphase ⊢
        exact ⟨hphase.held, nofun, fun heq halive => hphase.succeeded heq (hdown _ k halive), nofun,
          hphase.fails⟩
      · rw [heq]
        exact h

theorem lc_claims {s t : State P} (hl : Ladder s) (h : State.Claims s) (hx : Ran s t)
    (haccept : s.lc = .accept → s.act = .idle) : State.Claims t := by
  -- whoever takes or aborts the goal has cleared `accepting_goals_`
  have stopped : 1 ≤ s.lc.rank → s.accepting_goals_ = false := fun hrank =>
    hl.accepting (le_rank hrank (by decide))
  cases hx with
  | quiet hs => exact same_claims hs h
  | configure _ _ hs => exact same_claims hs h
  | refuse hs => exact same_claims hs (Claims.refuse h)
  | take hlc hs =>
      have ha : s.accepting_goals_ = false := by
        apply stopped
        rcases hlc with hlc | ⟨why, hlc⟩
        · rw [hlc]
          exact le_rfl
        · rw [hlc]
          exact le_rfl
      refine same_claims hs ?_
      unfold State.Claims at h
      show Claims s.accepting_goals_ _ _ _ _ _ _
      rw [ha] at h ⊢
      exact h.take
  | @abort g hlc hs =>
      have ha : s.accepting_goals_ = false := by
        apply stopped
        rcases hlc with hlc | ⟨why, hlc⟩
        · rw [hlc]
          exact le_rfl
        · rw [hlc]
          exact le_rfl
      exact same_claims hs (abort_claims h ha g)
  | join hw hs =>
      refine same_claims hs (Claims.no_goal h ?_ nofun)
      rcases hw with hw | hw
      · rw [hw]
        nofun
      · rw [hw]
        nofun
  | accept hlc hs =>
      have hrank : s.rank = 3 :=
        rank_activating (hl.entering (by rw [hlc]; rfl)) (by rw [hlc]; rfl)
      have hworker := hl.worker (by omega)
      have hact := haccept hlc
      refine same_claims hs ?_
      unfold State.Claims at h
      show Claims true _ _ _ s.act s.worker _
      rw [hact, hworker] at h ⊢
      exact h.activate

/-! ## Every step -/

/-- Every goal that has not ended is referenced by somebody. -/
def Referenced (s : State P) : Prop := ∀ g, s.Open g → s.referenced g = true

theorem rank_of_holds {l : Lc} {g : ℕ} (h : l.holds g = true) : 1 ≤ l.rank := by
  unfold Lc.holds at h
  split at h
  · exact le_rfl
  · exact le_rfl
  · cases h

/-- With nothing claimed and no worker between giving up its goal and ending it,
every goal has ended. -/
theorem Claims.all_ended {s : State P} (hl : Ladder s) (hr : Referenced s) (h : State.Claims s)
    (ha : s.accepting_goals_ = true) (hp : s.goal_pending_ = false) (hhd : s.goal_handle_ = none)
    (hw : releasing s.worker = false) : ∀ g, ¬ s.Open g := by
  intro g hopen
  have hworker : ∀ pc, s.worker ≠ some (.goal g pc) := by
    intro pc hpc
    have hphase := h.phase g pc hpc
    rw [hpc] at hw
    have howner : pc.owns ≠ true := by
      intro howns
      have := (hphase.owner howns ha).1
      rw [hhd] at this
      cases this
    have hne : pc ≠ .succeed_release := fun heq => hphase.succeeded heq hopen
    have hrel : pc.releasing ≠ true := by
      rw [show pc.releasing = false from hw]
      nofun
    -- the worker is in one of the three
    cases pc with
    | succeed_release => exact hne rfl
    | finish e => exact hrel rfl
    | fail_reason m => exact hrel rfl
    | fail_store m => exact hrel rfl
    | fail_stop m => exact hrel rfl
    | fail_abort m => exact hrel rfl
    | _ => exact howner rfl
  have href := hr g hopen
  simp only [State.referenced, Bool.or_eq_true, beq_iff_eq] at href
  rcases href with ((href | href) | href) | href
  · rw [hhd] at href
    cases href
  · rcases waiting_of_holds href with hact | hact
    · rcases h.waiting ha g hact with ⟨-, hpending⟩ | ⟨-, hhandle⟩
      · rw [hp] at hpending
        cases hpending
      · rw [hhd] at hhandle
        cases hhandle
    · obtain ⟨pc, hpc⟩ := h.started g hact hopen
      exact hworker pc hpc
  · obtain ⟨pc, hpc⟩ := worker_of_holds href
    exact hworker pc hpc
  · rw [hl.accepting (le_rank (rank_of_holds href) (by decide))] at ha
    cases ha

theorem request_claims {s t : State P} {r : GoalRequest P} (hu : s.UnderWay)
    (h : State.Claims s) (hidle : s.act = .idle) (hfresh : s.goals r.id = none)
    (hok : accepts s r = true → retiring s.worker = false) (hx : Requested s r t) :
    State.Claims t := by
  cases hx with
  | ignored => exact h
  | rejected _ => exact h
  | @accepted wave pre cap plan haccepts _ =>
      obtain ⟨hacc, hp, hret, hany⟩ := admits_spec (admits_of_accepts haccepts)
      -- a goal that is still named has a worker, which has not ended it
      have hfree : s.goal_handle_ = none := by
        by_contra hne
        obtain ⟨k, hk⟩ := Option.ne_none_iff_exists'.mp hne
        rw [hk, Option.any_some] at hany
        rcases h.names k hk with hn | ⟨pc, hw⟩
        · rw [hidle] at hn
          cases hn
        · have hphase := h.phase k pc hw
          rcases hphase.held hk with howns | rfl
          · have halive := (hphase.owner howns hacc).2
            rw [show Alive (s.status k) = (s.is_active k = true) from rfl, hany] at halive
            cases halive
          · have hretire := hok haccepts
            rw [hw] at hretire
            cases hretire
      refine ⟨?_, fun _ => ⟨hfree, r.id, rfl⟩, ?_, ?_, nofun, ?_⟩
      · intro hr
        have hr : s.returning_to_upright_ = true := hr
        rw [hret] at hr
        cases hr
      · intro k hk
        have hk : s.goal_handle_ = some k := hk
        rw [hfree] at hk
        cases hk
      · intro _ k hk
        cases hk
        exact .inl ⟨rfl, rfl⟩
      · intro k pc hw
        have hk : k ≠ r.id := by
          rintro rfl
          have hknown := hu.known _ pc hw
          rw [State.status, hfresh] at hknown
          cases hknown
        have hphase := h.phase k pc hw
        have hstatus : (Function.update s.goals r.id (some { status := .accepted, plan := plan }) k).map (·.status) =
            s.status k := by
          rw [Function.update_of_ne hk]
          rfl
        show Phase _ _ ((Function.update s.goals r.id (some { status := .accepted, plan := plan }) k).map (·.status))
          k pc
        rw [hstatus]
        exact hphase

/-- A cancel request leaves the goal open, and a goal that is being canceled as it
is. -/
theorem cancel_claims {s : State P} (h : State.Claims s) {g : ℕ}
    (hst : s.status g = some .accepted ∨ s.status g = some .executing) :
    State.Claims (s.set_status g .canceling "") := by
  have halive : Alive (s.status g) := by
    rcases hst with hst | hst
    · rw [hst]
      rfl
    · rw [hst]
      rfl
  have hset : (s.set_status g .canceling "").status g = some .canceling := by
    rcases hst with hst | hst
    · rw [State.status_set_status_self, hst]
      rfl
    · rw [State.status_set_status_self, hst]
      rfl
  refine Claims.restatus h ?_ ?_
  · intro k hk
    by_cases hkg : k = g
    · subst hkg
      exact halive
    · rw [State.status_set_status_ne hkg] at hk
      exact hk
  · intro k pc hw hphase
    by_cases hkg : k = g
    · subst hkg
      rw [hset]
      exact ⟨hphase.held, fun howns ha => ⟨(hphase.owner howns ha).1, rfl⟩,
        fun heq => absurd halive (hphase.succeeded heq), fun _ _ => rfl, hphase.fails⟩
    · rw [State.status_set_status_ne hkg]
      exact hphase

theorem raw_step_claims {s t : State P} {e : Event P} (hl : Ladder s) (hu : s.UnderWay)
    (hj : Joined s) (hr : Referenced s) (h : State.Claims s) (hok : StepOk s e)
    (hx : Stepped s e t) : State.Claims t := by
  obtain ⟨hreturn, haccept, hactivate⟩ := hok
  cases hx with
  | request hidle hfresh hx => exact request_claims hu h hidle hfresh haccept hx
  | cancel _ hst => exact cancel_claims h hst
  | act hx => exact act_claims hu hj h hx
  | @claim r _ hcheck =>
      obtain ⟨hacc, hp, -, hhd⟩ := return_check_spec hcheck
      have hrel : releasing s.worker = false := hreturn (by simp only [claims_return, hcheck,
        Option.isNone_none])
      have hended := Claims.all_ended hl hr h hacc hp hhd hrel
      exact ⟨fun _ => ⟨hp, hended⟩, h.pends, h.names, h.waiting, h.started, h.phase⟩
  | turn_away _ _ => exact h
  | ret hx => exact ret_claims hj h hx
  | worker hx => exact worker_claims hu h hx
  | lc hx hlc => exact lc_claims hl h hx fun heq => hactivate (hlc heq)
  | quiet hs => exact same_claims hs h

theorem reap_claims {s : State P} (h : State.Claims s) : State.Claims (reap s) := by
  have hdown : ∀ g, Alive ((reap s).status g) → Alive (s.status g) := fun g hg => (open_reap hg).1
  refine Claims.restatus h hdown ?_
  intro g pc hw hphase
  have hgoals := goals_reap (s := s) (referenced_of_worker hw)
  rw [State.status, hgoals]
  exact hphase

theorem reap_referenced (s : State P) : Referenced (reap s) := fun _ hg => (open_reap hg).2

structure Inv (s : State P) : Prop where
  ladder : Ladder s
  underWay : s.UnderWay
  joined : Joined s
  referenced : Referenced s
  claims : State.Claims s

theorem init_claims {s : State P} (h : Init s) : State.Claims s := by
  obtain ⟨-, hp, hret, hhd, -, -, -, -, -, -, -, -, -, -, -, -, -, -, hact, -, hw, -, -, -, -⟩ := h
  unfold State.Claims
  rw [hp, hret, hhd, hact, hw]
  exact ⟨nofun, nofun, nofun, fun _ => nofun, nofun, nofun⟩

theorem init_inv {s : State P} (h : Init s) : Inv s := by
  refine ⟨init_ladder h, init_underWay h, init_joined h, ?_, init_claims h⟩
  obtain ⟨-, -, -, -, -, -, -, -, -, -, -, -, -, -, -, hgoals, -⟩ := h
  intro g hg
  rw [State.Open, State.is_active, State.status, hgoals g] at hg
  cases hg

theorem step_inv {s t : State P} {e : Event P} (h : Inv s) (hok : StepOk s e)
    (hs : step s e = some t) : Inv t := by
  have hl := step_ladder h.ladder hs
  have hu := step_underWay h.underWay hs
  have hj := step_joined h.ladder h.joined hs
  obtain ⟨u, hx, rfl⟩ := step_eq_some hs
  exact ⟨hl, hu, hj, reap_referenced u, reap_claims
    (raw_step_claims h.ladder h.underWay h.joined h.referenced h.claims hok (raw_step_cases hx))⟩

/-- **Goals and returns exclude each other.** While a return has claimed the
controller no goal is pending, and every goal that was accepted has reached a
terminal state. -/
theorem return_excludes_goals {s : State P} (h : Reach step StepOk Init s)
    (hr : s.returning_to_upright_ = true) : s.goal_pending_ = false ∧ ∀ g, ¬ s.Open g := by
  have hinv : Inv s := h.invariant (fun _ => init_inv) fun _ _ _ hi hc hs => step_inv hi hc hs
  exact hinv.claims.excluded hr

/-! ## The first hole -/

/-- The worker's steps from `sample_goal` behind the end of the samples to its
end. -/
def completes : List (Event bench) :=
  [.worker (.elapsed 2), .worker (.wrote true "")] ++ List.replicate 4 (.worker .proceed)

/-- A return that follows a completed goal. -/
theorem return_after_goal :
    ∃ s : State bench, Reach step StepOk Init s ∧ s.returning_to_upright_ = true ∧
      s.status 0 = some .succeeded ∧ s.goal_pending_ = false ∧ ∀ g, ¬ s.Open g := by
  have heval : ((run (guarded step StepOk) constructed (boot ++ [requests 0 (1 / 2), .act] ++
      starts ++ to_sample ++ completes ++ [requests_return 1])).map fun s =>
      (s.returning_to_upright_, s.status 0)) = some (true, some .succeeded) := by
    decide +kernel
  obtain ⟨s, hrun, hval⟩ := Option.map_eq_some_iff.mp heval
  obtain ⟨hret, hst⟩ := Prod.mk.inj hval
  have hreach : Reach step StepOk Init s := .guarded_run _ (.init constructed_init) hrun
  exact ⟨s, hreach, hret, hst, return_excludes_goals hreach hret⟩

/-- Goal 0 is canceled; its worker halts and gives up `goal_handle_`, and before it
calls `canceled()` a return claims the controller. -/
def return_before_canceled : List (Event bench) :=
  boot ++ [requests 0 (1 / 2), .act] ++ starts ++ List.replicate 2 (.worker .proceed) ++
    .cancel 0 :: List.replicate 3 (.worker .proceed) ++ [requests_return 1]

theorem return_beside_a_goal :
    ∃ s : State bench, Reach step Any Init s ∧ s.returning_to_upright_ = true ∧
      ¬ (s.goal_pending_ = false ∧ ∀ g, ¬ s.Open g) := by
  have heval : ((run step constructed return_before_canceled).map fun s =>
      (s.returning_to_upright_, s.is_active 0)) = some (true, true) := by
    decide +kernel
  obtain ⟨s, hrun, hval⟩ := Option.map_eq_some_iff.mp heval
  obtain ⟨hret, hopen⟩ := Prod.mk.inj hval
  exact ⟨s, .run (.init constructed_init) hrun, hret, fun h => h.2 0 hopen⟩

end WavemakerNode.GoalReturn
