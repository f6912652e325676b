/-
A goal that was accepted and cannot start.

When the node stops accepting goals between `goal_callback` and the end of
`handle_accepted_callback`, the goal is to be reported aborted, by that callback
or by `abort_active_goal`. The action library aborts a goal only once it is
executing or canceling; from the accepted state `abort()` raises an exception,
`abort_goal` logs and drops it, and the goal ends canceled, without a message,
when its last handle goes. So the call reports what it should exactly when the
goal has left the accepted state, and the call of `handle_accepted_callback` is
never such a call.
-/
import Wavemakers.GoalOwners

set_option autoImplicit false

namespace WavemakerNode.GoalAbort

open Interleave

variable {P : Plant}

/-- The goal and the message of the `abort_goal` call the step makes for a node
that has stopped accepting goals. -/
def aborting (s : State P) : Event P → Option (ℕ × String)
  | .act =>
      match s.act with
      | .abort g => some (g, "Goal rejected because the node is no longer active")
      | _ => none
  | .lc _ =>
      match s.lc with
      | .tick_abort (some g) | .stop _ (.abort (some g)) =>
          some (g, "Goal aborted by lifecycle transition")
      | _ => none
  | _ => none

/-- How the goal stands, for its client. -/
def reported (s : State P) (g : ℕ) : Option (GoalStatus × String) :=
  (s.goals g).map fun x => (x.status, x.message)

/-- The step is the call. -/
theorem aborting_spec {s u : State P} {e : Event P} {g : ℕ} {m : String}
    (ha : aborting s e = some (g, m)) (hx : raw_step s e = some u) :
    u.goals = (s.abort_goal g m).goals := by
  cases e with
  | act =>
      simp only [aborting] at ha
      split at ha
      · rename_i k hp
        cases ha
        have hx : act_step s = some u := hx
        simp only [act_step, hp] at hx
        cases hx
        rfl
      · cases ha
  | lc i =>
      simp only [aborting] at ha
      have hx : lc_step s i = some u := hx
      split at ha
      · rename_i k hlc
        cases ha
        simp only [lc_step, hlc] at hx
        cases hx
        rfl
      · rename_i why k hlc
        cases ha
        simp only [lc_step, hlc, stop_step] at hx
        cases hx
        rfl
      · cases ha
  | _ => cases ha

theorem reported_reap {s : State P} {g : ℕ} {st : GoalStatus} {m : String}
    (h : reported s g = some (st, m)) (hst : st.is_active = false) :
    reported (reap s) g = some (st, m) := by
  obtain ⟨x, hx, heq⟩ := Option.map_eq_some_iff.mp h
  cases heq
  simp only [reported, reap, hx, Option.map_some, hst, Bool.false_and, if_false,
    Bool.false_eq_true]

/-- A call on a goal that is executing or canceling. -/
theorem reports {s u : State P} {g : ℕ} {m : String} {st : GoalStatus}
    (hst : s.status g = some st) (hu : u.goals = (s.set_status g .aborted m).goals) :
    reported (reap u) g = some (.aborted, m) := by
  refine reported_reap ?_ rfl
  obtain ⟨x, hx, -⟩ := Option.map_eq_some_iff.mp hst
  simp only [reported, hu, State.set_status, Function.update_self, hx, Option.map_some,
    GoalRecord.enter]

/-- A call on an accepted goal. -/
theorem not_reported {s u : State P} {g : ℕ} {m : String} (hst : s.status g = some .accepted)
    (hu : u.goals = s.goals) : reported (reap u) g ≠ some (.aborted, m) := by
  obtain ⟨x, hx, hacc⟩ := Option.map_eq_some_iff.mp hst
  simp only [reported, reap, hu, hx, Option.map_some]
  split
  · rintro ⟨⟩
  · rw [hacc]
    rintro ⟨⟩

/-- **Which abort is reported.** Of a goal that has not ended, the call for a node
that has stopped accepting goals leaves the goal aborted with the node's message
exactly when the goal is no longer in the accepted state. The goal of
`handle_accepted_callback` always is. And an accepted goal is never left behind:
its callback still has it, its worker is about to call `execute()`, or the
lifecycle thread has it. -/
theorem abort_reported_iff {s : State P} (h : Reach step Any Init s) :
    (∀ e t g m, step s e = some t → aborting s e = some (g, m) → s.Open g →
      (reported t g = some (.aborted, m) ↔ s.status g ≠ some .accepted)) ∧
    (∀ g, s.act = .abort g → s.status g = some .accepted) ∧
    (∀ g, s.status g = some .accepted → s.act.waiting = some g ∨
      s.worker = some (.goal g .execute) ∨ s.lc.holds g = true) := by
  have hsound := reach_sound h
  refine ⟨?_, ?_, hsound.answered⟩
  · intro e t g m hs ha hopen
    obtain ⟨u, hx, rfl⟩ := step_eq_some hs
    have hgoals := aborting_spec ha hx
    rcases s.abort_goal_cases g m with ⟨st, hst, hor, heq⟩ | ⟨heq, hacc⟩
    · rw [heq] at hgoals
      refine ⟨fun _ => ?_, fun _ => reports hst hgoals⟩
      rw [hst]
      rcases hor with rfl | rfl
      · nofun
      · nofun
    · rw [heq] at hgoals
      have hst := hacc hopen
      exact ⟨fun hr => absurd hr (not_reported hst hgoals), fun hne => absurd hst hne⟩
  · intro g hp
    apply hsound.underWay.waiting
    rw [hp]
    rfl

/-- A goal is playing when the node is deactivated, up to the abort. -/
def aborts_playing : List (Event bench) :=
  boot ++ requests 0 1 :: .act :: starts ++
    [.worker .proceed, .transition .deactivate, .lc .proceed, .lc .proceed]

theorem playing_goal_reported :
    ∃ s t : State bench, Reach step Any Init s ∧ step s (.lc .proceed) = some t ∧
      reported t 0 = some (.aborted, "Goal aborted by lifecycle transition") := by
  have heval : ((run step constructed aborts_playing).bind fun s =>
      (step s (.lc .proceed)).map fun _ => (aborting s (.lc .proceed), s.status 0)) =
      some (some (0, "Goal aborted by lifecycle transition"), some .executing) := by
    decide +kernel
  obtain ⟨s, hs, heval⟩ := Option.bind_eq_some_iff.mp heval
  obtain ⟨t, ht, hval⟩ := Option.map_eq_some_iff.mp heval
  simp only [Prod.mk.injEq] at hval
  obtain ⟨ha, hst⟩ := hval
  have hreach : Reach step Any Init s := .run (.init constructed_init) hs
  refine ⟨s, t, hreach, ht, ?_⟩
  refine ((abort_reported_iff hreach).1 _ t 0 _ ht ha (open_of_status hst rfl)).mpr ?_
  rw [hst]
  nofun

/-- The node is deactivated between the two callbacks of a goal, up to the abort
that `handle_accepted_callback` makes. -/
def deactivated_between : List (Event bench) :=
  boot ++ [requests 0 1, .transition .deactivate, .lc .proceed, .act]

/-- The goal is to be aborted and ends canceled, without a message. -/
theorem declined_goal_canceled :
    ∃ s t : State bench, Reach step Any Init s ∧ s.accepting_goals_ = false ∧
      aborting s .act = some (0, "Goal rejected because the node is no longer active") ∧
      step s .act = some t ∧ reported t 0 = some (.canceled, "") := by
  have heval : ((run step constructed deactivated_between).bind fun s =>
      (step s .act).map fun t => (s.accepting_goals_, aborting s .act, reported t 0)) =
      some (false, some (0, "Goal rejected because the node is no longer active"),
        some (.canceled, "")) := by
    decide +kernel
  obtain ⟨s, hs, heval⟩ := Option.bind_eq_some_iff.mp heval
  obtain ⟨t, ht, hval⟩ := Option.map_eq_some_iff.mp heval
  simp only [Prod.mk.injEq] at hval
  obtain ⟨hacc, ha, hrep⟩ := hval
  exact ⟨s, t, .run (.init constructed_init) hs, hacc, ha, ht, hrep⟩

end WavemakerNode.GoalAbort
