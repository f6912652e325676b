/-
The control flow of `execute_goal` and `move_to_upright`.

`NodeSteps.lean` says what a step of the worker does to the data the threads
share. Here is where it goes: the edges between the program points, with the
guard each is taken under. The claims that follow one worker from a point of its
run to its end (a canceled goal, an engaged soft stop) go through these.
-/
import Wavemakers.NodeSteps

set_option autoImplicit false

namespace WavemakerNode

variable {P : Plant}

/-! ## `execute_goal` -/

/-- The step calls into the actuator or the library, outside `release_goal`. -/
def GoalPc.calls : GoalPc → Bool
  | .halt (.failed _) => false
  | .write _ _ _ | .feedback _ | .halt _ | .fail_stop _ | .succeed_halt => true
  | _ => false

/-- The edges of `execute_goal`; `none` is its end. -/
inductive Goes (s : State P) (g : ℕ) : WorkerInput → GoalPc → Option GoalPc → Prop where
  | execute {i : WorkerInput} : s.status g = some .accepted → Goes s g i .execute (some .loop)
  | execute_raises {i : WorkerInput} {what : Option String} : s.status g ≠ some .accepted →
      Goes s g i .execute (some (.halt (.failed what)))
  | enter {i : WorkerInput} : s.ok = true → s.stop_execution_ = false →
      Goes s g i .loop (some .canceling)
  | leave {i : WorkerInput} : s.ok = false ∨ s.stop_execution_ = true →
      Goes s g i .loop (some (.halt .stopped))
  | canceled {i : WorkerInput} : s.status g = some .canceling →
      Goes s g i .canceling (some (.halt .canceled))
  | not_canceled {i : WorkerInput} : s.status g ≠ some .canceling →
      Goes s g i .canceling (some .soft_stop)
  | soft_stopped {i : WorkerInput} : s.soft_stop_active = true →
      Goes s g i .soft_stop (some (.halt .soft_stop))
  | released {i : WorkerInput} : s.soft_stop_active = false → Goes s g i .soft_stop (some .sample)
  | sample {t x v : ℚ} {complete : Bool} : sample_goal s t = (x, v, complete) →
      Goes s g (.elapsed t) .sample (some (.write x v complete))
  | wrote {reason : String} {x v : ℚ} {complete : Bool} :
      Goes s g (.wrote true reason) (.write x v complete) (some (.feedback complete))
  | rejected {reason message : String} {x v : ℚ} {complete : Bool} :
      Goes s g (.wrote false reason) (.write x v complete) (some (.fail_release message))
  | raises {what : Option String} {pc : GoalPc} : pc.calls = true →
      Goes s g (.throws what) pc (some (.halt (.failed what)))
  | completes : Goes s g .proceed (.feedback true) (some .succeed_halt)
  | goes_on : Goes s g .proceed (.feedback false) (some .sleep)
  | slept {i : WorkerInput} : Goes s g i .sleep (some .loop)
  | halted {e : Exit} : Goes s g .proceed (.halt e) (some (.release e))
  | halt_raises {what what' : Option String} :
      Goes s g (.throws what) (.halt (.failed what')) (some (.release (.failed what')))
  | gives_up {i : WorkerInput} {e : Exit} : Goes s g i (.release e) (some (.finish e))
  | reports_canceled {i : WorkerInput} : s.status g = some .canceling →
      Goes s g i (.finish .canceled) none
  | finish_raises {i : WorkerInput} {what : Option String} : s.status g ≠ some .canceling →
      Goes s g i (.finish .canceled) (some (.halt (.failed what)))
  | aborts {i : WorkerInput} {e : Exit} : e ≠ .canceled → Goes s g i (.finish e) none
  | rejects {i : WorkerInput} {message : String} :
      Goes s g i (.fail_release message) (some (.fail_reason message))
  | reason {i : WorkerInput} {message : String} :
      Goes s g i (.fail_reason message) (some (.fail_store message))
  | store {i : WorkerInput} {message : String} :
      Goes s g i (.fail_store message) (some (.fail_stop message))
  | stop {message : String} : Goes s g .proceed (.fail_stop message) (some (.fail_abort message))
  | fails {i : WorkerInput} {message : String} : Goes s g i (.fail_abort message) none
  | succeed_halted : Goes s g .proceed .succeed_halt (some .succeed)
  | succeeds {i : WorkerInput} : s.status g = some .executing ∨ s.status g = some .canceling →
      Goes s g i .succeed (some .succeed_release)
  | succeed_raises {i : WorkerInput} {what : Option String} :
      s.status g ≠ some .executing → s.status g ≠ some .canceling →
      Goes s g i .succeed (some (.halt (.failed what)))
  | retires {i : WorkerInput} : Goes s g i .succeed_release none

/-- The worker behind an edge. -/
def behind (g : ℕ) : Option GoalPc → Option Worker
  | some pc => some (.goal g pc)
  | none => some .finished

theorem calls_eq_some {i : WorkerInput} {a t : State P} {b : Option String → State P}
    (h : calls i a b = some t) :
    i = .proceed ∧ t = a ∨ ∃ what, i = .throws what ∧ t = b what := by
  unfold calls at h
  split at h
  · exact .inl ⟨rfl, (Option.some.inj h).symm⟩
  · rename_i what
    exact .inr ⟨what, rfl, (Option.some.inj h).symm⟩
  · cases h

theorem goal_goes {s t : State P} {g : ℕ} {i : WorkerInput} {pc : GoalPc}
    (h : goal_step s g i pc = some t) : ∃ n, Goes s g i pc n ∧ t.worker = behind g n := by
  cases pc with
  | execute =>
      simp only [goal_step] at h
      split at h
      · rename_i u hu
        obtain ⟨st, st', hst, hnext, rfl⟩ := State.goal_call_eq_some hu
        cases h
        -- the library starts a goal only from `accepted`
        cases st with
        | accepted =>
            cases hnext
            exact ⟨_, .execute hst, rfl⟩
        | _ => cases hnext
      · rename_i hnone
        cases h
        refine ⟨_, .execute_raises fun hst => ?_, rfl⟩
        have := State.goal_call_eq_none hnone _ hst
        cases this
  | loop =>
      cases h
      by_cases hgo : (s.ok && !s.stop_execution_) = true
      · rw [if_pos hgo]
        simp only [Bool.and_eq_true, Bool.not_eq_true'] at hgo
        exact ⟨_, .enter hgo.1 hgo.2, rfl⟩
      · rw [if_neg hgo]
        refine ⟨_, .leave ?_, rfl⟩
        simpa only [Bool.and_eq_true, Bool.not_eq_true', not_and_or, Bool.not_eq_true,
          Bool.not_eq_false] using hgo
  | canceling =>
      cases h
      by_cases hst : s.status g = some .canceling
      · rw [if_pos hst]
        exact ⟨_, .canceled hst, rfl⟩
      · rw [if_neg hst]
        exact ⟨_, .not_canceled hst, rfl⟩
  | soft_stop =>
      cases h
      by_cases hactive : s.soft_stop_active = true
      · rw [if_pos hactive]
        exact ⟨_, .soft_stopped hactive, rfl⟩
      · rw [if_neg hactive]
        exact ⟨_, .released (Bool.eq_false_iff.mpr hactive), rfl⟩
  | sample =>
      simp only [goal_step] at h
      split at h
      · cases h
        exact ⟨_, .sample rfl, rfl⟩
      · cases h
  | write x v complete =>
      simp only [goal_step] at h
      split at h
      · cases h
        exact ⟨_, .wrote, rfl⟩
      · cases h
        exact ⟨_, .rejected, rfl⟩
      · cases h
        exact ⟨_, .raises rfl, rfl⟩
      · cases h
  | feedback complete =>
      rcases calls_eq_some h with ⟨rfl, rfl⟩ | ⟨what, rfl, rfl⟩
      · cases complete with
        | true => exact ⟨_, .completes, rfl⟩
        | false => exact ⟨_, .goes_on, rfl⟩
      · exact ⟨_, .raises rfl, rfl⟩
  | sleep =>
      cases h
      exact ⟨_, .slept, rfl⟩
  | halt e =>
      cases e with
      | failed what' =>
          -- already in the handler: a second exception is swallowed
          rcases calls_eq_some h with ⟨rfl, rfl⟩ | ⟨what, rfl, rfl⟩
          · exact ⟨_, .halted, rfl⟩
          · exact ⟨_, .halt_raises, rfl⟩
      | canceled | soft_stop | stopped =>
          rcases calls_eq_some h with ⟨rfl, rfl⟩ | ⟨what, rfl, rfl⟩
          · exact ⟨_, .halted, rfl⟩
          · exact ⟨_, .raises rfl, rfl⟩
  | release e =>
      cases h
      exact ⟨_, .gives_up, rfl⟩
  | finish e =>
      cases e with
      | canceled =>
          simp only [goal_step] at h
          split at h
          · rename_i u hu
            obtain ⟨st, st', hst, hnext, rfl⟩ := State.goal_call_eq_some hu
            cases h
            -- `canceled` is refused unless the client asked for it
            cases st with
            | canceling =>
                cases hnext
                exact ⟨_, .reports_canceled hst, rfl⟩
            | _ => cases hnext
          · rename_i hnone
            cases h
            refine ⟨_, .finish_raises fun hst => ?_, rfl⟩
            have := State.goal_call_eq_none hnone _ hst
            cases this
      | soft_stop | stopped | failed what =>
          cases h
          exact ⟨_, .aborts (by rintro ⟨⟩), rfl⟩
  | fail_release message =>
      cases h
      exact ⟨_, .rejects, rfl⟩
  | fail_reason message =>
      cases h
      exact ⟨_, .reason, rfl⟩
  | fail_store message =>
      cases h
      exact ⟨_, .store, rfl⟩
  | fail_stop message =>
      simp only [goal_step] at h
      split at h
      · obtain ⟨u, hu, rfl⟩ := Option.map_eq_some_iff.mp h
        exact ⟨_, .stop, rfl⟩
      · cases h
        exact ⟨_, .raises rfl, rfl⟩
      · cases h
  | fail_abort message =>
      cases h
      exact ⟨_, .fails, rfl⟩
  | succeed_halt =>
      rcases calls_eq_some h with ⟨rfl, rfl⟩ | ⟨what, rfl, rfl⟩
      · exact ⟨_, .succeed_halted, rfl⟩
      · exact ⟨_, .raises rfl, rfl⟩
  | succeed =>
      simp only [goal_step] at h
      split at h
      · rename_i u hu
        obtain ⟨st, st', hst, hnext, rfl⟩ := State.goal_call_eq_some hu
        cases h
        -- a goal may succeed although its cancel was accepted meanwhile
        cases st with
        | executing =>
            cases hnext
            exact ⟨_, .succeeds (.inl hst), rfl⟩
        | canceling =>
            cases hnext
            exact ⟨_, .succeeds (.inr hst), rfl⟩
        | _ => cases hnext
      · rename_i hnone
        cases h
        refine ⟨_, .succeed_raises (fun hst => ?_) (fun hst => ?_), rfl⟩
        · have := State.goal_call_eq_none hnone _ hst
          cases this
        · have := State.goal_call_eq_none hnone _ hst
          cases this
  | succeed_release =>
      cases h
      exact ⟨_, .retires, rfl⟩

/-! ## `move_to_upright` -/

/-- The edges of the return worker; `none` is its end. -/
inductive ReturnGoes (s : State P) : ReturnPc → Option ReturnPc → Prop where
  | begin_invalid : ReturnGoes s .begin (some (.release .PositionInvalid))
  | begin_halts {status : ReturnStatus} : ReturnGoes s .begin (some (.halt status))
  | begin_away : ReturnGoes s .begin (some .loop)
  | enter : ReturnGoes s .loop (some .soft_stop)
  | leave : ReturnGoes s .loop (some (.halt .Stopped))
  | soft_stopped : s.soft_stop_active = true → ReturnGoes s .soft_stop (some (.halt .Stopped))
  | released : s.soft_stop_active = false → ReturnGoes s .soft_stop (some .faulted)
  | faulted : ReturnGoes s .faulted (some (.halt .Fault))
  | not_faulted : ReturnGoes s .faulted (some .write)
  | wrote : ReturnGoes s .write (some .progress)
  | rejected : ReturnGoes s .write (some (.halt .Fault))
  | done {status : ReturnStatus} : ReturnGoes s .progress (some (.halt status))
  | moving : ReturnGoes s .progress (some .sleep)
  | slept : ReturnGoes s .sleep (some .loop)
  | halted {status status' : ReturnStatus} : ReturnGoes s (.halt status) (some (.release status'))
  | gives_back {status : ReturnStatus} : ReturnGoes s (.release status) (some (.respond status))
  | replies {status : ReturnStatus} : ReturnGoes s (.respond status) none

def return_behind (id : ℕ) : Option ReturnPc → Option Worker
  | some pc => some (.return_to_upright id pc)
  | none => some .finished

theorem return_goes {s t : State P} {id : ℕ} {i : WorkerInput} {pc : ReturnPc}
    (h : return_step s id i pc = some t) :
    ∃ n, ReturnGoes s pc n ∧ t.worker = return_behind id n := by
  cases pc with
  | begin =>
      simp only [return_step] at h
      split at h
      · cases h
        exact ⟨_, .begin_invalid, rfl⟩
      · cases h
        exact ⟨_, .begin_halts, rfl⟩
      · cases h
        exact ⟨_, .begin_away, rfl⟩
      · cases h
        exact ⟨_, .begin_halts, rfl⟩
      · cases h
  | loop =>
      cases h
      split
      · exact ⟨_, .enter, rfl⟩
      · exact ⟨_, .leave, rfl⟩
  | soft_stop =>
      cases h
      by_cases hactive : s.soft_stop_active = true
      · rw [if_pos hactive]
        exact ⟨_, .soft_stopped hactive, rfl⟩
      · rw [if_neg hactive]
        exact ⟨_, .released (Bool.eq_false_iff.mpr hactive), rfl⟩
  | faulted =>
      simp only [return_step] at h
      split at h
      · rename_i b
        cases h
        cases b with
        | true => exact ⟨_, .faulted, rfl⟩
        | false => exact ⟨_, .not_faulted, rfl⟩
      · -- a drive that cannot be asked counts as faulted
        cases h
        exact ⟨_, .faulted, rfl⟩
      · cases h
  | write =>
      simp only [return_step] at h
      split at h
      · rename_i ok reason
        cases h
        cases ok with
        | true => exact ⟨_, .wrote, rfl⟩
        | false => exact ⟨_, .rejected, rfl⟩
      · cases h
        exact ⟨_, .rejected, rfl⟩
      · cases h
  | progress =>
      simp only [return_step] at h
      split at h
      · cases h
        exact ⟨_, .done, rfl⟩
      · cases h
        exact ⟨_, .done, rfl⟩
      · cases h
        exact ⟨_, .moving, rfl⟩
      · cases h
        exact ⟨_, .done, rfl⟩
      · cases h
  | sleep =>
      cases h
      exact ⟨_, .slept, rfl⟩
  | halt status =>
      rcases calls_eq_some h with ⟨-, rfl⟩ | ⟨what, -, rfl⟩
      · exact ⟨_, .halted, rfl⟩
      · exact ⟨_, .halted, rfl⟩
  | release status =>
      cases h
      exact ⟨_, .gives_back, rfl⟩
  | respond status =>
      simp only [return_step] at h
      split at h
      · cases h
        exact ⟨_, .replies, rfl⟩
      · cases h
        exact ⟨_, .replies, rfl⟩
      · cases h

/-- The worker's next step calls `halt`. -/
def calls_halt : Option Worker → Bool
  | some (.goal _ (.halt _)) | some (.goal _ .succeed_halt)
  | some (.return_to_upright _ (.halt _)) => true
  | _ => false

end WavemakerNode
