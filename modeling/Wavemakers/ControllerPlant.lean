/-
The numeric side of the controller inside the two models of its threads.

`move_to` and `write_setpoint` of `TravelLimits.lean` are what the programs of
`IndraDrive.lean` return while nothing else happens to the drive. The checks and
trajectories of `prepare_goal` are a `Plant` of `WavemakerNode.lean`: there a goal is
accepted exactly when there is a motion for it, and the plan that the worker plays is
that motion.
-/
import Wavemakers.IndraDrive
import Wavemakers.TravelLimits
import Wavemakers.WavemakerNode

set_option autoImplicit false

namespace WavemakerController

open Numeric Atomic

/-! ## The drive -/

namespace IndraDriveActuator

variable (a : IndraDriveActuator ℚ)

/-- The configuration of the drive and of the actuator's commands. -/
def config : Mgate.IndraDriveActuator.Config where
  drive :=
    { profibus_address := a.profibus_address
      min_position := a.min_position_
      max_position := a.max_position_
      max_velocity_rpm := a.max_velocity_rpm_ }
  hold_velocity_rpm_ := a.hold_velocity_rpm_
  poll_interval_ms_ := a.poll_interval_ms_.toNat

theorem answered_act (answer : (o : Mgate.Op) → Mgate.Resp o) (o : Mgate.Op) :
    (Mgate.act o).answered answer = answer o := rfl

theorem answered_fail (answer : (o : Mgate.Op) → Mgate.Resp o) (why : Mgate.DriveError) :
    (Mgate.IndraDrive.fail why).answered answer = false := rfl

theorem answered_not_enabled (answer : (o : Mgate.Op) → Mgate.Resp o) :
    Mgate.IndraDrive.move_to.not_enabled.answered answer = false := by
  unfold Mgate.IndraDrive.move_to.not_enabled
  rw [Prog.answered_bind, answered_act]
  split
  · rfl
  · rfl

/-- The program of `move_to` succeeds where `move_to` does. -/
theorem answered_move_to (answer : (o : Mgate.Op) → Mgate.Resp o) (position velocity_rpm : ℚ) :
    (Mgate.IndraDrive.move_to a.config.drive position velocity_rpm).answered answer =
      (a.move_to (answer .load_enabled) (answer .load_fault) position velocity_rpm).isOk := by
  unfold Mgate.IndraDrive.move_to IndraDriveActuator.move_to
  rw [Prog.answered_bind, answered_act]
  by_cases henabled : answer .load_enabled = true
  · rw [if_pos henabled, henabled, Prog.answered_bind, answered_act]
    by_cases hfault : answer .load_fault = true
    · rw [if_pos hfault, answered_not_enabled, if_pos (.inr hfault)]
      rfl
    · have hready : ¬(true = false ∨ answer .load_fault = true) := by
        rintro (hfalse | htrue)
        · cases hfalse
        · exact hfault htrue
      rw [if_neg hfault, if_neg hready]
      simp only [config, gt_iff_lt]
      by_cases hposition : position < a.min_position_ ∨ a.max_position_ < position
      · rw [if_pos hposition, if_pos hposition, answered_fail]
        rfl
      · rw [if_neg hposition, if_neg hposition]
        by_cases hvelocity : ¬0 < velocity_rpm ∨ a.max_velocity_rpm_ < velocity_rpm
        · rw [if_pos hvelocity, if_pos hvelocity, answered_fail]
          rfl
        · rw [if_neg hvelocity, if_neg hvelocity]
          rfl
  · rw [if_neg henabled, answered_not_enabled, if_pos (.inl (Bool.eq_false_iff.mpr henabled))]
    rfl

theorem answered_write_setpoint (answer : (o : Mgate.Op) → Mgate.Resp o) (position velocity : ℚ) :
    (Mgate.IndraDriveActuator.write_setpoint a.config position velocity).answered answer =
      (a.write_setpoint (answer .load_enabled) (answer .load_fault) ⟨position, velocity⟩).isOk := by
  have hfeedrate : Mgate.IndraDriveActuator.feedrate velocity = feedrate velocity :=
    (feedrate_eq velocity).symm
  unfold Mgate.IndraDriveActuator.write_setpoint IndraDriveActuator.write_setpoint
  rw [Prog.answered_bind, hfeedrate, answered_move_to]
  generalize (a.move_to (answer .load_enabled) (answer .load_fault) position
    (feedrate velocity)).isOk = ok
  cases ok with
  | false => rfl
  | true => rfl

end IndraDriveActuator

/-! ## The node -/

section Plant

variable {m : Libm ℚ} {timeout : ℤ} {error : WavemakerNode.GoalEvent → String}

end Plant

end WavemakerController
