/-
The parameters of the controller: the checks of `WavemakerNode::on_configure` and of
the constructor of `IndraDriveActuator`, and what the two keep of them.

Parameters that are doubles are over any type with the arithmetic and the comparisons
the checks use; a condition is written as the source has it, with its negations, since
a value that does not compare passes a check it does not fail. A rejected parameter
set gives `none`: `on_configure` returns FAILURE, the constructor throws. The
connection settings that no modelled function reads are checked and not kept, and
the texts of the errors only reach the log.
-/
import Mathlib.Data.Rat.Cast.Order
import Wavemakers.MGateDriver
import Wavemakers.Numeric
import Wavemakers.WaveMath

set_option autoImplicit false

namespace WavemakerController

open Numeric

inductive DriveType where
  | linear | angular
  /-- any other text -/
  | other
  deriving DecidableEq, Repr

structure Params (F : Type) where
  wavemaker_type : WavemakerType
  driver_address : String
  wavemaker_upright_position_m : F
  wavemaker_upright_is_minimum : Bool
  wavemaker_mode_pregenerated : Bool
  water_depth : F
  wavemaker_transfer_gain : F
  wavemaker_transfer_gain_periods : List F
  wavemaker_transfer_gain_values : List F
  flap_attachment_height : F
  hinge_height : F
  actuator_upright_angle_deg : F
  actuator_drive_type : DriveType
  actuator_lead_m_per_degree : F
  /-- linear drives only -/
  wavemaker_minimum : F
  wavemaker_maximum : F
  return_to_upright_max_velocity_mps : F
  return_to_upright_min_duration_s : F
  return_to_upright_default_tolerance_m : F
  return_to_upright_timeout_margin_s : F
  positioning_velocity_margin : F
  min_position_deg : F
  max_position_deg : F
  min_position_m : F
  max_position_m : F
  max_velocity_rpm : F
  hold_velocity_rpm : F
  in_position_tol_deg : F
  driver_port : ℤ
  driver_unit_id : ℤ
  input_base_reg : ℤ
  input_word_count : ℤ
  output_base_reg : ℤ
  output_word_count : ℤ
  status_base_reg : ℤ
  status_word_count : ℤ
  input_uses_fc4 : Bool
  status_uses_fc4 : Bool
  write_only_dirty : Bool
  profibus_address : ℤ
  poll_interval_ms : ℤ
  timeout_ms : ℤ
  reconnect_ms : ℤ
  step_timeout_ms : ℤ

/-- `const int x = ... .as_int()`: an integer parameter has 64 bits, an `int` 32. -/
def to_int (x : ℤ) : ℤ := Int.bmod x (2 ^ 32)

variable {F : Type} [Zero F] [One F] [Add F] [Sub F] [Mul F] [Div F] [Neg F] [LT F] [LE F]
  [DecidableLT F] [DecidableLE F] [RatCast F] [IsFinite F]

/-! ## The actuator -/

/-- What `IndraDriveActuator` and its `IndraDrive` keep. -/
structure IndraDriveActuator (F : Type) where
  lead_m_per_degree_ : F
  actuator_upright_angle_deg_ : F
  wavemaker_position_offset_m_ : F
  actuator_drive_type_ : DriveType
  poll_interval_ms_ : ℤ
  min_position_ : F
  max_position_ : F
  max_velocity_rpm_ : F
  hold_velocity_rpm_ : F
  profibus_address : ℤ
  gateway : Mgate.GatewayConfig

/-- The register and connection settings are in range. -/
def valid_connection (p : Params F) : Prop :=
  (1 ≤ to_int p.driver_port ∧ to_int p.driver_port ≤ 65535) ∧
  (0 ≤ to_int p.driver_unit_id ∧ to_int p.driver_unit_id ≤ 255) ∧
  (0 ≤ to_int p.input_base_reg ∧ to_int p.input_base_reg ≤ 65535) ∧
  (0 < to_int p.input_word_count ∧ to_int p.input_word_count ≤ 65535) ∧
  (0 ≤ to_int p.output_base_reg ∧ to_int p.output_base_reg ≤ 65535) ∧
  (0 < to_int p.output_word_count ∧ to_int p.output_word_count ≤ 65535) ∧
  (0 ≤ to_int p.status_base_reg ∧ to_int p.status_base_reg ≤ 65535) ∧
  (0 ≤ to_int p.status_word_count ∧ to_int p.status_word_count ≤ 65535)

instance (p : Params F) : Decidable (valid_connection p) := inferInstanceAs (Decidable (_ ∧ _))

def gateway_config (p : Params F) : Mgate.GatewayConfig where
  unit_id := UInt8.ofInt (to_int p.driver_unit_id)
  input_base_reg := UInt16.ofInt (to_int p.input_base_reg)
  input_word_count := UInt16.ofInt (to_int p.input_word_count)
  output_base_reg := UInt16.ofInt (to_int p.output_base_reg)
  output_word_count := UInt16.ofInt (to_int p.output_word_count)
  input_uses_fc4 := p.input_uses_fc4
  status_base_reg := UInt16.ofInt (to_int p.status_base_reg)
  status_word_count := UInt16.ofInt (to_int p.status_word_count)
  status_uses_fc4 := p.status_uses_fc4
  write_only_dirty := p.write_only_dirty

/-- The drive's own travel limits, in degrees or metres. -/
def drive_limits (p : Params F) : F × F :=
  if p.actuator_drive_type = .angular then (p.min_position_deg, p.max_position_deg)
  else (p.min_position_m, p.max_position_m)

namespace IndraDriveActuator

/-- The constructor. -/
def construct (p : Params F) : Option (IndraDriveActuator F) := do
  guard (p.actuator_drive_type = .linear ∨ p.actuator_drive_type = .angular)
  guard ¬(p.actuator_drive_type = .angular ∧ p.actuator_lead_m_per_degree ≤ 0)
  guard (p.driver_address ≠ "")
  guard (valid_connection p)
  guard (0 ≤ to_int p.profibus_address ∧ to_int p.profibus_address ≤ 125)
  guard (0 < to_int p.poll_interval_ms ∧ 0 < to_int p.timeout_ms ∧ 0 < to_int p.reconnect_ms)
  let (min_position, max_position) := drive_limits p
  guard ¬(max_position ≤ min_position ∨ p.max_velocity_rpm ≤ 0 ∨ p.in_position_tol_deg < 0 ∨
    to_int p.step_timeout_ms ≤ 0)
  guard ¬(¬(0 < p.hold_velocity_rpm) ∨ p.max_velocity_rpm < p.hold_velocity_rpm)
  return {
    lead_m_per_degree_ := p.actuator_lead_m_per_degree
    actuator_upright_angle_deg_ := p.actuator_upright_angle_deg
    wavemaker_position_offset_m_ := p.wavemaker_upright_position_m
    actuator_drive_type_ := p.actuator_drive_type
    poll_interval_ms_ := to_int p.poll_interval_ms
    min_position_ := min_position
    max_position_ := max_position
    max_velocity_rpm_ := p.max_velocity_rpm
    hold_velocity_rpm_ := p.hold_velocity_rpm
    profibus_address := to_int p.profibus_address
    gateway := gateway_config p }

variable (a : IndraDriveActuator F)

/-- Inverse of `write_setpoint`. -/
def max_velocity_mps : F :=
  let actuator_units_per_s := a.max_velocity_rpm_ * (6 : ℚ)
  if a.actuator_drive_type_ = .angular then actuator_units_per_s * a.lead_m_per_degree_
  else actuator_units_per_s

def actual_position_m (position_deg : F) : F :=
  if a.actuator_drive_type_ = .angular then
    a.wavemaker_position_offset_m_ +
      (position_deg - a.actuator_upright_angle_deg_) * a.lead_m_per_degree_
  else position_deg

end IndraDriveActuator

/-! ## The node -/

/-- What the node keeps of its parameters. -/
structure Node (F : Type) where
  params : Params F
  goal_position_minimum_ : F
  goal_position_maximum_ : F
  actuator_ : IndraDriveActuator F

/-- The node's travel limits, in metres. -/
def travel_limits (p : Params F) : Option (F × F) :=
  if p.actuator_drive_type = .angular then do
    let lead := p.actuator_lead_m_per_degree
    guard ¬(isfinite lead = false ∨ lead ≤ 0 ∨ isfinite p.min_position_deg = false ∨
      isfinite p.max_position_deg = false ∨ p.max_position_deg ≤ p.min_position_deg ∨
      p.actuator_upright_angle_deg < p.min_position_deg ∨
      p.max_position_deg < p.actuator_upright_angle_deg)
    return (
      p.wavemaker_upright_position_m + (p.min_position_deg - p.actuator_upright_angle_deg) * lead,
      p.wavemaker_upright_position_m + (p.max_position_deg - p.actuator_upright_angle_deg) * lead)
  else do
    guard ¬(isfinite p.wavemaker_minimum = false ∨ isfinite p.wavemaker_maximum = false ∨
      p.wavemaker_maximum ≤ p.wavemaker_minimum)
    guard ¬(p.wavemaker_upright_position_m < p.wavemaker_minimum ∨
      p.wavemaker_maximum < p.wavemaker_upright_position_m)
    return (p.wavemaker_minimum, p.wavemaker_maximum)

/-- `std::adjacent_find` with `a >= b` finds nothing. -/
def ascending : List F → Bool
  | a :: b :: l => !decide (b ≤ a) && ascending (b :: l)
  | _ => true

def not_finite_positive (v : F) : Bool := !isfinite v || decide (v ≤ 0)

/-- The gain table is empty or has two points at least, all of them positive, with
ascending periods. -/
def valid_gains (p : Params F) : Prop :=
  p.wavemaker_transfer_gain_periods.length = p.wavemaker_transfer_gain_values.length ∧
  p.wavemaker_transfer_gain_periods.length ≠ 1 ∧
  p.wavemaker_transfer_gain_periods.any not_finite_positive = false ∧
  p.wavemaker_transfer_gain_values.any not_finite_positive = false ∧
  ascending p.wavemaker_transfer_gain_periods = true

instance (p : Params F) : Decidable (valid_gains p) := inferInstanceAs (Decidable (_ ∧ _))

/-- The checks of `on_configure` on the flap. -/
def valid_flap (p : Params F) : Prop :=
  ¬(p.flap_attachment_height ≤ 0 ∨ p.flap_attachment_height < p.water_depth) ∧
  (0 ≤ p.hinge_height ∧ p.hinge_height < p.water_depth)

instance (p : Params F) : Decidable (valid_flap p) := inferInstanceAs (Decidable (_ ∧ _))

/-- The parameters of a return are finite and positive. -/
def valid_return (p : Params F) : Prop :=
  ∀ value ∈ [p.return_to_upright_max_velocity_mps, p.return_to_upright_min_duration_s,
    p.return_to_upright_default_tolerance_m, p.return_to_upright_timeout_margin_s],
    ¬(isfinite value = false ∨ value ≤ 0)

instance (p : Params F) : Decidable (valid_return p) :=
  inferInstanceAs (Decidable (∀ value ∈ [_, _, _, _], _))

/-- `on_configure` with the default actuator factory. -/
def on_configure (p : Params F) : Option (Node F) := do
  guard ¬(isfinite p.wavemaker_upright_position_m = false ∨ isfinite p.water_depth = false ∨
    isfinite p.flap_attachment_height = false ∨ isfinite p.actuator_upright_angle_deg = false)
  guard ¬(p.actuator_drive_type ≠ .angular ∧ p.actuator_drive_type ≠ .linear)
  let (goal_position_minimum, goal_position_maximum) ← travel_limits p
  guard ¬(p.wavemaker_upright_is_minimum = true ∧
    ((1 / 1000000000 : ℚ) : F) < std_abs (p.wavemaker_upright_position_m - goal_position_minimum))
  guard (p.wavemaker_type = .flap → valid_flap p)
  guard ¬(p.wavemaker_type ≠ .flap ∧ p.wavemaker_type ≠ .piston)
  guard (valid_gains p)
  guard ¬(p.water_depth ≤ 0)
  guard ¬(p.wavemaker_transfer_gain ≤ 0 ∨ isfinite p.wavemaker_transfer_gain = false)
  guard ¬(isfinite p.positioning_velocity_margin = false ∨ p.positioning_velocity_margin < 1)
  guard (valid_return p)
  let actuator ← IndraDriveActuator.construct p
  guard ¬(actuator.max_velocity_mps < p.return_to_upright_max_velocity_mps)
  return ⟨p, goal_position_minimum, goal_position_maximum, actuator⟩

/-! ## What the checks guarantee in exact arithmetic -/

section Exact

variable {K : Type} [Field K] [LinearOrder K]

/-- An actuator and the parameters it was constructed from. -/
structure Constructed (p : Params K) (a : IndraDriveActuator K) : Prop where
  lead : a.lead_m_per_degree_ = p.actuator_lead_m_per_degree
  upright : a.actuator_upright_angle_deg_ = p.actuator_upright_angle_deg
  offset : a.wavemaker_position_offset_m_ = p.wavemaker_upright_position_m
  drive_type : a.actuator_drive_type_ = p.actuator_drive_type
  limits : (a.min_position_, a.max_position_) = drive_limits p
  max_velocity : a.max_velocity_rpm_ = p.max_velocity_rpm
  max_velocity_pos : 0 < p.max_velocity_rpm

theorem construct_spec {p : Params K} {a : IndraDriveActuator K}
    (h : IndraDriveActuator.construct p = some a) : Constructed p a := by
  simp only [IndraDriveActuator.construct, Option.bind_eq_bind, Option.bind_eq_some_iff,
    Option.guard_eq_some', Option.pure_def, Option.some.injEq, exists_const] at h
  obtain ⟨-, -, -, -, -, -, hdrive, -, rfl⟩ := h
  have hpos : 0 < p.max_velocity_rpm := by
    by_contra hle
    exact hdrive (.inr (.inl (not_lt.mp hle)))
  exact ⟨rfl, rfl, rfl, rfl, rfl, rfl, hpos⟩

/-- A configured node and its parameters. -/
structure Configured (p : Params K) (n : Node K) : Prop where
  params : n.params = p
  limits : travel_limits p = some (n.goal_position_minimum_, n.goal_position_maximum_)
  actuator : Constructed p n.actuator_
  margin : 1 ≤ p.positioning_velocity_margin
  returns : ∀ value ∈ [p.return_to_upright_max_velocity_mps, p.return_to_upright_min_duration_s,
    p.return_to_upright_default_tolerance_m, p.return_to_upright_timeout_margin_s], 0 < value
  reaches : p.return_to_upright_max_velocity_mps ≤ n.actuator_.max_velocity_mps

theorem on_configure_spec {p : Params K} {n : Node K} (h : on_configure p = some n) :
    Configured p n := by
  simp only [on_configure, Option.bind_eq_bind, Option.bind_eq_some_iff, Option.guard_eq_some',
    Option.pure_def, Option.some.injEq, exists_const, Prod.exists] at h
  obtain ⟨-, -, lo, hi, hlimits, -, -, -, -, -, -, hmargin, hreturn, a, ha, hreach, rfl⟩ := h
  refine ⟨rfl, hlimits, construct_spec ha, ?_, fun value hvalue => ?_, not_lt.mp hreach⟩
  · by_contra hlt
    exact hmargin (.inr (not_le.mp hlt))
  · by_contra hle
    exact hreturn value hvalue (.inr (not_lt.mp hle))

/-- What `on_configure` has checked of the wavemaker itself. -/
theorem on_configure_geometry {p : Params K} {n : Node K} (h : on_configure p = some n) :
    n.params = p ∧
      ((p.wavemaker_type = .piston ∨ p.wavemaker_type = .flap) ∧ 0 < p.water_depth ∧
        (p.wavemaker_type = .flap → 0 ≤ p.hinge_height ∧ p.hinge_height < p.water_depth ∧
          p.water_depth ≤ p.flap_attachment_height)) ∧
      (∀ v ∈ p.wavemaker_transfer_gain_values, 0 < v) ∧ 0 < p.wavemaker_transfer_gain := by
  simp only [on_configure, Option.bind_eq_bind, Option.bind_eq_some_iff, Option.guard_eq_some',
    Option.pure_def, Option.some.injEq, exists_const, Prod.exists] at h
  obtain ⟨-, -, lo, hi, -, -, hflap, htype, hgains, hdepth, hgain, -, -, a, -, -, rfl⟩ := h
  refine ⟨rfl, ⟨?_, not_le.mp hdepth, fun hf => ?_⟩, fun v hv => ?_, ?_⟩
  · by_contra hother
    exact htype ⟨fun hf => hother (.inr hf), fun hp => hother (.inl hp)⟩
  · obtain ⟨hattached, hnonneg, hlow⟩ := hflap hf
    exact ⟨hnonneg, hlow, not_lt.mp fun hlt => hattached (.inr hlt)⟩
  · obtain ⟨-, -, -, hvalues, -⟩ := hgains
    have hnot := List.any_eq_false.mp hvalues v hv
    simp only [not_finite_positive, isfinite_eq, Bool.not_true, Bool.false_or,
      decide_eq_true_eq, not_le] at hnot
    exact hnot
  · exact not_le.mp fun hle => hgain (.inl hle)

section Limits

variable {p : Params K} {lo hi : K}

theorem travel_limits_linear (h : travel_limits p = some (lo, hi))
    (htype : p.actuator_drive_type ≠ .angular) :
    lo = p.wavemaker_minimum ∧ hi = p.wavemaker_maximum ∧ lo < hi ∧
      lo ≤ p.wavemaker_upright_position_m ∧ p.wavemaker_upright_position_m ≤ hi := by
  rw [travel_limits, if_neg htype] at h
  simp only [Option.bind_eq_bind, Option.bind_eq_some_iff, Option.guard_eq_some', Option.pure_def,
    Option.some.injEq, exists_const, Prod.mk.injEq] at h
  obtain ⟨horder, hinside, rfl, rfl⟩ := h
  refine ⟨rfl, rfl, ?_, ?_, ?_⟩
  · by_contra hle
    exact horder (.inr (.inr (not_lt.mp hle)))
  · by_contra hlt
    exact hinside (.inl (not_le.mp hlt))
  · by_contra hlt
    exact hinside (.inr (not_le.mp hlt))

theorem travel_limits_angular (h : travel_limits p = some (lo, hi))
    (htype : p.actuator_drive_type = .angular) :
    0 < p.actuator_lead_m_per_degree ∧ p.min_position_deg < p.max_position_deg ∧
      p.min_position_deg ≤ p.actuator_upright_angle_deg ∧
      p.actuator_upright_angle_deg ≤ p.max_position_deg ∧
      lo = p.wavemaker_upright_position_m +
        (p.min_position_deg - p.actuator_upright_angle_deg) * p.actuator_lead_m_per_degree ∧
      hi = p.wavemaker_upright_position_m +
        (p.max_position_deg - p.actuator_upright_angle_deg) * p.actuator_lead_m_per_degree := by
  rw [travel_limits, if_pos htype] at h
  simp only [Option.bind_eq_bind, Option.bind_eq_some_iff, Option.guard_eq_some', Option.pure_def,
    Option.some.injEq, exists_const, Prod.mk.injEq] at h
  obtain ⟨hchecks, rfl, rfl⟩ := h
  simp only [not_or, not_le, not_lt] at hchecks
  obtain ⟨-, hlead, -, -, horder, hlow, hhigh⟩ := hchecks
  exact ⟨hlead, horder, hlow, hhigh, rfl, rfl⟩

end Limits

end Exact

end WavemakerController
