/-
From an accepted motion to the setpoints the drive checks.

`prepare_goal` and `move_to_upright` decide in metres and metres per second which
motions start; `publish_and_write_setpoint` clamps every setpoint to the node's travel
limits and converts it; `write_setpoint` turns the speed cap into a feedrate in rpm;
`IndraDrive::move_to` checks the result against the drive's own limits. A motion is a
goal that `prepare_goal` accepted or a return that `move_to_upright` started, and what
is proved of it holds at every time of it.

For an angular drive the node derives its limits from those of the drive, and no
setpoint of an accepted motion is refused. For a linear drive they are two
independent pairs of parameters, and setpoints are refused exactly where the node's
range is not inside the drive's: every accepted configuration has a return that begins
at the lower limit and one that begins at the upper limit.
-/
import Wavemakers.NodeConfig
import Wavemakers.WaveTrajectory

set_option autoImplicit false

namespace WavemakerController

open Numeric

/-! ## Setpoints -/

section Setpoints

variable {F : Type} [Zero F] [Add F] [Sub F] [Mul F] [Div F] [Neg F] [LT F] [DecidableLT F]
  [RatCast F]

/-- In actuator units: the target and the speed limit. -/
structure ActuatorSetpoint (F : Type) where
  position : F
  velocity : F

/-- Why `move_to` refuses. -/
inductive Refusal where
  /-- or faulted -/
  | not_enabled
  | position_outside
  | velocity_outside
  deriving DecidableEq, Repr

namespace IndraDriveActuator

variable (a : IndraDriveActuator F)

def to_actuator_setpoint (position_m velocity_mps : F) : ActuatorSetpoint F :=
  if a.actuator_drive_type_ = .angular then
    { position := a.actuator_upright_angle_deg_ +
        (position_m - a.wavemaker_position_offset_m_) / a.lead_m_per_degree_
      velocity := velocity_mps / a.lead_m_per_degree_ }
  else ⟨position_m, velocity_mps⟩

/-- `IndraDrive::move_to` of a drive that is enabled, or faulted. -/
def move_to (enabled fault : Bool) (position velocity_rpm : F) : Except Refusal Unit :=
  if enabled = false ∨ fault = true then .error .not_enabled
  else if position < a.min_position_ ∨ a.max_position_ < position then .error .position_outside
  else if ¬(0 < velocity_rpm) ∨ a.max_velocity_rpm_ < velocity_rpm then .error .velocity_outside
  else .ok ()

/-- The drive expects a positive feedrate in rpm. -/
def feedrate (velocity : F) : F := std_max ((1 / 10 : ℚ) : F) (std_abs velocity / (6 : ℚ))

def write_setpoint (enabled fault : Bool) (setpoint : ActuatorSetpoint F) : Except Refusal Unit :=
  a.move_to enabled fault setpoint.position (feedrate setpoint.velocity)

end IndraDriveActuator

namespace Node

variable (n : Node F)

def clamped_position (position_m : F) : F :=
  std_clamp position_m n.goal_position_minimum_ n.goal_position_maximum_

/-- The setpoint `publish_and_write_setpoint` hands to the actuator. -/
def actuator_setpoint (position_m velocity_cap_mps : F) : ActuatorSetpoint F :=
  n.actuator_.to_actuator_setpoint (n.clamped_position position_m) velocity_cap_mps

def publish_and_write_setpoint (enabled fault : Bool) (position_m velocity_cap_mps : F) :
    Except Refusal Unit :=
  n.actuator_.write_setpoint enabled fault (n.actuator_setpoint position_m velocity_cap_mps)

def velocity_cap (peak_velocity_mps : F) : F :=
  std_min (peak_velocity_mps * n.params.positioning_velocity_margin) n.actuator_.max_velocity_mps

def within_speed_limit [IsFinite F] (peak_velocity_mps : F) : Bool :=
  !(!isfinite peak_velocity_mps || decide (n.actuator_.max_velocity_mps < peak_velocity_mps))

end Node

end Setpoints

/-! ## Motions -/

structure Goal (K : Type) where
  height : K
  period : K
  sample_interval : K
  positions : List K

/-- `move_to_upright` in front of its loop. -/
structure Return (K : Type) where
  start : K
  delta : K
  duration : K
  deadline : K
  velocity_cap_mps : K

/-- What a worker plays, with the speed cap it sends along. -/
inductive Motion (K : Type) where
  | wave (trajectory : WaveTrajectory K) (goal_velocity_cap_mps : K)
  | pregenerated (trajectory : PregeneratedWaveTrajectory K) (goal_velocity_cap_mps : K)
  | return_to_upright (r : Return K)

section Motions

variable {K : Type} [Field K] [LinearOrder K]

namespace Node

variable (m : Libm K) (n : Node K)

/-- The start position is inside the limits, up to the tolerance. -/
def start_inside (start_position : K) : Bool :=
  !(!isfinite start_position ||
    decide (start_position <
      n.goal_position_minimum_ - n.params.return_to_upright_default_tolerance_m) ||
    decide (n.goal_position_maximum_ + n.params.return_to_upright_default_tolerance_m <
      start_position))

/-- The cap of an accepted peak velocity. -/
def accept_peak_velocity (peak_velocity_mps : K) : Option K :=
  if n.within_speed_limit peak_velocity_mps then some (n.velocity_cap peak_velocity_mps) else none

def position_outside (position : K) : Bool :=
  !isfinite position || decide (position < n.goal_position_minimum_) ||
    decide (n.goal_position_maximum_ < position)

/-- The checks of a pregenerated goal in front of `configure`. -/
def configure_pregenerated (start_position : K) (goal : Goal K) :
    Option (PregeneratedWaveTrajectory K) :=
  if h : goal.positions = [] then none
  else if isfinite goal.sample_interval = false ∨ goal.sample_interval ≤ 0 then none
  else if goal.positions.any n.position_outside then none
  else
    -- Blend from the paddle position to the first pregenerated position.
    let distance := |goal.positions.head h - start_position|
    some {
      positions_ := goal.positions
      nonempty := h
      sample_interval_ := goal.sample_interval
      start_position_ := start_position
      blend_duration_ :=
        if distance ≤ n.params.return_to_upright_default_tolerance_m then 0
        else
          max (kQuinticPeakVelocityFactor * distance / n.params.return_to_upright_max_velocity_mps)
            n.params.return_to_upright_min_duration_s }

def accept_pregenerated (trajectory : PregeneratedWaveTrajectory K) : Option K :=
  if isfinite trajectory.duration = false then none
  else n.accept_peak_velocity trajectory.peak_velocity

def transfer_gain (period : K) : Option K :=
  if n.params.wavemaker_transfer_gain_periods = [] then some n.params.wavemaker_transfer_gain
  else
    (interpolate_gain n.params.wavemaker_transfer_gain_periods
      n.params.wavemaker_transfer_gain_values period).map (·.gain)

/-- The checks of a regular goal in front of `configure`. -/
def configure_wave (start_position : K) (goal : Goal K) : Option (WaveTrajectory K) :=
  if goal.positions ≠ [] then none
  else if isfinite goal.height = false ∨ isfinite goal.period = false ∨ goal.height ≤ 0 ∨
      goal.period ≤ 0 then none
  else
    (n.transfer_gain goal.period).map fun gain =>
      .configure m {
        type := n.params.wavemaker_type
        water_depth := n.params.water_depth
        flap_attachment_height := n.params.flap_attachment_height
        upright_position := n.params.wavemaker_upright_position_m
        upright_is_minimum := n.params.wavemaker_upright_is_minimum
        transfer_gain := gain
        hinge_height := n.params.hinge_height } goal.height goal.period start_position

def accept_wave (trajectory : WaveTrajectory K) : Option K :=
  if trajectory.required_minimum < n.goal_position_minimum_ ∨
      n.goal_position_maximum_ < trajectory.required_maximum then none
  else n.accept_peak_velocity (trajectory.peak_velocity m)

def prepare_goal (start_position : K) (goal : Goal K) : Option (Motion K) :=
  if n.start_inside start_position = false then none
  else if n.params.wavemaker_mode_pregenerated then
    (n.configure_pregenerated start_position goal).bind fun trajectory =>
      (n.accept_pregenerated trajectory).map (.pregenerated trajectory)
  else
    (n.configure_wave m start_position goal).bind fun trajectory =>
      (n.accept_wave m trajectory).map (.wave trajectory)

/-- `move_to_upright` up to its loop; `none` when there is nothing to move. -/
def move_to_upright (start tolerance : K) : Option (Return K) :=
  if n.start_inside start = false then none
  else
    let delta := n.params.wavemaker_upright_position_m - start
    if |delta| ≤ tolerance then none
    else
      let duration :=
        max (kQuinticPeakVelocityFactor * |delta| / n.params.return_to_upright_max_velocity_mps)
          n.params.return_to_upright_min_duration_s
      some {
        start := start
        delta := delta
        duration := duration
        deadline := duration + n.params.return_to_upright_timeout_margin_s
        velocity_cap_mps := n.velocity_cap (kQuinticPeakVelocityFactor * |delta| / duration) }

end Node

namespace Return

def peak_velocity (r : Return K) : K := kQuinticPeakVelocityFactor * |r.delta| / r.duration

/-- Position and velocity of the setpoint. -/
def sample (r : Return K) (t : K) : K × K :=
  let b := quintic_blend t r.duration
  (r.start + b.s * r.delta, b.ds * r.delta)

end Return

namespace Motion

def cap : Motion K → K
  | .wave _ c => c
  | .pregenerated _ c => c
  | .return_to_upright r => r.velocity_cap_mps

def peak_velocity (m : Libm K) : Motion K → K
  | .wave w _ => w.peak_velocity m
  | .pregenerated w _ => w.peak_velocity
  | .return_to_upright r => r.peak_velocity

/-- The setpoint in metres before it is clamped, and its velocity. -/
def sample [FloorSemiring K] (m : Libm K) : Motion K → K → Option (K × K)
  | .wave w _, t => some (w.sample m t)
  | .pregenerated w _, t => (w.sample t).map fun r => (r.1, r.2.1)
  | .return_to_upright r, t => some (r.sample t)

end Motion

/-- The motions the node plays: the goals it accepts and the returns it starts. -/
inductive Plays (m : Libm K) (n : Node K) : Motion K → Prop where
  | goal {start_position : K} {goal : Goal K} {x : Motion K} :
      n.prepare_goal m start_position goal = some x → Plays m n x
  | return_to_upright {start tolerance : K} {r : Return K} :
      n.move_to_upright start tolerance = some r → Plays m n (.return_to_upright r)

end Motions

/-! ## On the bench -/

/-- A tank with pregenerated waves: the node's linear range is one metre, the angular
one is 1.05 m at a millimetre per degree. -/
def bench (drive_type : DriveType) (max_position_m : ℚ) : Params ℚ where
  wavemaker_type := .piston
  driver_address := "192.168.127.254"
  wavemaker_upright_position_m := 0
  wavemaker_upright_is_minimum := false
  wavemaker_mode_pregenerated := true
  water_depth := 3 / 5
  wavemaker_transfer_gain := 1
  wavemaker_transfer_gain_periods := []
  wavemaker_transfer_gain_values := []
  flap_attachment_height := 0
  hinge_height := 0
  actuator_upright_angle_deg := 0
  actuator_drive_type := drive_type
  actuator_lead_m_per_degree := 1 / 1000
  wavemaker_minimum := 0
  wavemaker_maximum := 1
  return_to_upright_max_velocity_mps := 1 / 10
  return_to_upright_min_duration_s := 1
  return_to_upright_default_tolerance_m := 1 / 500
  return_to_upright_timeout_margin_s := 2
  positioning_velocity_margin := 6 / 5
  min_position_deg := -550
  max_position_deg := 500
  min_position_m := 0
  max_position_m := max_position_m
  max_velocity_rpm := 100
  hold_velocity_rpm := 10
  in_position_tol_deg := 1 / 10
  driver_port := 502
  driver_unit_id := 1
  input_base_reg := 0
  input_word_count := 8
  output_base_reg := 2048
  output_word_count := 8
  status_base_reg := 0
  status_word_count := 0
  input_uses_fc4 := true
  status_uses_fc4 := true
  write_only_dirty := false
  profibus_address := 2
  poll_interval_ms := 50
  timeout_ms := 1000
  reconnect_ms := 2000
  step_timeout_ms := 10000

/-- From upright to a position one second later. -/
def steps_to (position : ℚ) : Goal ℚ where
  height := 0
  period := 0
  sample_interval := 1
  positions := [0, position]

/-! ## What the node has checked -/

section Checks

variable {K : Type} [Field K] [LinearOrder K]
variable {m : Libm K} {p : Params K} {n : Node K}

theorem accept_peak_velocity_spec {peak c : K} (h : n.accept_peak_velocity peak = some c) :
    peak ≤ n.actuator_.max_velocity_mps ∧ c = n.velocity_cap peak := by
  obtain ⟨hlimit, heq⟩ := Option.ite_none_right_eq_some.mp h
  cases heq
  refine ⟨?_, rfl⟩
  simpa only [Node.within_speed_limit, isfinite_eq, Bool.not_true, Bool.false_or,
    Bool.not_eq_true', decide_eq_false_iff_not, not_lt] using hlimit

/-- A goal that is accepted is a wave of one of the two kinds, with its cap. -/
theorem prepare_goal_cases {start_position : K} {goal : Goal K} {x : Motion K}
    (h : n.prepare_goal m start_position goal = some x) :
    (∃ w c, x = .wave w c ∧ n.configure_wave m start_position goal = some w ∧
      n.accept_peak_velocity (w.peak_velocity m) = some c) ∨
    (∃ w c, x = .pregenerated w c ∧ n.configure_pregenerated start_position goal = some w ∧
      n.accept_peak_velocity w.peak_velocity = some c) := by
  unfold Node.prepare_goal at h
  split at h
  · cases h
  · split at h
    · obtain ⟨w, hw, h⟩ := Option.bind_eq_some_iff.mp h
      obtain ⟨c, hc, rfl⟩ := Option.map_eq_some_iff.mp h
      obtain ⟨-, hc⟩ := Option.ite_none_left_eq_some.mp hc
      exact .inr ⟨w, c, rfl, hw, hc⟩
    · obtain ⟨w, hw, h⟩ := Option.bind_eq_some_iff.mp h
      obtain ⟨c, hc, rfl⟩ := Option.map_eq_some_iff.mp h
      obtain ⟨-, hc⟩ := Option.ite_none_left_eq_some.mp hc
      exact .inl ⟨w, c, rfl, hw, hc⟩

/-- A pregenerated goal that passes its checks is played, whatever `<cmath>` does. -/
theorem Plays.pregenerated {start_position : K} {goal : Goal K}
    {w : PregeneratedWaveTrajectory K} {c : K}
    (hmode : n.params.wavemaker_mode_pregenerated = true)
    (hstart : n.start_inside start_position = true)
    (hw : n.configure_pregenerated start_position goal = some w)
    (hc : n.accept_pregenerated w = some c) : Plays m n (.pregenerated w c) := by
  have hgoal : n.prepare_goal m start_position goal = some (.pregenerated w c) := by
    rw [Node.prepare_goal, if_neg (by rw [hstart]; nofun), if_pos hmode, hw, Option.bind_some, hc]
    rfl
  exact .goal hgoal

/-- What `move_to_upright` plays when it has something to move. -/
theorem move_to_upright_spec {start tolerance : K} {r : Return K}
    (h : n.move_to_upright start tolerance = some r) :
    r.start = start ∧ r.delta = n.params.wavemaker_upright_position_m - start ∧
      r.duration = max (kQuinticPeakVelocityFactor * |r.delta| /
        n.params.return_to_upright_max_velocity_mps) n.params.return_to_upright_min_duration_s ∧
      r.velocity_cap_mps = n.velocity_cap r.peak_velocity := by
  unfold Node.move_to_upright at h
  split at h
  · cases h
  · dsimp only at h
    split at h
    · cases h
    · cases h
      exact ⟨rfl, rfl, rfl, rfl⟩

theorem max_velocity_mps_angular {a : IndraDriveActuator K} (ha : Constructed p a)
    (htype : p.actuator_drive_type = .angular) :
    a.max_velocity_mps = p.max_velocity_rpm * 6 * p.actuator_lead_m_per_degree := by
  rw [IndraDriveActuator.max_velocity_mps, if_pos (ha.drive_type.trans htype), ha.lead,
    ha.max_velocity]
  push_cast
  rfl

/-- A drive that is enabled and not faulted accepts what is inside its limits. -/
theorem move_to_inside {a : IndraDriveActuator K} {position velocity_rpm : K}
    (hlow : a.min_position_ ≤ position) (hhigh : position ≤ a.max_position_)
    (hpos : 0 < velocity_rpm) (hle : velocity_rpm ≤ a.max_velocity_rpm_) (enabled fault : Bool) :
    a.move_to enabled fault position velocity_rpm =
      if enabled = false ∨ fault = true then .error .not_enabled else .ok () := by
  have hposition : ¬(position < a.min_position_ ∨ a.max_position_ < position) := by
    rintro (hlt | hlt)
    · exact absurd hlt (not_lt.mpr hlow)
    · exact absurd hlt (not_lt.mpr hhigh)
  have hvelocity : ¬(¬(0 < velocity_rpm) ∨ a.max_velocity_rpm_ < velocity_rpm) := by
    rintro (hneg | hlt)
    · exact hneg hpos
    · exact absurd hlt (not_lt.mpr hle)
  rw [IndraDriveActuator.move_to, if_neg hposition, if_neg hvelocity]

/-- Only a position outside the drive's limits is refused as such. -/
theorem move_to_outside {a : IndraDriveActuator K} {enabled fault : Bool}
    {position velocity_rpm : K}
    (h : a.move_to enabled fault position velocity_rpm = .error .position_outside) :
    position < a.min_position_ ∨ a.max_position_ < position := by
  unfold IndraDriveActuator.move_to at h
  split at h
  · cases h
  · by_contra hinside
    rw [if_neg hinside] at h
    split at h
    · cases h
    · cases h

theorem Configured.linear_setpoint (h : Configured p n)
    (htype : p.actuator_drive_type = .linear) (position_m cap : K) :
    (n.actuator_setpoint position_m cap).position = n.clamped_position position_m := by
  have hnot : n.actuator_.actuator_drive_type_ ≠ .angular := by
    rw [h.actuator.drive_type, htype]
    nofun
  rw [Node.actuator_setpoint, IndraDriveActuator.to_actuator_setpoint, if_neg hnot]

theorem start_inside_iff {start : K} : n.start_inside start = true ↔
    n.goal_position_minimum_ - n.params.return_to_upright_default_tolerance_m ≤ start ∧
      start ≤ n.goal_position_maximum_ + n.params.return_to_upright_default_tolerance_m := by
  simp only [Node.start_inside, isfinite_eq, Bool.not_true, Bool.false_or, Bool.not_or,
    Bool.and_eq_true, Bool.not_eq_true', decide_eq_false_iff_not, not_lt]

/-- A return that is admitted and longer than its tolerance is played. -/
theorem return_begins (start tolerance : K) (hinside : n.start_inside start = true)
    (hfar : tolerance < |n.params.wavemaker_upright_position_m - start|) :
    ∃ r, n.move_to_upright start tolerance = some r := by
  rw [Node.move_to_upright, if_neg (by rw [hinside]; nofun)]
  dsimp only
  rw [if_neg (not_le.mpr hfar)]
  exact ⟨_, rfl⟩

end Checks

section Exact

variable {K : Type} [Field K] [LinearOrder K] [IsStrictOrderedRing K]
variable {m : Libm K} {p : Params K} {n : Node K}

/-- Every motion has a setpoint at every time. -/
theorem Motion.sample_defined [FloorSemiring K] (x : Motion K) (t : K) :
    ∃ position velocity, x.sample m t = some (position, velocity) := by
  cases x with
  | wave w c => exact ⟨_, _, rfl⟩
  | pregenerated w c =>
      obtain ⟨r, hr⟩ := w.sample_defined t
      refine ⟨r.1, r.2.1, ?_⟩
      rw [Motion.sample, hr]
      rfl
  | return_to_upright r => exact ⟨_, _, rfl⟩

/-! ## Speed caps -/

/-- The cap of a peak within the speed limit lies between the two. -/
theorem Configured.cap_bounds (h : Configured p n) {peak : K} (hnonneg : 0 ≤ peak)
    (hle : peak ≤ n.actuator_.max_velocity_mps) :
    peak ≤ n.velocity_cap peak ∧ n.velocity_cap peak ≤ n.actuator_.max_velocity_mps := by
  rw [Node.velocity_cap, std_min_eq, h.params]
  exact ⟨le_min (le_mul_of_one_le_right hnonneg h.margin) hle, min_le_right _ _⟩

/-- A return is slow enough for its speed limit: its duration is chosen so. -/
theorem return_peak_le {d limit minimum : K} (hlimit : 0 < limit) (hminimum : 0 < minimum) :
    kQuinticPeakVelocityFactor * d / max (kQuinticPeakVelocityFactor * d / limit) minimum ≤
      limit := by
  have hpos : 0 < max (kQuinticPeakVelocityFactor * d / limit) minimum :=
    lt_max_of_lt_right hminimum
  rw [div_le_iff₀ hpos, mul_comm limit, ← div_le_iff₀ hlimit]
  exact le_max_left _ _

/-- The peak velocity of every motion is within the drive's speed, and the cap lies
between the two. -/
theorem plays_cap {x : Motion K} (h : Configured p n) (hx : Plays m n x) :
    0 ≤ x.peak_velocity m ∧ x.peak_velocity m ≤ x.cap ∧
      x.cap ≤ n.actuator_.max_velocity_mps := by
  rcases hx with hgoal | @⟨start, tolerance, r, hreturn⟩
  · rcases prepare_goal_cases hgoal with ⟨w, c, rfl, -, hc⟩ | ⟨w, c, rfl, -, hc⟩
    · obtain ⟨hle, rfl⟩ := accept_peak_velocity_spec hc
      have hnonneg := w.peak_velocity_nonneg m
      exact ⟨hnonneg, h.cap_bounds hnonneg hle⟩
    · obtain ⟨hle, rfl⟩ := accept_peak_velocity_spec hc
      have hnonneg := w.peak_velocity_nonneg
      exact ⟨hnonneg, h.cap_bounds hnonneg hle⟩
  · obtain ⟨-, -, hduration, hcap⟩ := move_to_upright_spec hreturn
    rw [h.params] at hduration
    have hlimit : 0 < p.return_to_upright_max_velocity_mps := h.returns _ (by simp)
    have hminimum : 0 < p.return_to_upright_min_duration_s := h.returns _ (by simp)
    have hnonneg : 0 ≤ r.peak_velocity := by
      have hpos : 0 < r.duration := by
        rw [hduration]
        exact lt_max_of_lt_right hminimum
      unfold Return.peak_velocity kQuinticPeakVelocityFactor
      positivity
    have hle : r.peak_velocity ≤ n.actuator_.max_velocity_mps := by
      rw [Return.peak_velocity, hduration]
      exact (return_peak_le hlimit hminimum).trans h.reaches
    refine ⟨hnonneg, ?_⟩
    show r.peak_velocity ≤ r.velocity_cap_mps ∧ r.velocity_cap_mps ≤ _
    rw [hcap]
    exact h.cap_bounds hnonneg hle

/-! ## Angular drives -/

theorem Configured.ordered (h : Configured p n) :
    n.goal_position_minimum_ < n.goal_position_maximum_ := by
  by_cases htype : p.actuator_drive_type = .angular
  · obtain ⟨hlead, horder, -, -, hlo, hhi⟩ := travel_limits_angular h.limits htype
    rw [hlo, hhi]
    gcongr
  · exact (travel_limits_linear h.limits htype).2.2.1

/-- A clamped setpoint is inside the node's limits. -/
theorem Configured.clamped (h : Configured p n) (position_m : K) :
    n.goal_position_minimum_ ≤ n.clamped_position position_m ∧
      n.clamped_position position_m ≤ n.goal_position_maximum_ :=
  std_clamp_mem h.ordered.le

/-- The node's limits in metres are the drive's in degrees. -/
theorem Configured.position_inside (h : Configured p n)
    (htype : p.actuator_drive_type = .angular) (position_m cap : K) :
    p.min_position_deg ≤ (n.actuator_setpoint position_m cap).position ∧
      (n.actuator_setpoint position_m cap).position ≤ p.max_position_deg := by
  obtain ⟨hlead, -, -, -, hlo, hhi⟩ := travel_limits_angular h.limits htype
  obtain ⟨hlow, hhigh⟩ := h.clamped position_m
  rw [hlo] at hlow
  rw [hhi] at hhigh
  rw [Node.actuator_setpoint, IndraDriveActuator.to_actuator_setpoint,
    if_pos (h.actuator.drive_type.trans htype), h.actuator.upright, h.actuator.offset,
    h.actuator.lead]
  dsimp only
  constructor
  · rw [← sub_le_iff_le_add', le_div_iff₀ hlead]
    linarith
  · rw [← le_sub_iff_add_le', div_le_iff₀ hlead]
    linarith

theorem feedrate_eq (velocity : K) :
    IndraDriveActuator.feedrate velocity = max (1 / 10) (|velocity| / 6) := by
  rw [IndraDriveActuator.feedrate, std_max_eq, std_abs_eq]
  push_cast
  rfl

/-- A speed cap within the drive's speed gives a feedrate the drive accepts, up to
the smallest feedrate there is. -/
theorem Configured.feedrate_inside (h : Configured p n)
    (htype : p.actuator_drive_type = .angular) (position_m : K) {cap : K} (hnonneg : 0 ≤ cap)
    (hle : cap ≤ n.actuator_.max_velocity_mps) :
    0 < IndraDriveActuator.feedrate (n.actuator_setpoint position_m cap).velocity ∧
      IndraDriveActuator.feedrate (n.actuator_setpoint position_m cap).velocity ≤
        max (1 / 10) p.max_velocity_rpm := by
  obtain ⟨hlead, -⟩ := travel_limits_angular h.limits htype
  rw [max_velocity_mps_angular h.actuator htype] at hle
  rw [Node.actuator_setpoint, IndraDriveActuator.to_actuator_setpoint,
    if_pos (h.actuator.drive_type.trans htype), h.actuator.lead, feedrate_eq]
  dsimp only
  refine ⟨lt_max_of_lt_left (by norm_num), max_le_max le_rfl ?_⟩
  rw [abs_of_nonneg (div_nonneg hnonneg hlead.le), div_le_iff₀ (by norm_num), div_le_iff₀ hlead]
  exact hle

/-- **An accepted motion of an angular drive is never refused part-way.** Whatever the
motion and at every time of it, the setpoint is inside the drive's limits, the feedrate
is positive and at most the drive's maximum or the smallest feedrate, and the speed cap
is between the motion's peak velocity and the drive's speed; so with a maximum of at
least the smallest feedrate only a drive that is not enabled or faulted refuses. -/
theorem angular_motion_accepted [FloorSemiring K] {x : Motion K}
    (h : on_configure p = some n) (htype : p.actuator_drive_type = .angular)
    (hx : Plays m n x) (t : K) :
    ∃ position velocity, x.sample m t = some (position, velocity) ∧
      (p.min_position_deg ≤ (n.actuator_setpoint position x.cap).position ∧
        (n.actuator_setpoint position x.cap).position ≤ p.max_position_deg) ∧
      (0 < IndraDriveActuator.feedrate (n.actuator_setpoint position x.cap).velocity ∧
        IndraDriveActuator.feedrate (n.actuator_setpoint position x.cap).velocity ≤
          max (1 / 10) p.max_velocity_rpm) ∧
      (x.peak_velocity m ≤ x.cap ∧ x.cap ≤ n.actuator_.max_velocity_mps) ∧
      (1 / 10 ≤ p.max_velocity_rpm → ∀ enabled fault,
        n.publish_and_write_setpoint enabled fault position x.cap =
          if enabled = false ∨ fault = true then .error .not_enabled else .ok ()) := by
  have hcfg := on_configure_spec h
  obtain ⟨hnonneg, hpeak, hcap⟩ := plays_cap hcfg hx
  obtain ⟨position, velocity, hsample⟩ := x.sample_defined (m := m) t
  have hposition := hcfg.position_inside htype position x.cap
  have hfeedrate := hcfg.feedrate_inside htype position (hnonneg.trans hpeak) hcap
  refine ⟨position, velocity, hsample, hposition, hfeedrate, ⟨hpeak, hcap⟩, ?_⟩
  intro hmax enabled fault
  have hlimits : (n.actuator_.min_position_, n.actuator_.max_position_) =
      (p.min_position_deg, p.max_position_deg) := by
    rw [hcfg.actuator.limits, drive_limits, if_pos htype]
  obtain ⟨hlow, hhigh⟩ := Prod.mk.inj hlimits
  -- the smallest feedrate is below the maximum, so the drive's own check passes
  rw [max_eq_right hmax] at hfeedrate
  apply move_to_inside
  · rw [hlow]
    exact hposition.1
  · rw [hhigh]
    exact hposition.2
  · exact hfeedrate.1
  · rw [hcfg.actuator.max_velocity]
    exact hfeedrate.2

/-- The wave of the bench tank, played by an angular drive. -/
theorem angular_wave_accepted :
    ∃ (n : Node ℚ) (x : Motion ℚ), on_configure (bench .angular 1) = some n ∧
      ∀ m : Libm ℚ, Plays m n x ∧ x.peak_velocity m ≤ x.cap ∧
        ∃ position velocity, x.sample m 1 = some (position, velocity) ∧
          n.publish_and_write_setpoint true false position x.cap = .ok () := by
  have heval : ((on_configure (bench .angular 1)).bind fun n =>
      (n.configure_pregenerated 0 (steps_to (2 / 5))).bind fun w =>
        (n.accept_pregenerated w).map fun _ =>
          (n.params.wavemaker_mode_pregenerated, n.start_inside 0)) = some (true, true) := by
    decide +kernel
  obtain ⟨n, hn, heval⟩ := Option.bind_eq_some_iff.mp heval
  obtain ⟨w, hw, heval⟩ := Option.bind_eq_some_iff.mp heval
  obtain ⟨c, hc, hval⟩ := Option.map_eq_some_iff.mp heval
  simp only [Prod.mk.injEq] at hval
  obtain ⟨hmode, hstart⟩ := hval
  refine ⟨n, .pregenerated w c, hn, fun m => ?_⟩
  have hplays : Plays m n (.pregenerated w c) := .pregenerated hmode hstart hw hc
  obtain ⟨position, velocity, hsample, -, -, ⟨hpeak, -⟩, haccepted⟩ :=
    angular_motion_accepted hn rfl hplays 1
  exact ⟨hplays, hpeak, position, velocity, hsample, haccepted (by decide +kernel) true false⟩

/-! ## Linear drives -/

/-- A return plays the position the paddle stands at first. -/
theorem return_starts {start tolerance : K} {r : Return K}
    (h : n.move_to_upright start tolerance = some r) : (r.sample 0).1 = start := by
  obtain ⟨hstart, -⟩ := move_to_upright_spec h
  rw [Return.sample, quintic_blend_zero, zero_mul, add_zero, hstart]

theorem Configured.upright_inside (h : Configured p n) :
    n.goal_position_minimum_ ≤ p.wavemaker_upright_position_m ∧
      p.wavemaker_upright_position_m ≤ n.goal_position_maximum_ := by
  by_cases htype : p.actuator_drive_type = .angular
  · obtain ⟨hlead, -, hlow, hhigh, hlo, hhi⟩ := travel_limits_angular h.limits htype
    rw [hlo, hhi]
    refine ⟨add_le_of_nonpos_right ?_, le_add_of_nonneg_right ?_⟩
    · exact mul_nonpos_of_nonpos_of_nonneg (sub_nonpos.mpr hlow) hlead.le
    · exact mul_nonneg (sub_nonneg.mpr hhigh) hlead.le
  · exact (travel_limits_linear h.limits htype).2.2.2

/-- Every configuration has a return that begins at the lower limit, and one that
begins at the upper limit: the paddle may stand outside by the tolerance. -/
theorem Configured.reaches_limits (h : Configured p n) :
    (∃ start tolerance r, n.move_to_upright start tolerance = some r ∧
      n.clamped_position (r.sample 0).1 = n.goal_position_minimum_) ∧
    (∃ start tolerance r, n.move_to_upright start tolerance = some r ∧
      n.clamped_position (r.sample 0).1 = n.goal_position_maximum_) := by
  obtain ⟨hlow, hhigh⟩ := h.upright_inside
  have horder := h.ordered
  have htol : 0 < p.return_to_upright_default_tolerance_m := h.returns _ (by simp)
  constructor
  · -- from below the lower limit
    refine ⟨n.goal_position_minimum_ - p.return_to_upright_default_tolerance_m,
      p.return_to_upright_default_tolerance_m / 2, ?_⟩
    obtain ⟨r, hr⟩ := return_begins (n := n)
      (n.goal_position_minimum_ - p.return_to_upright_default_tolerance_m)
      (p.return_to_upright_default_tolerance_m / 2)
      (by rw [start_inside_iff, h.params]; constructor <;> linarith)
      (by rw [h.params, abs_of_pos (by linarith)]; linarith)
    refine ⟨r, hr, ?_⟩
    rw [return_starts hr]
    exact std_clamp_le (by linarith) horder.le
  · refine ⟨n.goal_position_maximum_ + p.return_to_upright_default_tolerance_m,
      p.return_to_upright_default_tolerance_m / 2, ?_⟩
    obtain ⟨r, hr⟩ := return_begins (n := n)
      (n.goal_position_maximum_ + p.return_to_upright_default_tolerance_m)
      (p.return_to_upright_default_tolerance_m / 2)
      (by rw [start_inside_iff, h.params]; constructor <;> linarith)
      (by rw [h.params, abs_of_neg (by linarith)]; linarith)
    refine ⟨r, hr, ?_⟩
    rw [return_starts hr]
    exact std_clamp_ge (by linarith) horder.le

/-- **When the linear limits agree.** No setpoint of any motion the node plays is
outside the drive's range, and none is refused for its position, exactly if the
node's range is inside the drive's. -/
theorem linear_limits_agree_iff [FloorSemiring K] (h : on_configure p = some n)
    (htype : p.actuator_drive_type = .linear) :
    (∀ x, Plays m n x → ∀ t, 0 ≤ t → ∃ position velocity,
      x.sample m t = some (position, velocity) ∧
      (p.min_position_m ≤ n.clamped_position position ∧
        n.clamped_position position ≤ p.max_position_m) ∧
      ∀ enabled fault,
        n.publish_and_write_setpoint enabled fault position x.cap ≠ .error .position_outside) ↔
    p.min_position_m ≤ p.wavemaker_minimum ∧ p.wavemaker_maximum ≤ p.max_position_m := by
  have hcfg := on_configure_spec h
  have hnot : p.actuator_drive_type ≠ .angular := by
    rw [htype]
    nofun
  obtain ⟨hlo, hhi, -⟩ := travel_limits_linear hcfg.limits hnot
  have hlimits : (n.actuator_.min_position_, n.actuator_.max_position_) =
      (p.min_position_m, p.max_position_m) := by
    rw [hcfg.actuator.limits, drive_limits, if_neg hnot]
  obtain ⟨hmin, hmax⟩ := Prod.mk.inj hlimits
  constructor
  · intro hall
    -- returns from just outside reach both ends of the node's range at their first setpoint
    obtain ⟨⟨_, _, r, hr, hlower⟩, ⟨_, _, r', hr', hupper⟩⟩ := hcfg.reaches_limits
    constructor
    · obtain ⟨position, velocity, hsample, ⟨hle, -⟩, -⟩ :=
        hall _ (.return_to_upright hr) 0 le_rfl
      cases hsample
      rw [← hlo, ← hlower]
      exact hle
    · obtain ⟨position, velocity, hsample, ⟨-, hle⟩, -⟩ :=
        hall _ (.return_to_upright hr') 0 le_rfl
      cases hsample
      rw [← hhi, ← hupper]
      exact hle
  · rintro ⟨hlow, hhigh⟩ x - t -
    obtain ⟨position, velocity, hsample⟩ := x.sample_defined (m := m) t
    obtain ⟨hclow, hchigh⟩ := hcfg.clamped position
    rw [hlo] at hclow
    rw [hhi] at hchigh
    have hinside : p.min_position_m ≤ n.clamped_position position ∧
        n.clamped_position position ≤ p.max_position_m :=
      ⟨hlow.trans hclow, hchigh.trans hhigh⟩
    refine ⟨position, velocity, hsample, hinside, fun enabled fault hrefused => ?_⟩
    have houtside := move_to_outside hrefused
    rw [hcfg.linear_setpoint htype, hmin, hmax] at houtside
    rcases houtside with hlt | hlt
    · exact absurd hlt (not_lt.mpr hinside.1)
    · exact absurd hlt (not_lt.mpr hinside.2)

end Exact

/-- The drive's range is the node's. -/
theorem matching_limits_agree :
    ∃ n : Node ℚ, on_configure (bench .linear 1) = some n ∧
      ∀ (m : Libm ℚ) (x : Motion ℚ), Plays m n x → ∀ t, 0 ≤ t → ∃ position velocity,
        x.sample m t = some (position, velocity) ∧ n.clamped_position position ≤ 1 := by
  have heval : (on_configure (bench .linear 1)).isSome = true := by
    decide +kernel
  obtain ⟨n, hn⟩ := Option.isSome_iff_exists.mp heval
  refine ⟨n, hn, fun m x hx t ht => ?_⟩
  obtain ⟨position, velocity, hsample, ⟨-, hle⟩, -⟩ :=
    (linear_limits_agree_iff hn rfl).mpr ⟨le_rfl, le_rfl⟩ x hx t ht
  exact ⟨position, velocity, hsample, hle⟩

/-- The drive's range is half of the node's: a wave the node has accepted is refused
one second after its start. -/
theorem accepted_wave_refused :
    ∃ (n : Node ℚ) (x : Motion ℚ), on_configure (bench .linear (1 / 2)) = some n ∧
      ∀ m : Libm ℚ, Plays m n x ∧
        ∃ position velocity, x.sample m 1 = some (position, velocity) ∧
          1 / 2 < n.clamped_position position ∧
          n.publish_and_write_setpoint true false position x.cap = .error .position_outside := by
  have heval : ((on_configure (bench .linear (1 / 2))).bind fun n =>
      (n.configure_pregenerated 0 (steps_to (4 / 5))).bind fun w =>
        (n.accept_pregenerated w).bind fun c => (w.sample 1).map fun r =>
          ((n.params.wavemaker_mode_pregenerated, n.start_inside 0),
            decide (1 / 2 < n.clamped_position r.1), decide (n.publish_and_write_setpoint true false
              r.1 c = .error .position_outside))) = some ((true, true), true, true) := by
    decide +kernel
  obtain ⟨n, hn, heval⟩ := Option.bind_eq_some_iff.mp heval
  obtain ⟨w, hw, heval⟩ := Option.bind_eq_some_iff.mp heval
  obtain ⟨c, hc, heval⟩ := Option.bind_eq_some_iff.mp heval
  obtain ⟨r, hr, hval⟩ := Option.map_eq_some_iff.mp heval
  simp only [Prod.mk.injEq, decide_eq_true_eq] at hval
  obtain ⟨⟨hmode, hstart⟩, houtside, hrefused⟩ := hval
  refine ⟨n, .pregenerated w c, hn, fun m => ⟨.pregenerated hmode hstart hw hc, ?_⟩⟩
  refine ⟨r.1, r.2.1, ?_, houtside, hrefused⟩
  rw [Motion.sample, hr]
  rfl

end WavemakerController
