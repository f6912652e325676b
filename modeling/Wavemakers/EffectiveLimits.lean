/-
The configured limits over doubles with infinities and NaN.

The checks are written in both polarities. `move_to` refuses a velocity that is not
positive, and with it NaN; it refuses a position that is below or above, which NaN is not.
`on_configure` asks the limits of an angular drive to be finite, but neither those of a
linear drive nor, for either, the maximum speed: the constructor only refuses limits that
are out of order and a speed that is not positive, which NaN and an infinity pass. The
theorem says exactly which moves and which configurations the limits bind.
-/
import Wavemakers.Doubles
import Wavemakers.TravelLimits

set_option autoImplicit false

namespace WavemakerController

open Numeric

/-! ## What the checks leave -/

/-- What is known of the drive of an accepted parameter set. -/
structure Kept (p : Params Double) (n : Node Double) : Prop where
  limits : (n.actuator_.min_position_, n.actuator_.max_position_) = drive_limits p
  max_velocity : n.actuator_.max_velocity_rpm_ = p.max_velocity_rpm
  drive_type : n.actuator_.actuator_drive_type_ = p.actuator_drive_type
  lead : n.actuator_.lead_m_per_degree_ = p.actuator_lead_m_per_degree
  not_nonpositive : ¬ p.max_velocity_rpm ≤ 0
  scaled : p.actuator_drive_type = .angular →
    isfinite p.actuator_lead_m_per_degree = true ∧ ¬ p.actuator_lead_m_per_degree ≤ 0

theorem on_configure_kept {p : Params Double} {n : Node Double} (h : on_configure p = some n) :
    Kept p n := by
  simp only [on_configure, Option.bind_eq_bind, Option.bind_eq_some_iff, Option.guard_eq_some',
    Option.pure_def, Option.some.injEq, exists_const, Prod.exists] at h
  obtain ⟨-, -, lo, hi, hlimits, -, -, -, -, -, -, -, -, a, ha, -, rfl⟩ := h
  simp only [IndraDriveActuator.construct, Option.bind_eq_bind, Option.bind_eq_some_iff,
    Option.guard_eq_some', Option.pure_def, Option.some.injEq, exists_const] at ha
  obtain ⟨-, -, -, -, -, -, hdrive, -, rfl⟩ := ha
  refine ⟨rfl, rfl, rfl, rfl, fun hle => hdrive (.inr (.inl hle)), fun hangular => ?_⟩
  rw [travel_limits, if_pos hangular] at hlimits
  simp only [Option.bind_eq_bind, Option.bind_eq_some_iff, Option.guard_eq_some', Option.pure_def,
    exists_const] at hlimits
  obtain ⟨hscale, -⟩ := hlimits
  refine ⟨?_, fun hle => hscale (.inr (.inl hle))⟩
  by_contra hinfinite
  exact hscale (.inl (Bool.eq_false_iff.mpr hinfinite))

/-! ## The drive's limits -/

/-- A move that the drive's limits bind: everything about it is finite and in range. -/
structure Bound (a : IndraDriveActuator Double) (position velocity_rpm : Double) : Prop where
  finite : isfinite position = true ∧ isfinite velocity_rpm = true
  position : a.min_position_ ≤ position ∧ position ≤ a.max_position_
  velocity : 0 < velocity_rpm ∧ velocity_rpm ≤ a.max_velocity_rpm_
  limits : isfinite a.min_position_ = true ∧ isfinite a.max_position_ = true ∧
    isfinite a.max_velocity_rpm_ = true

theorem move_to_ok_iff {F : Type} [Zero F] [LT F] [DecidableLT F] {a : IndraDriveActuator F}
    {position velocity_rpm : F} :
    a.move_to true false position velocity_rpm = .ok () ↔
      ¬(position < a.min_position_ ∨ a.max_position_ < position) ∧
        ¬(¬(0 < velocity_rpm) ∨ a.max_velocity_rpm_ < velocity_rpm) := by
  have hready : ¬(true = false ∨ false = true) := by
    rintro (hfalse | hfalse)
    · cases hfalse
    · cases hfalse
  unfold IndraDriveActuator.move_to
  rw [if_neg hready]
  by_cases hposition : position < a.min_position_ ∨ a.max_position_ < position
  · rw [if_pos hposition]
    exact ⟨nofun, fun h => absurd hposition h.1⟩
  · rw [if_neg hposition]
    by_cases hvelocity : ¬(0 < velocity_rpm) ∨ a.max_velocity_rpm_ < velocity_rpm
    · rw [if_pos hvelocity]
      exact ⟨nofun, fun h => absurd hvelocity h.2⟩
    · rw [if_neg hvelocity]
      exact ⟨fun _ => ⟨hposition, hvelocity⟩, fun _ => rfl⟩

/-- With finite limits every move but one to NaN is bound. -/
theorem bound_of_finite {a : IndraDriveActuator Double} {position velocity_rpm : Double}
    (hlimits : isfinite a.min_position_ = true ∧ isfinite a.max_position_ = true ∧
      isfinite a.max_velocity_rpm_ = true) (hnan : position ≠ .nan)
    (hok : a.move_to true false position velocity_rpm = .ok ()) : Bound a position velocity_rpm := by
  obtain ⟨hposition, hvelocity⟩ := move_to_ok_iff.mp hok
  obtain ⟨hmin, hmax, hspeed⟩ := hlimits
  -- a comparison that fails is the opposite one, unless NaN is in it
  have hlow : a.min_position_ ≤ position :=
    Double.le_of_not_lt (Double.ne_nan_of_finite hmin) hnan fun hlt => hposition (.inl hlt)
  have hhigh : position ≤ a.max_position_ :=
    Double.le_of_not_lt hnan (Double.ne_nan_of_finite hmax) fun hlt => hposition (.inr hlt)
  have hpos : 0 < velocity_rpm := by
    by_contra hneg
    exact hvelocity (.inl hneg)
  have hle : velocity_rpm ≤ a.max_velocity_rpm_ :=
    Double.le_of_not_lt (Double.ne_nan_of_lt hpos).2 (Double.ne_nan_of_finite hspeed)
      fun hlt => hvelocity (.inr hlt)
  exact ⟨⟨Double.finite_of_le hmin hmax hlow hhigh,
    Double.finite_of_le rfl hspeed (Double.le_of_lt hpos) hle⟩, ⟨hlow, hhigh⟩, ⟨hpos, hle⟩, hmin,
    hmax, hspeed⟩

/-- **When a move is bound**: exactly if its own comparisons refuse it, or it is not to NaN
and the limits are finite. -/
theorem move_bound_iff (a : IndraDriveActuator Double) (position velocity_rpm : Double) :
    (a.move_to true false position velocity_rpm = .ok () → Bound a position velocity_rpm) ↔
      ((position < a.min_position_ ∨ a.max_position_ < position) ∨
        (¬(0 < velocity_rpm) ∨ a.max_velocity_rpm_ < velocity_rpm)) ∨
      (position ≠ .nan ∧ isfinite a.min_position_ = true ∧ isfinite a.max_position_ = true ∧
        isfinite a.max_velocity_rpm_ = true) := by
  constructor
  · intro hbound
    by_cases hrefused : (position < a.min_position_ ∨ a.max_position_ < position) ∨
        (¬(0 < velocity_rpm) ∨ a.max_velocity_rpm_ < velocity_rpm)
    · exact .inl hrefused
    · have hb := hbound (move_to_ok_iff.mpr (not_or.mp hrefused))
      exact .inr ⟨Double.ne_nan_of_finite hb.finite.1, hb.limits⟩
  · rintro (hrefused | ⟨hnan, hlimits⟩) hok
    · obtain ⟨hposition, hvelocity⟩ := move_to_ok_iff.mp hok
      exact absurd hrefused (not_or.mpr ⟨hposition, hvelocity⟩)
    · exact bound_of_finite hlimits hnan hok

/-! ## The speed limit -/

theorem Kept.max_velocity_mps_finite {p : Params Double} {n : Node Double} (h : Kept p n)
    (hspeed : isfinite p.max_velocity_rpm = true) :
    isfinite n.actuator_.max_velocity_mps = true := by
  have hsix : isfinite (p.max_velocity_rpm * ((6 : ℚ) : Double)) = true :=
    Double.isfinite_mul hspeed rfl
  unfold IndraDriveActuator.max_velocity_mps
  dsimp only
  rw [h.max_velocity, h.drive_type, h.lead]
  split
  · rename_i hangular
    exact Double.isfinite_mul hsix (h.scaled hangular).1
  · exact hsix

/-- A maximum speed that is not finite leaves no speed limit. -/
theorem Kept.max_velocity_mps_unlimited {p : Params Double} {n : Node Double} (h : Kept p n)
    (hspeed : isfinite p.max_velocity_rpm = false) :
    isfinite n.actuator_.max_velocity_mps = false ∧ ¬ n.actuator_.max_velocity_mps ≤ 0 := by
  have hsix := Double.scaled_of_not_finite hspeed h.not_nonpositive
    (rfl : isfinite ((6 : ℚ) : Double) = true) (by decide +kernel)
  unfold IndraDriveActuator.max_velocity_mps
  dsimp only
  rw [h.max_velocity, h.drive_type, h.lead]
  split
  · rename_i hangular
    obtain ⟨hfinite, hpos⟩ := h.scaled hangular
    exact Double.scaled_of_not_finite hsix.1 hsix.2 hfinite hpos
  · exact hsix

theorem within_speed_limit_iff {n : Node Double} {peak : Double} :
    n.within_speed_limit peak = true ↔
      isfinite peak = true ∧ ¬ n.actuator_.max_velocity_mps < peak := by
  simp only [Node.within_speed_limit, Bool.not_or, Bool.not_not, Bool.and_eq_true,
    Bool.not_eq_true', decide_eq_false_iff_not]

/-- **When the speed limit binds**: exactly if the drive's maximum speed is finite. -/
theorem Kept.speed_limit_iff {p : Params Double} {n : Node Double} (h : Kept p n) :
    (∀ peak, n.within_speed_limit peak = true →
      peak ≤ n.actuator_.max_velocity_mps ∧ isfinite n.actuator_.max_velocity_mps = true) ↔
      isfinite p.max_velocity_rpm = true := by
  constructor
  · intro hlimit
    by_contra hinfinite
    obtain ⟨hmps, hpos⟩ := h.max_velocity_mps_unlimited (Bool.eq_false_iff.mpr hinfinite)
    -- standing still is within any limit
    have hzero : n.within_speed_limit 0 = true :=
      within_speed_limit_iff.mpr ⟨rfl, Double.not_lt_of_not_le hpos⟩
    have hfinite := (hlimit 0 hzero).2
    rw [hmps] at hfinite
    cases hfinite
  · intro hspeed peak hpeak
    have hmps := h.max_velocity_mps_finite hspeed
    obtain ⟨hfinite, hle⟩ := within_speed_limit_iff.mp hpeak
    exact ⟨Double.le_of_not_lt (Double.ne_nan_of_finite hfinite) (Double.ne_nan_of_finite hmps) hle,
      hmps⟩

/-- **Exactly which moves and configurations the limits bind.** -/
theorem effective_limits_iff {p : Params Double} {n : Node Double} (h : on_configure p = some n)
    (position velocity_rpm : Double) :
    ((n.actuator_.move_to true false position velocity_rpm = .ok () →
        (isfinite position = true ∧ isfinite velocity_rpm = true) ∧
        ((drive_limits p).1 ≤ position ∧ position ≤ (drive_limits p).2) ∧
        (0 < velocity_rpm ∧ velocity_rpm ≤ p.max_velocity_rpm) ∧
        (isfinite (drive_limits p).1 = true ∧ isfinite (drive_limits p).2 = true ∧
          isfinite p.max_velocity_rpm = true)) ↔
      ((position < (drive_limits p).1 ∨ (drive_limits p).2 < position) ∨
        (¬(0 < velocity_rpm) ∨ p.max_velocity_rpm < velocity_rpm)) ∨
      (position ≠ .nan ∧ isfinite (drive_limits p).1 = true ∧ isfinite (drive_limits p).2 = true ∧
        isfinite p.max_velocity_rpm = true)) ∧
    ((∀ peak, n.within_speed_limit peak = true →
        peak ≤ n.actuator_.max_velocity_mps ∧ isfinite n.actuator_.max_velocity_mps = true) ↔
      isfinite p.max_velocity_rpm = true) := by
  have hkept := on_configure_kept h
  have hmove := move_bound_iff n.actuator_ position velocity_rpm
  obtain ⟨hmin, hmax⟩ := Prod.ext_iff.mp hkept.limits
  dsimp only at hmin hmax
  rw [hmin, hmax, hkept.max_velocity] at hmove
  -- the drive's own fields are the parameters' values
  refine ⟨Iff.trans ⟨fun hbound hok => ?_, fun hbound hok => ?_⟩ hmove, hkept.speed_limit_iff⟩
  · obtain ⟨hfinite, hposition, hvelocity, hlimits⟩ := hbound hok
    rw [← hmin, ← hmax] at hposition hlimits
    rw [← hkept.max_velocity] at hvelocity hlimits
    exact ⟨hfinite, hposition, hvelocity, hlimits⟩
  · have hb := hbound hok
    have hposition := hb.position
    have hvelocity := hb.velocity
    have hlimits := hb.limits
    rw [hmin, hmax] at hposition hlimits
    rw [hkept.max_velocity] at hvelocity hlimits
    exact ⟨hb.finite, hposition, hvelocity, hlimits⟩

/-! ## On the bench -/

/-- The bench tank's parameters as doubles. -/
def Params.doubles (p : Params ℚ) : Params Double :=
  { p with
    wavemaker_upright_position_m := .fin p.wavemaker_upright_position_m
    water_depth := .fin p.water_depth
    wavemaker_transfer_gain := .fin p.wavemaker_transfer_gain
    wavemaker_transfer_gain_periods := p.wavemaker_transfer_gain_periods.map .fin
    wavemaker_transfer_gain_values := p.wavemaker_transfer_gain_values.map .fin
    flap_attachment_height := .fin p.flap_attachment_height
    hinge_height := .fin p.hinge_height
    actuator_upright_angle_deg := .fin p.actuator_upright_angle_deg
    actuator_lead_m_per_degree := .fin p.actuator_lead_m_per_degree
    wavemaker_minimum := .fin p.wavemaker_minimum
    wavemaker_maximum := .fin p.wavemaker_maximum
    return_to_upright_max_velocity_mps := .fin p.return_to_upright_max_velocity_mps
    return_to_upright_min_duration_s := .fin p.return_to_upright_min_duration_s
    return_to_upright_default_tolerance_m := .fin p.return_to_upright_default_tolerance_m
    return_to_upright_timeout_margin_s := .fin p.return_to_upright_timeout_margin_s
    positioning_velocity_margin := .fin p.positioning_velocity_margin
    min_position_deg := .fin p.min_position_deg
    max_position_deg := .fin p.max_position_deg
    min_position_m := .fin p.min_position_m
    max_position_m := .fin p.max_position_m
    max_velocity_rpm := .fin p.max_velocity_rpm
    hold_velocity_rpm := .fin p.hold_velocity_rpm
    in_position_tol_deg := .fin p.in_position_tol_deg }

/-- A move to NaN passes the limits of an ordinary configuration; with NaN as the maximum
speed the configuration is accepted, the drive takes an infinite velocity, and no peak
velocity is too high. -/
theorem limits_without_effect :
    (∃ n, on_configure (bench .linear 1).doubles = some n ∧
      n.actuator_.move_to true false .nan (.fin 10) = .ok () ∧ isfinite Double.nan = false) ∧
    ∃ n, on_configure { (bench .linear 1).doubles with max_velocity_rpm := .nan } = some n ∧
      n.actuator_.move_to true false (.fin 0) (.inf false) = .ok () ∧
      n.within_speed_limit (.fin 1000000) = true ∧
      isfinite n.actuator_.max_velocity_mps = false := by
  have hordinary : ((on_configure (bench .linear 1).doubles).map fun n =>
      (n.actuator_.move_to true false .nan (.fin 10)).isOk) = some true := by
    decide +kernel
  have hnan : ((on_configure { (bench .linear 1).doubles with max_velocity_rpm := .nan }).map
      fun n => ((n.actuator_.move_to true false (.fin 0) (.inf false)).isOk,
        n.within_speed_limit (.fin 1000000), isfinite n.actuator_.max_velocity_mps)) =
          some (true, true, false) := by
    decide +kernel
  have hunit : ∀ {x : Except Refusal Unit}, x.isOk = true → x = .ok () := by
    intro x hx
    cases x with
    | error e => cases hx
    | ok u => rfl
  constructor
  · obtain ⟨n, hn, hok⟩ := Option.map_eq_some_iff.mp hordinary
    exact ⟨n, hn, hunit hok, rfl⟩
  · obtain ⟨n, hn, hval⟩ := Option.map_eq_some_iff.mp hnan
    simp only [Prod.mk.injEq] at hval
    obtain ⟨hok, hlimit, hmps⟩ := hval
    exact ⟨n, hn, hunit hok, hlimit, hmps⟩

/-- The bench tank itself: its limits bind every move but one to NaN. -/
theorem effective_limits_bench :
    ∃ n, on_configure (bench .linear 1).doubles = some n ∧
      (n.actuator_.move_to true false (.fin (1 / 2)) (.fin 10) = .ok () →
        isfinite (Double.fin (1 / 2)) = true ∧ isfinite (Double.fin 10) = true) ∧
      ∀ peak, n.within_speed_limit peak = true →
        peak ≤ n.actuator_.max_velocity_mps ∧ isfinite n.actuator_.max_velocity_mps = true := by
  have heval : ((on_configure (bench .linear 1).doubles).map fun _ => true) = some true := by
    decide +kernel
  obtain ⟨n, hn, -⟩ := Option.map_eq_some_iff.mp heval
  obtain ⟨hmove, hspeed⟩ := effective_limits_iff hn (.fin (1 / 2)) (.fin 10)
  refine ⟨n, hn, fun hok => (hmove.mpr (.inr ?_) hok).1, hspeed.mpr rfl⟩
  exact ⟨nofun, rfl, rfl, rfl⟩

end WavemakerController
