/-
The regular wave in real arithmetic: its derivative, its range and its peak velocity.

`sample` reads the wave at the elapsed time in one mode and one period earlier in the
other, and changes from one to the other where the blend ends. The wave has the blend's
duration as its period, so none of this shows: at every time the position is a blend
between the start position and the wave (`sample_eq`), also after the blend, where the
blend factor stays at one.

`peak_velocity` takes the largest of 10001 samples of the blend and adds a ten-thousandth.
On the blend the velocity is a product of polynomials and sinusoids whose second
derivative is at most 372 times the largest velocity, per square of the duration. That is
far below the ten thousand that the margin and the number of samples leave room for.
-/
import Mathlib
import Wavemakers.QuinticBlend
import Wavemakers.SampledPeak
import Wavemakers.Stroke

set_option autoImplicit false

namespace WavemakerController

open Numeric

/-! ## The blend and its derivatives -/

theorem hasDerivAt_blend_shape (u : ℝ) : HasDerivAt blend_shape (blend_slope u) u := by
  have hshape : (blend_shape : ℝ → ℝ) = fun x => 10 * x ^ 3 - 15 * x ^ 4 + 6 * x ^ 5 := by
    funext x
    unfold blend_shape
    ring
  have hpoly := (((hasDerivAt_pow 3 u).const_mul 10).sub ((hasDerivAt_pow 4 u).const_mul 15)).add
    ((hasDerivAt_pow 5 u).const_mul 6)
  rw [hshape]
  apply hpoly.congr_deriv
  unfold blend_slope
  push_cast
  ring

/-- The slope of the slope. -/
def blend_bend (u : ℝ) : ℝ := 60 * u - 180 * u ^ 2 + 120 * u ^ 3

/-- And its slope. -/
def blend_jerk (u : ℝ) : ℝ := 60 - 360 * u + 360 * u ^ 2

theorem hasDerivAt_blend_slope (u : ℝ) : HasDerivAt blend_slope (blend_bend u) u := by
  have hslope : (blend_slope : ℝ → ℝ) = fun x => 30 * x ^ 2 - 60 * x ^ 3 + 30 * x ^ 4 := by
    funext x
    unfold blend_slope
    ring
  have hpoly := (((hasDerivAt_pow 2 u).const_mul 30).sub ((hasDerivAt_pow 3 u).const_mul 60)).add
    ((hasDerivAt_pow 4 u).const_mul 30)
  rw [hslope]
  apply hpoly.congr_deriv
  unfold blend_bend
  push_cast
  ring

theorem hasDerivAt_blend_bend (u : ℝ) : HasDerivAt blend_bend (blend_jerk u) u := by
  have hpoly := (((hasDerivAt_id u).const_mul 60).sub ((hasDerivAt_pow 2 u).const_mul 180)).add
    ((hasDerivAt_pow 3 u).const_mul 120)
  apply hpoly.congr_deriv
  unfold blend_jerk
  push_cast
  ring

theorem abs_blend_bend_le {u : ℝ} (h0 : 0 ≤ u) (h1 : u ≤ 1) : |blend_bend u| ≤ 60 := by
  have hprod : blend_bend u = 60 * (u * (1 - u)) * (1 - 2 * u) := by
    unfold blend_bend
    ring
  have hfirst : |u * (1 - u)| ≤ 1 := by
    rw [abs_of_nonneg (mul_nonneg h0 (sub_nonneg.mpr h1))]
    nlinarith
  have hsecond : |1 - 2 * u| ≤ 1 := abs_le.mpr ⟨by linarith, by linarith⟩
  rw [hprod, abs_mul, abs_mul, abs_of_pos (by norm_num : (0 : ℝ) < 60)]
  calc 60 * |u * (1 - u)| * |1 - 2 * u| ≤ 60 * 1 * 1 := by gcongr
    _ = 60 := by norm_num

theorem abs_blend_jerk_le {u : ℝ} (h0 : 0 ≤ u) (h1 : u ≤ 1) : |blend_jerk u| ≤ 60 := by
  have hnonneg : 0 ≤ u * (1 - u) := mul_nonneg h0 (sub_nonneg.mpr h1)
  have hquarter : u * (1 - u) ≤ 1 / 4 := by nlinarith [sq_nonneg (u - 1 / 2)]
  have hprod : blend_jerk u = 60 - 360 * (u * (1 - u)) := by
    unfold blend_jerk
    ring
  rw [hprod]
  exact abs_le.mpr ⟨by linarith, by linarith⟩

/-- A function that is another one on a closed set has its derivative there. -/
theorem hasDerivWithinAt_of_eq {f h : ℝ → ℝ} {d u : ℝ} {S : Set ℝ} (hS : IsClosed S)
    (heq : ∀ x ∈ S, f x = h x) (hd : u ∈ S → HasDerivAt h d u) : HasDerivWithinAt f d S u := by
  by_cases hu : u ∈ S
  · exact (hd hu).hasDerivWithinAt.congr_of_mem heq hu
  -- outside a closed set there is nothing to show
  · rw [← hS.closure_eq] at hu
    exact hasDerivWithinAt_iff_hasFDerivWithinAt.mpr (HasFDerivWithinAt.of_notMem_closure hu)

/-- The clamped blend has its slope as derivative also where the clamp begins to act: the
slope is zero there. -/
theorem hasDerivAt_clamped_shape (u : ℝ) :
    HasDerivAt (fun x => blend_shape (std_clamp x 0 1)) (blend_slope (std_clamp u 0 1)) u := by
  have hbelow : HasDerivWithinAt (fun x => blend_shape (std_clamp x 0 1))
      (blend_slope (std_clamp u 0 1)) (Set.Iic 0) u := by
    apply hasDerivWithinAt_of_eq isClosed_Iic (h := fun _ => 0)
    · intro x hx
      rw [std_clamp_le hx zero_le_one, blend_shape_zero]
    · intro hu
      rw [std_clamp_le hu zero_le_one, show blend_slope (0 : ℝ) = 0 by simp [blend_slope]]
      exact hasDerivAt_const u 0
  have hinside : HasDerivWithinAt (fun x => blend_shape (std_clamp x 0 1))
      (blend_slope (std_clamp u 0 1)) (Set.Icc 0 1) u := by
    apply hasDerivWithinAt_of_eq isClosed_Icc (h := blend_shape)
    · intro x hx
      rw [std_clamp_self hx.1 hx.2]
    · intro hu
      rw [std_clamp_self hu.1 hu.2]
      exact hasDerivAt_blend_shape u
  have habove : HasDerivWithinAt (fun x => blend_shape (std_clamp x 0 1))
      (blend_slope (std_clamp u 0 1)) (Set.Ici 1) u := by
    apply hasDerivWithinAt_of_eq isClosed_Ici (h := fun _ => 1)
    · intro x hx
      rw [std_clamp_ge hx zero_le_one, blend_shape_one]
    · intro hu
      rw [std_clamp_ge hu zero_le_one, show blend_slope (1 : ℝ) = 0 by norm_num [blend_slope]]
      exact hasDerivAt_const u 1
  -- the three pieces overlap in the points where the clamp begins to act
  have hcover : (Set.Iic 0 ∪ Set.Icc 0 1) ∪ Set.Ici 1 = (Set.univ : Set ℝ) := by
    rw [Set.Iic_union_Icc_eq_Iic zero_le_one, Set.Iic_union_Ici]
  rw [← hasDerivWithinAt_univ, ← hcover]
  exact (hbelow.union hinside).union habove

theorem hasDerivAt_quintic_blend {duration : ℝ} (t : ℝ) :
    HasDerivAt (fun x => (quintic_blend x duration).s) (quintic_blend t duration).ds t := by
  have hscaled := (hasDerivAt_id t).div_const duration
  have hchain := (hasDerivAt_clamped_shape (t / duration)).comp t hscaled
  exact hchain.congr_deriv (mul_one_div _ _)

/-! ## The wave -/

/-- What `configure` leaves behind: the wave's period is the blend's duration. -/
structure WaveTrajectory.Regular (w : WaveTrajectory ℝ) : Prop where
  duration_pos : 0 < w.startup_duration_
  omega : w.omega_ = 2 * Real.pi / w.startup_duration_
  amplitude_nonneg : 0 ≤ w.amplitude_

theorem WaveTrajectory.configure_regular {geometry : WavemakerGeometry ℝ}
    {wave_height period start_position : ℝ} (hperiod : 0 < period)
    (hamplitude : 0 ≤ (configure Libm.real geometry wave_height period start_position).amplitude_) :
    (configure Libm.real geometry wave_height period start_position).Regular :=
  ⟨hperiod, rfl, hamplitude⟩

namespace WaveTrajectory

variable (w : WaveTrajectory ℝ)

/-- The derivatives of the wave's velocity. -/
noncomputable def wave_acceleration (t : ℝ) : ℝ :=
  if w.upright_is_minimum_ then w.amplitude_ * w.omega_ * (w.omega_ * Real.cos (w.omega_ * t))
  else w.amplitude_ * w.omega_ * (w.omega_ * -Real.sin (w.omega_ * t))

noncomputable def wave_jerk (t : ℝ) : ℝ :=
  if w.upright_is_minimum_ then
    w.amplitude_ * w.omega_ * (w.omega_ * (w.omega_ * -Real.sin (w.omega_ * t)))
  else w.amplitude_ * w.omega_ * (w.omega_ * (w.omega_ * -Real.cos (w.omega_ * t)))

theorem hasDerivAt_phase (t : ℝ) : HasDerivAt (fun x => w.omega_ * x) w.omega_ t :=
  ((hasDerivAt_id t).const_mul w.omega_).congr_deriv (mul_one _)

theorem hasDerivAt_wave (t : ℝ) :
    HasDerivAt (fun x => (w.wave Libm.real x).1) (w.wave Libm.real t).2 t := by
  have hphase := w.hasDerivAt_phase t
  unfold wave
  by_cases hmin : w.upright_is_minimum_ = true
  · simp only [if_pos hmin]
    have h := ((hphase.cos.const_sub 1).const_mul w.amplitude_).const_add w.upright_position_
    apply h.congr_deriv
    simp only [Libm.real]
    ring
  · simp only [if_neg hmin]
    have h := (hphase.sin.const_mul w.amplitude_).const_add w.upright_position_
    apply h.congr_deriv
    simp only [Libm.real]
    ring

theorem hasDerivAt_wave_velocity (t : ℝ) :
    HasDerivAt (fun x => (w.wave Libm.real x).2) (w.wave_acceleration t) t := by
  have hphase := w.hasDerivAt_phase t
  unfold wave wave_acceleration
  by_cases hmin : w.upright_is_minimum_ = true
  · simp only [if_pos hmin]
    apply (hphase.sin.const_mul (w.amplitude_ * w.omega_)).congr_deriv
    ring
  · simp only [if_neg hmin]
    apply (hphase.cos.const_mul (w.amplitude_ * w.omega_)).congr_deriv
    ring

theorem hasDerivAt_wave_acceleration (t : ℝ) :
    HasDerivAt w.wave_acceleration (w.wave_jerk t) t := by
  have hphase := w.hasDerivAt_phase t
  have hunfold : w.wave_acceleration = fun x => if w.upright_is_minimum_ then
      w.amplitude_ * w.omega_ * (w.omega_ * Real.cos (w.omega_ * x))
      else w.amplitude_ * w.omega_ * (w.omega_ * -Real.sin (w.omega_ * x)) := rfl
  rw [hunfold]
  unfold wave_jerk
  by_cases hmin : w.upright_is_minimum_ = true
  · simp only [if_pos hmin]
    apply ((hphase.cos.const_mul w.omega_).const_mul (w.amplitude_ * w.omega_)).congr_deriv
    ring
  · simp only [if_neg hmin]
    apply ((hphase.sin.neg.const_mul w.omega_).const_mul (w.amplitude_ * w.omega_)).congr_deriv
    ring

variable {w}

/-- One period later the wave is the same. -/
theorem Regular.wave_periodic (h : w.Regular) (t : ℝ) :
    w.wave Libm.real (t - w.startup_duration_) = w.wave Libm.real t := by
  have hphase : w.omega_ * (t - w.startup_duration_) = w.omega_ * t - 2 * Real.pi := by
    have hne := h.duration_pos.ne'
    rw [mul_sub, h.omega]
    field_simp
  simp only [wave, Libm.real, hphase, Real.cos_sub_two_pi, Real.sin_sub_two_pi]

/-- **The wave at every time**: a blend from the start position to the wave, complete once
the duration has passed. -/
theorem Regular.sample_eq (h : w.Regular) (t : ℝ) :
    w.sample Libm.real t =
      (w.start_position_ + (quintic_blend t w.startup_duration_).s *
          ((w.wave Libm.real t).1 - w.start_position_),
        (quintic_blend t w.startup_duration_).ds * ((w.wave Libm.real t).1 - w.start_position_) +
          (quintic_blend t w.startup_duration_).s * (w.wave Libm.real t).2) := by
  -- `sample` shifts the phase by one period except in the first period of a one-sided wave
  have hwave : w.wave Libm.real (if w.upright_is_minimum_ = true ∧ t < w.startup_duration_ then t
      else t - w.startup_duration_) = w.wave Libm.real t := by
    split
    · rfl
    · exact h.wave_periodic t
  unfold sample
  dsimp only
  rw [hwave]
  by_cases ht : t < w.startup_duration_
  · rw [if_pos ht]
  -- past the blend the source adds nothing, and the blend is complete
  · obtain ⟨hs, hds⟩ := quintic_blend_done h.duration_pos (not_lt.mp ht)
    rw [if_neg ht, hs, hds]
    ext
    · simp only [one_mul, add_sub_cancel]
    · simp only [zero_mul, one_mul, zero_add]

/-! ## Smoothness and range -/

/-- The velocity is the derivative of the position, at every time. -/
theorem Regular.hasDerivAt_sample (h : w.Regular) (t : ℝ) :
    HasDerivAt (fun x => (w.sample Libm.real x).1) (w.sample Libm.real t).2 t := by
  have hfun : (fun x => (w.sample Libm.real x).1) = fun x =>
      w.start_position_ + (quintic_blend x w.startup_duration_).s *
        ((w.wave Libm.real x).1 - w.start_position_) := by
    funext x
    rw [h.sample_eq]
  rw [hfun, h.sample_eq]
  exact ((hasDerivAt_quintic_blend t).mul
    ((w.hasDerivAt_wave t).sub_const w.start_position_)).const_add w.start_position_

/-- The wave without the blend stays in the declared range. -/
theorem Regular.wave_mem (h : w.Regular) (t : ℝ) :
    w.required_minimum ≤ (w.wave Libm.real t).1 ∧
      (w.wave Libm.real t).1 ≤ w.required_maximum := by
  have hA := h.amplitude_nonneg
  unfold required_minimum required_maximum wave
  by_cases hmin : w.upright_is_minimum_ = true
  · simp only [if_pos hmin, Libm.real]
    have hlo := mul_nonneg hA (sub_nonneg.mpr (Real.cos_le_one (w.omega_ * t)))
    have hhi := mul_nonneg hA (neg_le_iff_add_nonneg.mp (Real.neg_one_le_cos (w.omega_ * t)))
    constructor
    · linarith
    · linarith
  · simp only [if_neg hmin, Libm.real]
    have hlo := mul_nonneg hA (neg_le_iff_add_nonneg.mp (Real.neg_one_le_sin (w.omega_ * t)))
    have hhi := mul_nonneg hA (sub_nonneg.mpr (Real.sin_le_one (w.omega_ * t)))
    constructor
    · linarith
    · linarith

/-- **The regular wave starts at rest, is smooth and stays in its range.** -/
theorem wave_smooth (geometry : WavemakerGeometry ℝ) (wave_height period start_position : ℝ)
    {w : WaveTrajectory ℝ} (hw : w = configure Libm.real geometry wave_height period start_position)
    (hperiod : 0 < period) (hamplitude : 0 ≤ w.amplitude_) :
    w.sample Libm.real 0 = (start_position, 0) ∧
    (∀ t, 0 < t →
      HasDerivAt (fun x => (w.sample Libm.real x).1) (w.sample Libm.real t).2 t) ∧
    ∀ t, 0 ≤ t →
      min start_position w.required_minimum ≤ (w.sample Libm.real t).1 ∧
        (w.sample Libm.real t).1 ≤ max start_position w.required_maximum := by
  have h : w.Regular := by
    rw [hw] at hamplitude ⊢
    exact configure_regular hperiod hamplitude
  have hstart : w.start_position_ = start_position := by rw [hw]; rfl
  refine ⟨?_, fun t _ => h.hasDerivAt_sample t, fun t _ => ?_⟩
  · obtain ⟨hs, hds⟩ := quintic_blend_start w.startup_duration_
    rw [h.sample_eq, hs, hds, zero_mul, zero_mul, add_zero, add_zero, hstart]
  · obtain ⟨hs0, hs1⟩ := quintic_blend_mem t w.startup_duration_
    obtain ⟨hlo, hhi⟩ := h.wave_mem t
    rw [h.sample_eq, hstart]
    exact mean_mem hs0 hs1 ⟨min_le_left _ _, le_max_left _ _⟩
      ⟨(min_le_right _ _).trans hlo, hhi.trans (le_max_right _ _)⟩

/-- The flap tank, in the middle of its blend and where the blend ends. -/
theorem wave_smooth_flap_tank :
    ∃ w : WaveTrajectory ℝ, w = configure Libm.real (.flap_tank 0) (1 / 10) 2 0 ∧
      0 < w.amplitude_ ∧
      HasDerivAt (fun x => (w.sample Libm.real x).1) (w.sample Libm.real 1).2 1 ∧
      HasDerivAt (fun x => (w.sample Libm.real x).1) (w.sample Libm.real 2).2 2 := by
  have hamplitude : 0 < (configure Libm.real (.flap_tank 0) (1 / 10) 2 0).amplitude_ :=
    (WavemakerGeometry.flap_tank_valid (by norm_num)).amplitude_pos (by norm_num) (by norm_num)
  have hsmooth := wave_smooth (.flap_tank 0) (1 / 10) 2 0 rfl (by norm_num) hamplitude.le
  exact ⟨_, rfl, hamplitude, hsmooth.2.1 1 (by norm_num), hsmooth.2.1 2 (by norm_num)⟩

/-! ## The velocity on the blend -/

variable (w)

/-- The velocity during the blend without the clamp, and its two derivatives. -/
noncomputable def blend_velocity (t : ℝ) : ℝ :=
  blend_slope (t / w.startup_duration_) / w.startup_duration_ *
      ((w.wave Libm.real t).1 - w.start_position_) +
    blend_shape (t / w.startup_duration_) * (w.wave Libm.real t).2

noncomputable def blend_acceleration (t : ℝ) : ℝ :=
  blend_bend (t / w.startup_duration_) / w.startup_duration_ ^ 2 *
      ((w.wave Libm.real t).1 - w.start_position_) +
    2 * (blend_slope (t / w.startup_duration_) / w.startup_duration_) * (w.wave Libm.real t).2 +
    blend_shape (t / w.startup_duration_) * w.wave_acceleration t

noncomputable def blend_change (t : ℝ) : ℝ :=
  blend_jerk (t / w.startup_duration_) / w.startup_duration_ ^ 3 *
      ((w.wave Libm.real t).1 - w.start_position_) +
    3 * (blend_bend (t / w.startup_duration_) / w.startup_duration_ ^ 2) * (w.wave Libm.real t).2 +
    3 * (blend_slope (t / w.startup_duration_) / w.startup_duration_) * w.wave_acceleration t +
    blend_shape (t / w.startup_duration_) * w.wave_jerk t

/-- A polynomial of the fraction of the duration, by time. -/
theorem hasDerivAt_fraction {f : ℝ → ℝ} {d T t : ℝ} (h : HasDerivAt f d (t / T)) :
    HasDerivAt (fun x => f (x / T)) (d / T) t :=
  (h.comp t ((hasDerivAt_id t).div_const T)).congr_deriv (mul_one_div _ _)

theorem hasDerivAt_blend_position (t : ℝ) :
    HasDerivAt (fun x => w.start_position_ + blend_shape (x / w.startup_duration_) *
      ((w.wave Libm.real x).1 - w.start_position_)) (w.blend_velocity t) t :=
  ((hasDerivAt_fraction (hasDerivAt_blend_shape _)).mul
    ((w.hasDerivAt_wave t).sub_const w.start_position_)).const_add w.start_position_

theorem hasDerivAt_blend_velocity (t : ℝ) :
    HasDerivAt w.blend_velocity (w.blend_acceleration t) t := by
  have hslope := (hasDerivAt_fraction (hasDerivAt_blend_slope (t / w.startup_duration_))).div_const
    w.startup_duration_
  have hshape := hasDerivAt_fraction (hasDerivAt_blend_shape (t / w.startup_duration_))
  have h := (hslope.mul ((w.hasDerivAt_wave t).sub_const w.start_position_)).add
    (hshape.mul (w.hasDerivAt_wave_velocity t))
  apply h.congr_deriv
  unfold blend_acceleration
  ring

theorem hasDerivAt_blend_acceleration (t : ℝ) :
    HasDerivAt w.blend_acceleration (w.blend_change t) t := by
  have hbend := (hasDerivAt_fraction (hasDerivAt_blend_bend (t / w.startup_duration_))).div_const
    (w.startup_duration_ ^ 2)
  have hslope := ((hasDerivAt_fraction (hasDerivAt_blend_slope
    (t / w.startup_duration_))).div_const w.startup_duration_).const_mul 2
  have hshape := hasDerivAt_fraction (hasDerivAt_blend_shape (t / w.startup_duration_))
  have h := ((hbend.mul ((w.hasDerivAt_wave t).sub_const w.start_position_)).add
    (hslope.mul (w.hasDerivAt_wave_velocity t))).add (hshape.mul (w.hasDerivAt_wave_acceleration t))
  apply h.congr_deriv
  unfold blend_change
  ring

variable {w}

/-- On the blend the clamp does nothing. -/
theorem Regular.velocity_eq (h : w.Regular) {t : ℝ} (ht : t ∈ Set.Icc 0 w.startup_duration_) :
    (w.sample Libm.real t).2 = w.blend_velocity t := by
  have hfraction : blend_fraction t w.startup_duration_ = t / w.startup_duration_ :=
    std_clamp_self (div_nonneg ht.1 h.duration_pos.le) ((div_le_one h.duration_pos).mpr ht.2)
  rw [h.sample_eq, quintic_blend_s, quintic_blend_ds, hfraction]
  rfl

theorem Regular.omega_pos (h : w.Regular) : 0 < w.omega_ := by
  have hT := h.duration_pos
  have hpi := Real.pi_pos
  rw [h.omega]
  positivity

theorem Regular.abs_wave_velocity_le (h : w.Regular) (t : ℝ) :
    |(w.wave Libm.real t).2| ≤ w.amplitude_ * w.omega_ := by
  have hpos : 0 ≤ w.amplitude_ * w.omega_ := mul_nonneg h.amplitude_nonneg h.omega_pos.le
  unfold wave
  split
  · rw [abs_mul, abs_of_nonneg hpos]
    exact mul_le_of_le_one_right hpos (Real.abs_sin_le_one _)
  · rw [abs_mul, abs_of_nonneg hpos]
    exact mul_le_of_le_one_right hpos (Real.abs_cos_le_one _)

theorem Regular.abs_wave_acceleration_le (h : w.Regular) (t : ℝ) :
    |w.wave_acceleration t| ≤ w.amplitude_ * w.omega_ * w.omega_ := by
  have hpos : 0 ≤ w.amplitude_ * w.omega_ := mul_nonneg h.amplitude_nonneg h.omega_pos.le
  have hω := h.omega_pos
  unfold wave_acceleration
  split
  · rw [abs_mul, abs_of_nonneg hpos, abs_mul, abs_of_pos hω]
    exact mul_le_mul_of_nonneg_left (mul_le_of_le_one_right hω.le (Real.abs_cos_le_one _)) hpos
  · rw [abs_mul, abs_of_nonneg hpos, abs_mul, abs_of_pos hω, abs_neg]
    exact mul_le_mul_of_nonneg_left (mul_le_of_le_one_right hω.le (Real.abs_sin_le_one _)) hpos

theorem Regular.abs_wave_jerk_le (h : w.Regular) (t : ℝ) :
    |w.wave_jerk t| ≤ w.amplitude_ * w.omega_ * (w.omega_ * w.omega_) := by
  have hpos : 0 ≤ w.amplitude_ * w.omega_ := mul_nonneg h.amplitude_nonneg h.omega_pos.le
  have hω := h.omega_pos
  unfold wave_jerk
  split
  · rw [abs_mul, abs_of_nonneg hpos, abs_mul, abs_mul, abs_of_pos hω, abs_neg]
    gcongr
    exact mul_le_of_le_one_right hω.le (Real.abs_sin_le_one _)
  · rw [abs_mul, abs_of_nonneg hpos, abs_mul, abs_mul, abs_of_pos hω, abs_neg]
    gcongr
    exact mul_le_of_le_one_right hω.le (Real.abs_cos_le_one _)

/-! ## The peak velocity -/

/-- One period is between six and eight radians. -/
theorem Regular.phase_mem (h : w.Regular) :
    6 ≤ w.omega_ * w.startup_duration_ ∧ w.omega_ * w.startup_duration_ ≤ 8 := by
  have hphase : w.omega_ * w.startup_duration_ = 2 * Real.pi := by
    rw [h.omega]
    exact div_mul_cancel₀ _ h.duration_pos.ne'
  have hlo := Real.pi_gt_three
  have hhi := Real.pi_le_four
  constructor
  · linarith
  · linarith

/-- The way from the start position to the wave. Over the whole blend it is covered at most
at the largest velocity, and the wave itself moves within twice its amplitude. -/
theorem Regular.distance_le (h : w.Regular) {M : ℝ}
    (hM : ∀ t ∈ Set.Icc 0 w.startup_duration_, |w.blend_velocity t| ≤ M) (t : ℝ) :
    |(w.wave Libm.real t).1 - w.start_position_| ≤
      M * w.startup_duration_ + 2 * w.amplitude_ := by
  have hT := h.duration_pos
  -- from the beginning of the blend to its end
  have hmean := SampledPeak.abs_sub_le w.hasDerivAt_blend_position hM
    (Set.left_mem_Icc.mpr hT.le) (Set.right_mem_Icc.mpr hT.le)
  rw [zero_div, div_self hT.ne', blend_shape_zero, blend_shape_one, zero_mul, one_mul, add_zero,
    add_sub_cancel, sub_zero, abs_of_pos hT] at hmean
  have hrange : w.required_maximum - w.required_minimum = 2 * w.amplitude_ := by
    unfold required_maximum required_minimum
    split
    · ring
    · ring
  obtain ⟨hlo, hhi⟩ := h.wave_mem t
  obtain ⟨hlo', hhi'⟩ := h.wave_mem w.startup_duration_
  have hwave : |(w.wave Libm.real t).1 - (w.wave Libm.real w.startup_duration_).1| ≤
      2 * w.amplitude_ := abs_le.mpr ⟨by linarith, by linarith⟩
  calc |(w.wave Libm.real t).1 - w.start_position_|
      ≤ |(w.wave Libm.real t).1 - (w.wave Libm.real w.startup_duration_).1| +
          |(w.wave Libm.real w.startup_duration_).1 - w.start_position_| := abs_sub_le _ _ _
    _ ≤ M * w.startup_duration_ + 2 * w.amplitude_ := by linarith

/-- A product of two bounded factors. -/
theorem abs_mul_le {x y a b : ℝ} (hx : |x| ≤ a) (hy : |y| ≤ b) : |x * y| ≤ a * b := by
  rw [abs_mul]
  exact mul_le_mul hx hy (abs_nonneg _) ((abs_nonneg _).trans hx)

/-- **How fast the acceleration changes on the blend**, against a bound on the velocity that
is at least the wave's own peak. -/
theorem Regular.change_le (h : w.Regular) {M : ℝ} (hwave : w.amplitude_ * w.omega_ ≤ M)
    (hM : ∀ t ∈ Set.Icc 0 w.startup_duration_, |w.blend_velocity t| ≤ M) {t : ℝ}
    (ht : t ∈ Set.Icc 0 w.startup_duration_) :
    |w.blend_change t| * w.startup_duration_ ^ 2 ≤ 372 * M := by
  have hT := h.duration_pos
  obtain ⟨hphase6, hphase8⟩ := h.phase_mem
  have hA := h.amplitude_nonneg
  have hB : 0 ≤ w.amplitude_ * w.omega_ := mul_nonneg hA h.omega_pos.le
  obtain ⟨hu0, hu1⟩ : 0 ≤ t / w.startup_duration_ ∧ t / w.startup_duration_ ≤ 1 :=
    ⟨div_nonneg ht.1 hT.le, (div_le_one hT).mpr ht.2⟩
  have hsum : w.blend_change t * w.startup_duration_ ^ 2 =
      blend_jerk (t / w.startup_duration_) *
        (((w.wave Libm.real t).1 - w.start_position_) / w.startup_duration_) +
      3 * blend_bend (t / w.startup_duration_) * (w.wave Libm.real t).2 +
      3 * blend_slope (t / w.startup_duration_) * (w.wave_acceleration t * w.startup_duration_) +
      blend_shape (t / w.startup_duration_) *
        (w.wave_jerk t * (w.startup_duration_ * w.startup_duration_)) := by
    unfold blend_change
    field_simp
  -- the distance, with the amplitude seen as a sixth of what the wave covers in a period
  have hdistance : |((w.wave Libm.real t).1 - w.start_position_) / w.startup_duration_| ≤
      M + w.amplitude_ * w.omega_ / 3 := by
    have hamplitude : 6 * w.amplitude_ ≤ w.amplitude_ * w.omega_ * w.startup_duration_ := by
      have := mul_le_mul_of_nonneg_left hphase6 hA
      linarith
    rw [abs_div, abs_of_pos hT, div_le_iff₀ hT]
    have hd := h.distance_le hM t
    linarith
  have hacceleration : |w.wave_acceleration t * w.startup_duration_| ≤
      w.amplitude_ * w.omega_ * 8 := by
    have hbound := abs_mul_le (h.abs_wave_acceleration_le t) (abs_of_pos hT).le
    rw [mul_assoc (w.amplitude_ * w.omega_)] at hbound
    exact hbound.trans (mul_le_mul_of_nonneg_left hphase8 hB)
  have hjerk : |w.wave_jerk t * (w.startup_duration_ * w.startup_duration_)| ≤
      w.amplitude_ * w.omega_ * 64 := by
    have hbound := abs_mul_le (h.abs_wave_jerk_le t) (abs_of_pos (mul_pos hT hT)).le
    have hsquare : w.omega_ * w.omega_ * (w.startup_duration_ * w.startup_duration_) ≤ 64 := by
      nlinarith
    rw [mul_assoc (w.amplitude_ * w.omega_)] at hbound
    exact hbound.trans (mul_le_mul_of_nonneg_left hsquare hB)
  have hslope : |3 * blend_slope (t / w.startup_duration_)| ≤ 6 := by
    have hle := blend_slope_le hu0 hu1
    unfold kQuinticPeakVelocityFactor at hle
    rw [abs_of_nonneg (mul_nonneg (by norm_num) (blend_slope_nonneg _))]
    linarith
  have hbend : |3 * blend_bend (t / w.startup_duration_)| ≤ 180 := by
    have hle := abs_blend_bend_le hu0 hu1
    rw [abs_mul, abs_of_pos (by norm_num : (0 : ℝ) < 3)]
    linarith
  have hshape : |blend_shape (t / w.startup_duration_)| ≤ 1 := by
    obtain ⟨hlo, hhi⟩ := blend_shape_mem hu0 hu1
    exact abs_le.mpr ⟨by linarith, hhi⟩
  have h₁ := abs_mul_le (abs_blend_jerk_le hu0 hu1) hdistance
  have h₂ := abs_mul_le hbend (h.abs_wave_velocity_le t)
  have h₃ := abs_mul_le hslope hacceleration
  have h₄ := abs_mul_le hshape hjerk
  calc |w.blend_change t| * w.startup_duration_ ^ 2
      = |w.blend_change t * w.startup_duration_ ^ 2| := by
        rw [abs_mul, abs_of_pos (pow_pos hT 2)]
    _ ≤ 60 * (M + w.amplitude_ * w.omega_ / 3) + 180 * (w.amplitude_ * w.omega_) +
          6 * (w.amplitude_ * w.omega_ * 8) + 1 * (w.amplitude_ * w.omega_ * 64) := by
        rw [hsum]
        refine (abs_add_le _ _).trans (add_le_add ?_ h₄)
        refine (abs_add_le _ _).trans (add_le_add ?_ h₃)
        exact (abs_add_le _ _).trans (add_le_add h₁ h₂)
    _ ≤ 372 * M := by linarith

/-- The largest of the samples and of the wave's own peak. -/
noncomputable def sampled_peak (w : WaveTrajectory ℝ) : ℝ :=
  (List.range (kBlendSamples + 1)).foldl (fun peak i => max peak (w.blend_speed Libm.real i))
    (w.amplitude_ * w.omega_)

theorem peak_velocity_eq (w : WaveTrajectory ℝ) :
    w.peak_velocity Libm.real = w.sampled_peak * (1 + 1 / 10000) := rfl

theorem wave_le_sampled (w : WaveTrajectory ℝ) : w.amplitude_ * w.omega_ ≤ w.sampled_peak :=
  le_foldl_max _ _ _

theorem blend_speed_le_sampled (w : WaveTrajectory ℝ) {i : ℕ} (hi : i ≤ kBlendSamples) :
    |(w.sample Libm.real (w.startup_duration_ * i / kBlendSamples)).2| ≤ w.sampled_peak :=
  mem_le_foldl_max (w.blend_speed Libm.real) (List.mem_range.mpr (Nat.lt_succ_of_le hi)) _

/-- The velocity on the blend, against the samples. -/
theorem Regular.abs_blend_velocity_le (h : w.Regular) {t : ℝ}
    (ht : t ∈ Set.Icc 0 w.startup_duration_) :
    |w.blend_velocity t| ≤ w.peak_velocity Libm.real := by
  have hT := h.duration_pos
  have hN : (kBlendSamples : ℝ) = 10000 := by norm_num [kBlendSamples]
  have hsamples : ∀ i : ℕ, i ≤ kBlendSamples →
      |w.blend_velocity (w.startup_duration_ * i / kBlendSamples)| ≤ w.sampled_peak := by
    intro i hi
    have hcast : (i : ℝ) ≤ kBlendSamples := Nat.cast_le.mpr hi
    have hgrid : w.startup_duration_ * i / kBlendSamples ∈ Set.Icc 0 w.startup_duration_ := by
      refine ⟨by positivity, ?_⟩
      rw [div_le_iff₀ (by rw [hN]; norm_num)]
      exact mul_le_mul_of_nonneg_left hcast hT.le
    rw [← h.velocity_eq hgrid]
    exact w.blend_speed_le_sampled hi
  have hends : |w.blend_velocity 0| ≤ w.sampled_peak ∧
      |w.blend_velocity w.startup_duration_| ≤ w.sampled_peak := by
    have hfirst := hsamples 0 (Nat.zero_le _)
    have hlast := hsamples kBlendSamples le_rfl
    rw [Nat.cast_zero, mul_zero, zero_div] at hfirst
    rw [mul_div_cancel_right₀ _ (by rw [hN]; norm_num)] at hlast
    exact ⟨hfirst, hlast⟩
  have hpeak := SampledPeak.peak_le (N := kBlendSamples) (C := 372) hT (Nat.succ_pos _) (by norm_num)
    (by rw [hN]; norm_num) w.hasDerivAt_blend_velocity w.hasDerivAt_blend_acceleration hends hsamples
    (fun M hM hbound x hx => h.change_le (w.wave_le_sampled.trans hM) hbound hx) t ht
  rw [hN] at hpeak
  -- the margin makes up for what the samples may miss
  have hmargin : (1 : ℝ) ≤ (1 - 372 / 10000 ^ 2) * (1 + 1 / 10000) := by norm_num
  rw [peak_velocity_eq]
  calc |w.blend_velocity t|
      ≤ |w.blend_velocity t| * ((1 - 372 / 10000 ^ 2) * (1 + 1 / 10000)) :=
        le_mul_of_one_le_right (abs_nonneg _) hmargin
    _ = |w.blend_velocity t| * (1 - 372 / 10000 ^ 2) * (1 + 1 / 10000) := by ring
    _ ≤ w.sampled_peak * (1 + 1 / 10000) := mul_le_mul_of_nonneg_right hpeak (by norm_num)

/-- **`peak_velocity` bounds every sample.** -/
theorem wave_velocity_le_peak (geometry : WavemakerGeometry ℝ) (wave_height period start_position : ℝ)
    {w : WaveTrajectory ℝ} (hw : w = configure Libm.real geometry wave_height period start_position)
    (hperiod : 0 < period) (hamplitude : 0 ≤ w.amplitude_) (t : ℝ) (ht : 0 ≤ t) :
    |(w.sample Libm.real t).2| ≤ w.peak_velocity Libm.real := by
  have h : w.Regular := by
    rw [hw] at hamplitude ⊢
    exact configure_regular hperiod hamplitude
  by_cases hblend : t ≤ w.startup_duration_
  · rw [h.velocity_eq ⟨ht, hblend⟩]
    exact h.abs_blend_velocity_le ⟨ht, hblend⟩
  · -- after the blend only the wave is left
    obtain ⟨hs, hds⟩ := quintic_blend_done h.duration_pos (not_le.mp hblend).le
    have hpos : 0 ≤ w.amplitude_ * w.omega_ := mul_nonneg hamplitude h.omega_pos.le
    have hvelocity : (w.sample Libm.real t).2 = (w.wave Libm.real t).2 := by
      rw [h.sample_eq, hs, hds]
      simp only [zero_mul, zero_add, one_mul]
    rw [hvelocity, peak_velocity_eq]
    calc |(w.wave Libm.real t).2| ≤ w.amplitude_ * w.omega_ := h.abs_wave_velocity_le t
      _ ≤ w.sampled_peak := w.wave_le_sampled
      _ ≤ w.sampled_peak * (1 + 1 / 10000) :=
          le_mul_of_one_le_right (hpos.trans w.wave_le_sampled) (by norm_num)

/-- The flap tank, between two samples of its blend. -/
theorem wave_velocity_le_peak_flap_tank :
    |((configure Libm.real (.flap_tank 0) (1 / 10) 2 1).sample Libm.real (1 / 3)).2| ≤
      (configure Libm.real (.flap_tank 0) (1 / 10) 2 1).peak_velocity Libm.real :=
  wave_velocity_le_peak (.flap_tank 0) (1 / 10) 2 1 rfl (by norm_num)
    ((WavemakerGeometry.flap_tank_valid (by norm_num)).amplitude_pos (by norm_num)
      (by norm_num)).le (1 / 3) (by norm_num)

end WaveTrajectory

end WavemakerController
