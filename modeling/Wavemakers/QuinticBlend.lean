/-
The shape of the quintic blend.

`quintic_blend` runs from 0 to 1 without turning back, and never steeper than
`kQuinticPeakVelocityFactor` over its duration. Both are facts about the slope
`30 u² (1 - u)²` on the unit interval: it is not negative, and at most `15 / 8` because
`u (1 - u)` is at most a quarter. The step from the slope to the blend itself needs no
integral. A quadrature rule with five nodes is exact for a slope of degree four, and all
its weights are positive, so a difference of blend values is a mean of slopes.
-/
import Mathlib
import Wavemakers.SpeedBound
import Wavemakers.WaveMath

set_option autoImplicit false

namespace WavemakerController

open Numeric

variable {K : Type} [Field K]

/-- The blend factor and its slope at a fraction of the duration. -/
def blend_shape (u : K) : K := 10 * (u * u * u) - 15 * (u * u * u * u) + 6 * (u * u * u * u * u)
def blend_slope (u : K) : K := 30 * (u * u) - 60 * (u * u * u) + 30 * (u * u * u * u)

theorem blend_shape_zero : blend_shape (0 : K) = 0 := by
  unfold blend_shape
  ring

theorem blend_shape_one : blend_shape (1 : K) = 1 := by
  unfold blend_shape
  ring

theorem blend_slope_eq (u : K) : blend_slope u = 30 * (u * (1 - u)) ^ 2 := by
  unfold blend_slope
  ring

variable [LinearOrder K]

/-- The fraction of the duration that has passed. -/
def blend_fraction (elapsed duration : K) : K := std_clamp (elapsed / duration) 0 1

theorem quintic_blend_s (elapsed duration : K) :
    (quintic_blend elapsed duration).s = blend_shape (blend_fraction elapsed duration) := rfl

theorem quintic_blend_ds (elapsed duration : K) :
    (quintic_blend elapsed duration).ds =
      blend_slope (blend_fraction elapsed duration) / duration := rfl

variable [IsStrictOrderedRing K]

/-! ## The slope -/

theorem blend_slope_nonneg (u : K) : 0 ≤ blend_slope u := by
  rw [blend_slope_eq]
  positivity

theorem blend_slope_le {u : K} (h0 : 0 ≤ u) (h1 : u ≤ 1) :
    blend_slope u ≤ kQuinticPeakVelocityFactor := by
  have hnonneg : 0 ≤ u * (1 - u) := mul_nonneg h0 (sub_nonneg.mpr h1)
  -- the slope is a square, and its root is largest halfway
  have hquarter : u * (1 - u) ≤ 1 / 4 := by nlinarith [sq_nonneg (u - 1 / 2)]
  have hsquare : (u * (1 - u)) ^ 2 ≤ (1 / 4) ^ 2 := pow_le_pow_left₀ hnonneg hquarter 2
  rw [blend_slope_eq]
  unfold kQuinticPeakVelocityFactor
  linarith

/-! ## From the slope to the blend -/

/-- The five-node rule: a difference of the blend is the length of the interval times a
mean of the slope. -/
theorem blend_shape_sub (u v : K) :
    blend_shape v - blend_shape u = (v - u) *
      ((7 * blend_slope u + 32 * blend_slope ((3 * u + v) / 4) + 12 * blend_slope ((u + v) / 2) +
        32 * blend_slope ((u + 3 * v) / 4) + 7 * blend_slope v) / 90) := by
  unfold blend_shape blend_slope
  field_simp
  ring

/-- **The blend does not turn back and is never steeper than its peak.** -/
theorem blend_shape_step {u v : K} (h0 : 0 ≤ u) (huv : u ≤ v) (h1 : v ≤ 1) :
    0 ≤ blend_shape v - blend_shape u ∧
      blend_shape v - blend_shape u ≤ kQuinticPeakVelocityFactor * (v - u) := by
  have hlen : 0 ≤ v - u := sub_nonneg.mpr huv
  -- at each of the five nodes the slope is between zero and its peak, hence so is the mean
  have hnode : ∀ x : K, u ≤ x → x ≤ v → blend_slope x ≤ kQuinticPeakVelocityFactor :=
    fun x hux hxv => blend_slope_le (h0.trans hux) (hxv.trans h1)
  have h₁ := hnode u le_rfl huv
  have h₂ := hnode ((3 * u + v) / 4) (by linarith) (by linarith)
  have h₃ := hnode ((u + v) / 2) (by linarith) (by linarith)
  have h₄ := hnode ((u + 3 * v) / 4) (by linarith) (by linarith)
  have h₅ := hnode v huv le_rfl
  have g₁ := blend_slope_nonneg u
  have g₂ := blend_slope_nonneg ((3 * u + v) / 4)
  have g₃ := blend_slope_nonneg ((u + v) / 2)
  have g₄ := blend_slope_nonneg ((u + 3 * v) / 4)
  have g₅ := blend_slope_nonneg v
  rw [blend_shape_sub]
  constructor
  · apply mul_nonneg hlen
    linarith
  · rw [mul_comm kQuinticPeakVelocityFactor]
    apply mul_le_mul_of_nonneg_left _ hlen
    linarith

/-! ## The blend over time -/

theorem blend_fraction_mem (elapsed duration : K) :
    0 ≤ blend_fraction elapsed duration ∧ blend_fraction elapsed duration ≤ 1 :=
  std_clamp_mem zero_le_one

theorem blend_fraction_step {t₁ t₂ duration : K} (hd : 0 < duration) (ht : t₁ ≤ t₂) :
    0 ≤ blend_fraction t₂ duration - blend_fraction t₁ duration ∧
      blend_fraction t₂ duration - blend_fraction t₁ duration ≤ (t₂ - t₁) / duration := by
  have hdiv : t₁ / duration ≤ t₂ / duration := div_le_div_of_nonneg_right ht hd.le
  refine ⟨sub_nonneg.mpr (std_clamp_mono zero_le_one hdiv), ?_⟩
  calc blend_fraction t₂ duration - blend_fraction t₁ duration
      ≤ |blend_fraction t₂ duration - blend_fraction t₁ duration| := le_abs_self _
    _ ≤ |t₂ / duration - t₁ / duration| := abs_std_clamp_sub_le zero_le_one
    _ = (t₂ - t₁) / duration := by rw [abs_of_nonneg (sub_nonneg.mpr hdiv), sub_div]

/-- The blend factor lies between 0 and 1. -/
theorem blend_shape_mem {u : K} (h0 : 0 ≤ u) (h1 : u ≤ 1) :
    0 ≤ blend_shape u ∧ blend_shape u ≤ 1 := by
  have hbelow := (blend_shape_step le_rfl h0 h1).1
  have habove := (blend_shape_step h0 h1 le_rfl).1
  rw [blend_shape_zero, sub_zero] at hbelow
  rw [blend_shape_one] at habove
  exact ⟨hbelow, sub_nonneg.mp habove⟩

theorem quintic_blend_mem (elapsed duration : K) :
    0 ≤ (quintic_blend elapsed duration).s ∧ (quintic_blend elapsed duration).s ≤ 1 := by
  obtain ⟨h0, h1⟩ := blend_fraction_mem elapsed duration
  rw [quintic_blend_s]
  exact blend_shape_mem h0 h1

/-- **One step of the blend over time.** -/
theorem quintic_blend_step {t₁ t₂ duration : K} (hd : 0 < duration) (ht : t₁ ≤ t₂) :
    0 ≤ (quintic_blend t₂ duration).s - (quintic_blend t₁ duration).s ∧
      (quintic_blend t₂ duration).s - (quintic_blend t₁ duration).s ≤
        kQuinticPeakVelocityFactor / duration * (t₂ - t₁) := by
  obtain ⟨hmono, hstep⟩ := blend_fraction_step hd ht
  obtain ⟨hshape, hsteep⟩ := blend_shape_step (blend_fraction_mem t₁ duration).1
    (sub_nonneg.mp hmono) (blend_fraction_mem t₂ duration).2
  -- the clamp only shortens the step in time
  refine ⟨hshape, hsteep.trans ?_⟩
  have hfactor : (0 : K) ≤ kQuinticPeakVelocityFactor := by
    unfold kQuinticPeakVelocityFactor
    positivity
  calc kQuinticPeakVelocityFactor * (blend_fraction t₂ duration - blend_fraction t₁ duration)
      ≤ kQuinticPeakVelocityFactor * ((t₂ - t₁) / duration) :=
        mul_le_mul_of_nonneg_left hstep hfactor
    _ = kQuinticPeakVelocityFactor / duration * (t₂ - t₁) := by ring

theorem quintic_blend_ds_mem {duration : K} (elapsed : K) (hd : 0 < duration) :
    0 ≤ (quintic_blend elapsed duration).ds ∧
      (quintic_blend elapsed duration).ds ≤ kQuinticPeakVelocityFactor / duration := by
  obtain ⟨h0, h1⟩ := blend_fraction_mem elapsed duration
  rw [quintic_blend_ds]
  exact ⟨div_nonneg (blend_slope_nonneg _) hd.le,
    div_le_div_of_nonneg_right (blend_slope_le h0 h1) hd.le⟩

/-- The blend begins at rest. -/
theorem quintic_blend_start (duration : K) :
    (quintic_blend 0 duration).s = 0 ∧ (quintic_blend 0 duration).ds = 0 := by
  have hu : blend_fraction 0 duration = 0 := by
    unfold blend_fraction
    rw [zero_div]
    exact std_clamp_le le_rfl zero_le_one
  refine ⟨quintic_blend_zero duration, ?_⟩
  rw [quintic_blend_ds, hu, blend_slope_eq, zero_mul, zero_pow two_ne_zero, mul_zero, zero_div]

/-- From its duration on the blend is complete and at rest. -/
theorem quintic_blend_done {elapsed duration : K} (hd : 0 < duration) (ht : duration ≤ elapsed) :
    (quintic_blend elapsed duration).s = 1 ∧ (quintic_blend elapsed duration).ds = 0 := by
  have hu : blend_fraction elapsed duration = 1 :=
    std_clamp_ge ((one_le_div hd).mpr ht) zero_le_one
  rw [quintic_blend_s, quintic_blend_ds, hu, blend_shape_one, blend_slope_eq]
  constructor
  · rfl
  · simp only [sub_self, mul_zero, ne_eq, OfNat.ofNat_ne_zero, not_false_eq_true, zero_pow, zero_div]

/-- A mean of two values lies between any bounds on them. -/
theorem mean_mem {s x y lo hi : K} (hs0 : 0 ≤ s) (hs1 : s ≤ 1) (hx : lo ≤ x ∧ x ≤ hi)
    (hy : lo ≤ y ∧ y ≤ hi) : lo ≤ x + s * (y - x) ∧ x + s * (y - x) ≤ hi := by
  have hmean : x + s * (y - x) = (1 - s) * x + s * y := by ring
  have hrest : 0 ≤ 1 - s := sub_nonneg.mpr hs1
  rw [hmean]
  constructor
  · calc lo = (1 - s) * lo + s * lo := by ring
      _ ≤ (1 - s) * x + s * y := add_le_add (mul_le_mul_of_nonneg_left hx.1 hrest)
          (mul_le_mul_of_nonneg_left hy.1 hs0)
  · calc (1 - s) * x + s * y ≤ (1 - s) * hi + s * hi := add_le_add
          (mul_le_mul_of_nonneg_left hx.2 hrest) (mul_le_mul_of_nonneg_left hy.2 hs0)
      _ = hi := by ring

/-- **A blended move** from one position to another keeps the speed of its peak. -/
theorem blended_speedBound {duration : K} (hd : 0 < duration) (start delta : K) (S : Set K) :
    SpeedBound (kQuinticPeakVelocityFactor * |delta| / duration) S
      fun t => start + (quintic_blend t duration).s * delta := by
  apply SpeedBound.of_le
  intro t₁ _ t₂ _ ht
  obtain ⟨hmono, hstep⟩ := quintic_blend_step hd ht
  have heq : start + (quintic_blend t₂ duration).s * delta -
      (start + (quintic_blend t₁ duration).s * delta) =
        ((quintic_blend t₂ duration).s - (quintic_blend t₁ duration).s) * delta := by ring
  rw [heq, abs_mul, abs_of_nonneg hmono]
  calc ((quintic_blend t₂ duration).s - (quintic_blend t₁ duration).s) * |delta|
      ≤ kQuinticPeakVelocityFactor / duration * (t₂ - t₁) * |delta| :=
        mul_le_mul_of_nonneg_right hstep (abs_nonneg _)
    _ = kQuinticPeakVelocityFactor * |delta| / duration * (t₂ - t₁) := by ring

end WavemakerController
