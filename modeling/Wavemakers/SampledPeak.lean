/-
How far a peak can hide between samples.

A function is sampled at `N + 1` equidistant points of an interval. Where it is largest in
magnitude inside the interval its derivative is zero, so on the way to the next sample
it loses only what its second derivative allows over the square of the step. When that
second derivative is itself bounded by a multiple of the peak, the peak exceeds the
largest sample by a relative amount of the order `1 / N²`.
-/
import Mathlib

set_option autoImplicit false

namespace SampledPeak

variable {g g' g'' : ℝ → ℝ} {T : ℝ}

/-- The mean value inequality on an interval. -/
theorem abs_sub_le {B a b : ℝ} (hderiv : ∀ t, HasDerivAt g (g' t) t)
    (hbound : ∀ t ∈ Set.Icc a b, |g' t| ≤ B) {x y : ℝ} (hx : x ∈ Set.Icc a b)
    (hy : y ∈ Set.Icc a b) : |g y - g x| ≤ B * |y - x| :=
  (convex_Icc a b).norm_image_sub_le_of_norm_hasDerivWithin_le
    (fun t _ => (hderiv t).hasDerivWithinAt) hbound hx hy

/-- Where the magnitude is largest inside an interval, the derivative is zero. -/
theorem deriv_eq_zero (hderiv : ∀ t, HasDerivAt g (g' t) t) {x : ℝ} (hx : x ∈ Set.Ioo 0 T)
    (hmax : ∀ t ∈ Set.Icc 0 T, |g t| ≤ |g x|) : g' x = 0 := by
  have hnear : ∀ᶠ t in nhds x, |g t| ≤ |g x| := by
    filter_upwards [Ioo_mem_nhds hx.1 hx.2] with t ht
    exact hmax t ⟨ht.1.le, ht.2.le⟩
  rcases le_total 0 (g x) with hsign | hsign
  · -- a positive peak is a maximum of the function itself
    have hlocal : IsLocalMax g x := by
      filter_upwards [hnear] with t ht
      rw [abs_of_nonneg hsign] at ht
      exact (le_abs_self _).trans ht
    exact hlocal.hasDerivAt_eq_zero (hderiv x)
  · have hlocal : IsLocalMin g x := by
      filter_upwards [hnear] with t ht
      rw [abs_of_nonpos hsign] at ht
      have hneg := neg_abs_le (g t)
      linarith
    exact hlocal.hasDerivAt_eq_zero (hderiv x)

/-- The sample just below a time. -/
theorem exists_sample {N : ℕ} (hT : 0 < T) (hN : 0 < N) {x : ℝ} (hx : x ∈ Set.Ioo 0 T) :
    ∃ i : ℕ, i ≤ N ∧ T * i / N ≤ x ∧ x - T * i / N ≤ T / N := by
  have hNpos : (0 : ℝ) < N := Nat.cast_pos.mpr hN
  have hpos : 0 ≤ x * N / T := by
    have hx0 := hx.1
    positivity
  have hle := Nat.floor_le hpos
  have hlt := (Nat.lt_floor_add_one (x * N / T)).le
  rw [le_div_iff₀ hT] at hle
  rw [div_le_iff₀ hT] at hlt
  refine ⟨⌊x * N / T⌋₊, ?_, ?_, ?_⟩
  · apply Nat.floor_le_of_le
    rw [div_le_iff₀ hT, mul_comm]
    exact mul_le_mul_of_nonneg_left hx.2.le hNpos.le
  · rw [div_le_iff₀ hNpos]
    linarith
  · rw [sub_le_iff_le_add, ← add_div, le_div_iff₀ hNpos]
    linarith

/-- **The peak between samples.** `P` bounds the samples and the ends. Whenever a bound
`M ≥ P` holds on the whole interval, the second derivative is at most `C * M / T²`. -/
theorem peak_le {N : ℕ} {P C : ℝ} (hT : 0 < T) (hN : 0 < N) (hC : 0 ≤ C) (hCN : C ≤ (N : ℝ) ^ 2)
    (hderiv : ∀ t, HasDerivAt g (g' t) t) (hderiv' : ∀ t, HasDerivAt g' (g'' t) t)
    (hends : |g 0| ≤ P ∧ |g T| ≤ P) (hsamples : ∀ i : ℕ, i ≤ N → |g (T * i / N)| ≤ P)
    (hcurve : ∀ M, P ≤ M → (∀ t ∈ Set.Icc 0 T, |g t| ≤ M) →
      ∀ t ∈ Set.Icc 0 T, |g'' t| * T ^ 2 ≤ C * M) :
    ∀ t ∈ Set.Icc 0 T, |g t| * (1 - C / (N : ℝ) ^ 2) ≤ P := by
  have hNpos : (0 : ℝ) < N := Nat.cast_pos.mpr hN
  have hfactor : 0 ≤ 1 - C / (N : ℝ) ^ 2 := by
    rw [sub_nonneg, div_le_one (by positivity)]
    exact hCN
  have hcont : ContinuousOn (fun t => |g t|) (Set.Icc 0 T) := by
    intro t _
    exact (hderiv t).continuousAt.abs.continuousWithinAt
  obtain ⟨x, hx, hmax⟩ := isCompact_Icc.exists_isMaxOn (Set.nonempty_Icc.mpr hT.le) hcont
  have hpeak : ∀ t ∈ Set.Icc 0 T, |g t| ≤ |g x| := fun t ht => hmax ht
  -- it is enough to bound the largest value
  suffices hx : |g x| * (1 - C / (N : ℝ) ^ 2) ≤ P by
    intro t ht
    exact (mul_le_mul_of_nonneg_right (hpeak t ht) hfactor).trans hx
  by_cases hP : |g x| ≤ P
  · have hone : 1 - C / (N : ℝ) ^ 2 ≤ 1 := sub_le_self _ (by positivity)
    exact (mul_le_of_le_one_right (abs_nonneg _) hone).trans hP
  · have hPx : P ≤ |g x| := (not_le.mp hP).le
    have hinside : x ∈ Set.Ioo 0 T := by
      refine ⟨lt_of_le_of_ne hx.1 ?_, lt_of_le_of_ne hx.2 ?_⟩
      · rintro rfl
        exact hP hends.1
      · rintro rfl
        exact hP hends.2
    have hzero := deriv_eq_zero hderiv hinside hpeak
    obtain ⟨i, hi, hbelow, hnear⟩ := exists_sample hT hN hinside
    have hsample0 : 0 ≤ T * i / N := by positivity
    have hcurve' : ∀ t ∈ Set.Icc 0 T, |g'' t| ≤ C * |g x| / T ^ 2 := by
      intro t ht
      rw [le_div_iff₀ (by positivity)]
      exact hcurve _ hPx hpeak t ht
    -- on the way from the sample to the peak the slope is small
    have hslope : ∀ t ∈ Set.Icc (T * i / N) x, |g' t| ≤ C * |g x| / T ^ 2 * (T / N) := by
      intro t ht
      have hmean := abs_sub_le hderiv' hcurve' (Set.mem_Icc.mpr hx)
        ⟨hsample0.trans ht.1, ht.2.trans hx.2⟩
      rw [hzero, sub_zero] at hmean
      refine hmean.trans (mul_le_mul_of_nonneg_left ?_ (by positivity))
      rw [abs_sub_comm, abs_of_nonneg (sub_nonneg.mpr ht.2)]
      linarith [ht.1]
    have hdrop := abs_sub_le hderiv hslope ⟨le_rfl, hbelow⟩ ⟨hbelow, le_rfl⟩
    have hloss : |g x| - P ≤ C * |g x| / (N : ℝ) ^ 2 := by
      calc |g x| - P ≤ |g x| - |g (T * i / N)| := sub_le_sub_left (hsamples i hi) _
        _ ≤ |g x - g (T * i / N)| := abs_sub_abs_le_abs_sub _ _
        _ ≤ C * |g x| / T ^ 2 * (T / N) * |x - T * i / N| := hdrop
        _ ≤ C * |g x| / T ^ 2 * (T / N) * (T / N) := by
            rw [abs_of_nonneg (sub_nonneg.mpr hbelow)]
            exact mul_le_mul_of_nonneg_left hnear (by positivity)
        _ = C * |g x| / (N : ℝ) ^ 2 := by field_simp
    calc |g x| * (1 - C / (N : ℝ) ^ 2) = |g x| - C * |g x| / (N : ℝ) ^ 2 := by ring
      _ ≤ P := by linarith

end SampledPeak
