/-
Rounding to the nearest double.

A finite double is an integer of at most 53 bits times a power of two that is not below
`2 ^ (-1074)`. `nearest` is the rounding of IEEE 754 to that set, ties to even, with the
exponent unbounded above: what is at least `2 ^ 1024` after rounding is an overflow, for the
caller to see. The one fact everything else follows from is `abs_nearest_sub_le_of_scaled`:
no double is closer.
-/
import Mathlib.Algebra.Order.Floor.Ring
import Mathlib.Algebra.Order.Round
import Mathlib.Data.Int.Log
import Mathlib.Data.Rat.Floor
import Mathlib.Tactic.Linarith
import Mathlib.Tactic.NormNum

set_option autoImplicit false

namespace Binary64

/-! ## Rounding -/

/-- The nearest integer, ties to even. -/
def half_even (x : ℚ) : ℤ :=
  if x - ⌊x⌋ < 1 / 2 ∨ x - ⌊x⌋ = 1 / 2 ∧ ⌊x⌋ % 2 = 0 then ⌊x⌋ else ⌊x⌋ + 1

/-- The exponent of the last bit. -/
def exponent (x : ℚ) : ℤ := max (Int.log 2 |x| - 52) (-1074)

def ulp (x : ℚ) : ℚ := 2 ^ exponent x

def nearest (x : ℚ) : ℚ := half_even (x / ulp x) * ulp x

/-- Rounding changes nothing. -/
def is_double (x : ℚ) : Bool := nearest x = x && |x| < 2 ^ 1024

/-! ## To integers -/

theorem abs_half_even_sub_le_half (x : ℚ) : |half_even x - x| ≤ 1 / 2 := by
  have hlo := Int.floor_le x
  have hhi := Int.lt_floor_add_one x
  unfold half_even
  split
  · rename_i h
    have hhalf : x - ⌊x⌋ ≤ 1 / 2 := h.elim le_of_lt fun h => h.1.le
    rw [abs_le]
    constructor <;> linarith
  · rename_i h
    -- a tie that goes up is half a unit from both
    have hhalf : 1 / 2 ≤ x - ⌊x⌋ := not_lt.mp fun hlt => h (.inl hlt)
    push_cast
    rw [abs_le]
    constructor <;> linarith

/-- No integer is closer. -/
theorem abs_half_even_sub_le (x : ℚ) (n : ℤ) : |half_even x - x| ≤ |n - x| := by
  by_cases hn : n = half_even x
  · rw [hn]
  · -- the two integers are at least one apart, so the other is half a unit away
    have hone : (1 : ℚ) ≤ |(n : ℚ) - half_even x| := by
      rw [← Int.cast_sub, ← Int.cast_abs]
      exact_mod_cast Int.one_le_abs (sub_ne_zero.mpr hn)
    have htri : |(n : ℚ) - half_even x| ≤ |n - x| + |half_even x - x| := by
      rw [abs_sub_comm (half_even x : ℚ) x]
      exact abs_sub_le _ _ _
    have hhalf := abs_half_even_sub_le_half x
    linarith

theorem half_even_le_of_le {x : ℚ} {n : ℤ} (h : x ≤ n) : half_even x ≤ n := by
  have hclose := abs_half_even_sub_le x n
  rw [abs_of_nonneg (sub_nonneg.mpr h)] at hclose
  have hle : (half_even x : ℚ) ≤ n := by linarith [(abs_le.mp hclose).2]
  exact_mod_cast hle

theorem le_half_even_of_le {x : ℚ} {n : ℤ} (h : n ≤ x) : n ≤ half_even x := by
  have hclose := abs_half_even_sub_le x n
  rw [abs_of_nonpos (sub_nonpos.mpr h)] at hclose
  have hle : (n : ℚ) ≤ half_even x := by linarith [(abs_le.mp hclose).1]
  exact_mod_cast hle

/-! ## To doubles -/

theorem ulp_pos (x : ℚ) : 0 < ulp x := zpow_pos two_pos _

theorem exponent_ge (x : ℚ) : -1074 ≤ exponent x := le_max_right _ _

theorem abs_mul_sub_eq {u : ℚ} (hu : 0 < u) (x : ℚ) (n : ℤ) :
    |n * u - x| = |n - x / u| * u := by
  rw [← abs_of_pos hu, ← abs_mul, abs_of_pos hu, sub_mul, div_mul_cancel₀ _ hu.ne']

/-- Scaled up by the last bit, the nearest double is the nearest integer. -/
theorem abs_nearest_sub_le_mul (x : ℚ) (n : ℤ) : |nearest x - x| ≤ |n * ulp x - x| := by
  have hu := ulp_pos x
  rw [nearest, abs_mul_sub_eq hu, abs_mul_sub_eq hu]
  exact mul_le_mul_of_nonneg_right (abs_half_even_sub_le _ _) hu.le

/-- A value is at least the power of two its last bit is the 53rd bit of. -/
theorem le_abs_of_lt_exponent {x : ℚ} (hx : x ≠ 0) {e : ℤ} (he : -1074 ≤ e)
    (h : e < exponent x) : 2 ^ 52 * ulp x ≤ |x| := by
  have hlog : exponent x = Int.log 2 |x| - 52 := by
    rcases max_choice (Int.log 2 |x| - 52) (-1074) with hmax | hmax
    · exact hmax
    · have hmin : exponent x = -1074 := hmax
      omega
  have hpow : (2 : ℚ) ^ 52 * ulp x = ((2 : ℕ) : ℚ) ^ Int.log 2 |x| := by
    rw [ulp, hlog, ← zpow_natCast, ← zpow_add₀ two_ne_zero]
    norm_num
  rw [hpow]
  exact Int.zpow_log_le_self one_lt_two (abs_pos.mpr hx)

theorem nearest_zero : nearest 0 = 0 := by
  have hzero : half_even 0 = 0 := by decide +kernel
  rw [nearest, zero_div, hzero, Int.cast_zero, zero_mul]

/-- **No double is closer.** -/
theorem abs_nearest_sub_le_of_scaled (x : ℚ) {k e : ℤ} (hk : |k| ≤ 2 ^ 53) (he : -1074 ≤ e) :
    |nearest x - x| ≤ |k * 2 ^ e - x| := by
  by_cases hexp : exponent x ≤ e
  · -- on the grid of the last bit
    have hmul : (k : ℚ) * 2 ^ e = ((k * 2 ^ (e - exponent x).toNat : ℤ) : ℚ) * ulp x := by
      have hsum : ((e - exponent x).toNat : ℤ) + exponent x = e := by omega
      push_cast
      rw [ulp, mul_assoc, ← zpow_natCast, ← zpow_add₀ two_ne_zero, hsum]
    rw [hmul]
    exact abs_nearest_sub_le_mul x _
  · -- off it, and then the bottom of the binade is nearer
    rw [not_le] at hexp
    rcases eq_or_ne x 0 with rfl | hx0
    · rw [nearest_zero, sub_zero, abs_zero]
      exact abs_nonneg _
    have hx := le_abs_of_lt_exponent hx0 he hexp
    have hd : |(k : ℚ) * 2 ^ e| ≤ 2 ^ 52 * ulp x := by
      have hkq : |(k : ℚ)| ≤ 2 ^ 53 := by
        rw [← Int.cast_abs]
        exact_mod_cast hk
      have hpow : (2 : ℚ) ^ e * 2 ≤ ulp x := by
        rw [ulp, ← zpow_add_one₀ two_ne_zero]
        exact zpow_le_zpow_right₀ one_le_two (by omega)
      have he0 : (0 : ℚ) < 2 ^ e := zpow_pos two_pos _
      rw [abs_mul, abs_of_pos he0]
      have hmul := mul_le_mul_of_nonneg_right hkq he0.le
      linarith
    rcases abs_cases x with ⟨habs, -⟩ | ⟨habs, -⟩
    · apply (abs_nearest_sub_le_mul x (2 ^ 52)).trans
      push_cast
      rw [habs] at hx
      have hle := (abs_le.mp hd).2
      rw [abs_of_nonpos (by linarith), abs_of_nonpos (by linarith)]
      linarith
    · apply (abs_nearest_sub_le_mul x (-2 ^ 52)).trans
      push_cast
      rw [habs] at hx
      have hle := (abs_le.mp hd).1
      rw [abs_of_nonneg (by linarith), abs_of_nonneg (by linarith)]
      linarith

/-- Half a unit in the last place, for all values up to a power of two. -/
theorem abs_nearest_sub_le {x : ℚ} {e : ℤ} (he : -1074 ≤ e) (hx : |x| ≤ 2 ^ 53 * 2 ^ e) :
    |nearest x - x| ≤ 2 ^ e / 2 := by
  have he0 : (0 : ℚ) < 2 ^ e := zpow_pos two_pos _
  have hhalf := abs_half_even_sub_le_half (x / 2 ^ e)
  -- the candidate is the multiple of the unit that is nearest
  have hk : |half_even (x / 2 ^ e)| ≤ 2 ^ 53 := by
    have hbound : |x / 2 ^ e| ≤ 2 ^ 53 := by
      rw [abs_div, abs_of_pos he0]
      exact (div_le_iff₀ he0).mpr hx
    have htri := abs_sub_abs_le_abs_sub (half_even (x / 2 ^ e) : ℚ) (x / 2 ^ e)
    have hlt : ((|half_even (x / 2 ^ e)| : ℤ) : ℚ) < ((2 ^ 53 + 1 : ℤ) : ℚ) := by
      push_cast
      linarith
    exact Int.lt_add_one_iff.mp (Int.cast_lt.mp hlt)
  calc |nearest x - x| ≤ |half_even (x / 2 ^ e) * 2 ^ e - x| := abs_nearest_sub_le_of_scaled x hk he
    _ = |half_even (x / 2 ^ e) - x / 2 ^ e| * 2 ^ e := abs_mul_sub_eq he0 x _
    _ ≤ 1 / 2 * 2 ^ e := mul_le_mul_of_nonneg_right hhalf he0.le
    _ = 2 ^ e / 2 := by ring

/-! ## Comparing with a double -/

theorem nearest_le_of_le {x : ℚ} {k e : ℤ} (hk : |k| ≤ 2 ^ 53) (he : -1074 ≤ e)
    (h : x ≤ k * 2 ^ e) : nearest x ≤ k * 2 ^ e := by
  have hclose := abs_nearest_sub_le_of_scaled x hk he
  rw [abs_of_nonneg (sub_nonneg.mpr h)] at hclose
  linarith [(abs_le.mp hclose).2]

theorem le_nearest_of_le {x : ℚ} {k e : ℤ} (hk : |k| ≤ 2 ^ 53) (he : -1074 ≤ e)
    (h : k * 2 ^ e ≤ x) : k * 2 ^ e ≤ nearest x := by
  have hclose := abs_nearest_sub_le_of_scaled x hk he
  rw [abs_of_nonpos (sub_nonpos.mpr h)] at hclose
  linarith [(abs_le.mp hclose).1]

theorem abs_nearest_le_of_le {x : ℚ} {k e : ℤ} (hk : |k| ≤ 2 ^ 53) (he : -1074 ≤ e)
    (h : |x| ≤ k * 2 ^ e) : |nearest x| ≤ k * 2 ^ e := by
  obtain ⟨hlo, hhi⟩ := abs_le.mp h
  have hneg : ((-k : ℤ) : ℚ) * 2 ^ e = -(k * 2 ^ e) := by
    push_cast
    ring
  rw [← hneg] at hlo
  have hlo := le_nearest_of_le (by rwa [abs_neg]) he hlo
  rw [hneg] at hlo
  exact abs_le.mpr ⟨hlo, nearest_le_of_le hk he hhi⟩

theorem le_abs_nearest_of_le {x : ℚ} {k e : ℤ} (hk : |k| ≤ 2 ^ 53) (he : -1074 ≤ e)
    (h : k * 2 ^ e ≤ |x|) : k * 2 ^ e ≤ |nearest x| := by
  have hneg : ((-k : ℤ) : ℚ) * 2 ^ e = -(k * 2 ^ e) := by
    push_cast
    ring
  rcases le_abs.mp h with hpos | hpos
  · exact (le_nearest_of_le hk he hpos).trans (le_abs_self _)
  · have hle : x ≤ ((-k : ℤ) : ℚ) * 2 ^ e := by
      rw [hneg]
      linarith
    have hnearest := nearest_le_of_le (by rwa [abs_neg]) he hle
    rw [hneg] at hnearest
    exact (le_neg.mp hnearest).trans (neg_le_abs _)

/-! ## Above a power of two -/

/-- Large doubles are multiples of a large unit. -/
theorem nearest_eq_mul {x : ℚ} {e : ℤ} (h : 2 ^ 52 * 2 ^ e ≤ x) :
    ∃ k : ℤ, nearest x = k * 2 ^ e := by
  have hpos : (0 : ℚ) < 2 ^ e := zpow_pos two_pos _
  have hx : 0 < x := lt_of_lt_of_le (by positivity) h
  -- the value's own unit is the given one or a multiple of it
  have hexp : e ≤ exponent x := by
    apply le_max_of_le_left
    have hlog : 52 + e ≤ Int.log 2 |x| := by
      apply (Int.zpow_le_iff_le_log one_lt_two (abs_pos.mpr hx.ne')).mp
      rw [abs_of_pos hx, zpow_add₀ (by norm_num)]
      exact_mod_cast h
    omega
  refine ⟨half_even (x / ulp x) * 2 ^ (exponent x - e).toNat, ?_⟩
  have hsum : ((exponent x - e).toNat : ℤ) + e = exponent x := by omega
  push_cast
  rw [nearest, ulp, mul_assoc, ← zpow_natCast, ← zpow_add₀ two_ne_zero, hsum]

/-- A double is a multiple of its unit by at most 53 bits. -/
theorem scaled_of_nearest_eq {x : ℚ} (hx : nearest x = x) :
    ∃ k e : ℤ, |k| ≤ 2 ^ 53 ∧ -1074 ≤ e ∧ x = k * 2 ^ e := by
  refine ⟨half_even (x / ulp x), exponent x, ?_, exponent_ge x, hx.symm⟩
  have hu := ulp_pos x
  have hlt : |x| < 2 ^ 53 * ulp x := by
    have hlog := Int.lt_zpow_succ_log_self (b := 2) one_lt_two |x|
    apply hlog.trans_le
    rw [ulp, ← zpow_natCast, ← zpow_add₀ two_ne_zero]
    exact_mod_cast zpow_le_zpow_right₀ (a := (2 : ℚ)) one_le_two
      (show Int.log 2 |x| + 1 ≤ (53 : ℕ) + exponent x by unfold exponent; omega)
  have hk : ((|half_even (x / ulp x)| : ℤ) : ℚ) * ulp x < ((2 ^ 53 : ℤ) : ℚ) * ulp x := by
    have hxu : |(half_even (x / ulp x) : ℚ) * ulp x| < 2 ^ 53 * ulp x := by
      rwa [show (half_even (x / ulp x) : ℚ) * ulp x = x from hx]
    push_cast
    rwa [abs_mul, abs_of_pos hu] at hxu
  exact (Int.cast_lt.mp (lt_of_mul_lt_mul_right hk hu.le)).le

/-- **What is near a large double rounds to it.** -/
theorem nearest_eq_of_near {x y : ℚ} {e : ℤ} (hx : nearest x = x) (hle : 2 ^ 52 * 2 ^ e ≤ x)
    (hley : 2 ^ 52 * 2 ^ e ≤ y) (hnear : 2 * |x - y| < 2 ^ e) : nearest y = x := by
  have he0 : (0 : ℚ) < 2 ^ e := zpow_pos two_pos _
  have hclose : |nearest y - y| ≤ |x - y| := by
    obtain ⟨k, e', hk, he', hxk⟩ := scaled_of_nearest_eq hx
    rw [hxk]
    exact abs_nearest_sub_le_of_scaled y hk he'
  obtain ⟨a, ha⟩ := nearest_eq_mul hle
  obtain ⟨b, hb⟩ := nearest_eq_mul hley
  rw [hx] at ha
  -- two multiples of the unit less than a unit apart
  have hunit : |((b - a : ℤ) : ℚ)| * 2 ^ e < 1 * 2 ^ e := by
    calc |((b - a : ℤ) : ℚ)| * 2 ^ e = |nearest y - x| := by
          rw [hb, ha, ← abs_of_pos he0, ← abs_mul, abs_of_pos he0]
          push_cast
          ring_nf
      _ ≤ |nearest y - y| + |x - y| := by
          rw [abs_sub_comm x y]
          exact abs_sub_le _ _ _
      _ < 1 * 2 ^ e := by linarith
  have hlt : |b - a| < 1 := by
    have hcast := lt_of_mul_lt_mul_right hunit he0.le
    rw [← Int.cast_abs] at hcast
    exact_mod_cast hcast
  have heq : b = a := sub_eq_zero.mp (Int.abs_lt_one_iff.mp hlt)
  rw [hb, heq, ha]

end Binary64
