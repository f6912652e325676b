/-
Motions that never move faster than a given speed.

`SpeedBound c S f` says that between any two times of `S` the value of `f` changes by at
most `c` times the time that passes. A motion put together from pieces has the bound of
its pieces as long as they agree where they meet: the triangle inequality through the
meeting point. `SpeedBound.row` is the same over any number of pieces. Nothing is
asked of `f` inside the pieces, so the rules hold over any ordered field.
-/
import Mathlib.Algebra.Order.Field.Basic
import Mathlib.Algebra.Order.Group.Abs
import Mathlib.Algebra.Order.Group.MinMax
import Mathlib.Order.Interval.Set.Basic
import Mathlib.Topology.Algebra.Order.Field
import Mathlib.Tactic.Linarith
import Mathlib.Tactic.Ring

set_option autoImplicit false

variable {K : Type} [Field K] [LinearOrder K] [IsStrictOrderedRing K]

/-- `f` changes by at most `c` per unit of time on `S`. -/
def SpeedBound (c : K) (S : Set K) (f : K → K) : Prop :=
  ∀ x ∈ S, ∀ y ∈ S, |f y - f x| ≤ c * |y - x|

namespace SpeedBound

variable {c : K} {S : Set K} {f : K → K}

omit [IsStrictOrderedRing K] in
/-- A bound is inherited by every smaller set, and by every motion that is the same on
it. -/
theorem mono {T : Set K} {g : K → K} (h : SpeedBound c S f) (hT : T ⊆ S)
    (hg : ∀ x ∈ T, g x = f x) : SpeedBound c T g := by
  intro x hx y hy
  rw [hg x hx, hg y hy]
  exact h x (hT hx) y (hT hy)

theorem le {c' : K} (h : SpeedBound c S f) (hc : c ≤ c') : SpeedBound c' S f := by
  intro x hx y hy
  exact (h x hx y hy).trans (mul_le_mul_of_nonneg_right hc (abs_nonneg _))

/-- It is enough to look forward in time. -/
theorem of_le (h : ∀ x ∈ S, ∀ y ∈ S, x ≤ y → |f y - f x| ≤ c * (y - x)) : SpeedBound c S f := by
  intro x hx y hy
  rcases le_total x y with hle | hle
  · rw [abs_of_nonneg (sub_nonneg.mpr hle)]
    exact h x hx y hy hle
  · rw [abs_sub_comm (f y), abs_sub_comm y, abs_of_nonneg (sub_nonneg.mpr hle)]
    exact h y hy x hx hle

/-- **Two pieces that meet.** -/
theorem glue {m : K} (hm : m ∈ S) (hbefore : SpeedBound c { x ∈ S | x ≤ m } f)
    (hafter : SpeedBound c { x ∈ S | m ≤ x } f) : SpeedBound c S f := by
  apply of_le
  intro x hx y hy hle
  have hforward : ∀ {T : Set K}, SpeedBound c T f → ∀ {a b : K}, a ∈ T → b ∈ T → a ≤ b →
      |f b - f a| ≤ c * (b - a) := by
    intro T hT a b ha hb hab
    have h := hT a ha b hb
    rwa [abs_of_nonneg (sub_nonneg.mpr hab)] at h
  by_cases hym : y ≤ m
  · exact hforward hbefore ⟨hx, hle.trans hym⟩ ⟨hy, hym⟩ hle
  · have hmy : m ≤ y := (not_le.mp hym).le
    by_cases hmx : m ≤ x
    · exact hforward hafter ⟨hx, hmx⟩ ⟨hy, hmx.trans hle⟩ hle
    · -- the two times lie on either side of the meeting point
      have hxm : x ≤ m := (not_le.mp hmx).le
      have hfirst := hforward hbefore ⟨hx, hxm⟩ ⟨hm, le_rfl⟩ hxm
      have hsecond := hforward hafter ⟨hm, le_rfl⟩ ⟨hy, hmy⟩ hmy
      calc |f y - f x| = |(f y - f m) + (f m - f x)| := by rw [sub_add_sub_cancel]
        _ ≤ |f y - f m| + |f m - f x| := abs_add_le _ _
        _ ≤ c * (y - m) + c * (m - x) := add_le_add hsecond hfirst
        _ = c * (y - x) := by ring

/-- Two intervals that meet. -/
theorem glue_Icc {a m b : K} (ham : a ≤ m) (hmb : m ≤ b)
    (hbefore : SpeedBound c (Set.Icc a m) f) (hafter : SpeedBound c (Set.Icc m b) f) :
    SpeedBound c (Set.Icc a b) f := by
  refine glue ⟨ham, hmb⟩ (hbefore.mono ?_ fun _ _ => rfl) (hafter.mono ?_ fun _ _ => rfl)
  · rintro x ⟨hx, hxm⟩
    exact ⟨hx.1, hxm⟩
  · rintro x ⟨hx, hmx⟩
    exact ⟨hmx, hx.2⟩

/-- **A row of pieces.** -/
theorem row {p : ℕ → K} (n : ℕ) (hp : ∀ i, i < n → p i ≤ p (i + 1))
    (hpiece : ∀ i, i < n → SpeedBound c (Set.Icc (p i) (p (i + 1))) f) :
    p 0 ≤ p n ∧ SpeedBound c (Set.Icc (p 0) (p n)) f := by
  induction n with
  | zero =>
      refine ⟨le_rfl, ?_⟩
      rintro x hx y hy
      rw [le_antisymm hx.2 hx.1, le_antisymm hy.2 hy.1, sub_self, sub_self, abs_zero, mul_zero]
  | succ n ih =>
      obtain ⟨hle, hbefore⟩ := ih (fun i hi => hp i (Nat.lt_succ_of_lt hi))
        fun i hi => hpiece i (Nat.lt_succ_of_lt hi)
      have hlast := hp n (Nat.lt_succ_self n)
      exact ⟨hle.trans hlast, glue_Icc hle hlast hbefore (hpiece n (Nat.lt_succ_self n))⟩

/-- A row of equal pieces. -/
theorem grid {a h : K} (hh : 0 ≤ h) (n : ℕ)
    (hpiece : ∀ i, i < n → SpeedBound c (Set.Icc (a + i * h) (a + (i + 1 : ℕ) * h)) f) :
    SpeedBound c (Set.Icc a (a + n * h)) f := by
  have hstep : ∀ i, i < n → a + (i : K) * h ≤ a + (i + 1 : ℕ) * h := by
    intro i _
    exact add_le_add_right (mul_le_mul_of_nonneg_right (Nat.cast_le.mpr (Nat.le_succ i)) hh) a
  have hrow := (row (p := fun i : ℕ => a + i * h) n hstep hpiece).2
  rwa [Nat.cast_zero, zero_mul, add_zero] at hrow

/-- A motion along a straight line. -/
theorem linear {p v t₀ : K} (hv : |v| ≤ c) : SpeedBound c S fun t => p + (t - t₀) * v := by
  intro x _ y _
  have heq : p + (y - t₀) * v - (p + (x - t₀) * v) = v * (y - x) := by ring
  rw [heq, abs_mul]
  exact mul_le_mul_of_nonneg_right hv (abs_nonneg _)

/-- Standing still. -/
theorem const (hc : 0 ≤ c) (p : K) : SpeedBound c S fun _ => p := by
  intro x _ y _
  rw [sub_self, abs_zero]
  exact mul_nonneg hc (abs_nonneg _)

/-- A motion of bounded speed is continuous. -/
theorem continuous [TopologicalSpace K] [OrderTopology K] (h : SpeedBound c Set.univ f) :
    Continuous f := by
  rw [continuous_iff_continuousAt]
  intro x
  apply LinearOrderedAddCommGroup.tendsto_nhds.mpr
  intro ε hε
  have hpos : 0 < |c| + 1 := by
    have hc := abs_nonneg c
    linarith
  filter_upwards [eventually_abs_sub_lt x (div_pos hε hpos)] with y hy
  have hle : c ≤ |c| + 1 := by
    have hc := le_abs_self c
    linarith
  calc |f y - f x| ≤ c * |y - x| := h x (Set.mem_univ x) y (Set.mem_univ y)
    _ ≤ (|c| + 1) * |y - x| := mul_le_mul_of_nonneg_right hle (abs_nonneg _)
    _ < ε := (lt_div_iff₀' hpos).mp hy

end SpeedBound
