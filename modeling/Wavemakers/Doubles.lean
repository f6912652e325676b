/-
Doubles as rationals with infinities and NaN.

Finite values are exact, so nothing here rounds or overflows; what remains of IEEE 754 is
how the special values behave. Every comparison with NaN is false, hence a check that
refuses what lies outside a range lets NaN pass, and one that refuses what does not lie
inside does not. There is one zero; dividing by it gives the infinity of the dividend's
sign.
-/
import Mathlib.Data.Rat.Cast.Order
import Wavemakers.Numeric

set_option autoImplicit false

open Numeric

inductive Double where
  | nan
  | inf (negative : Bool)
  | fin (q : ℚ)
  deriving DecidableEq, Repr

namespace Double

/-! ## Arithmetic -/

def neg : Double → Double
  | .nan => .nan
  | .inf s => .inf !s
  | .fin q => .fin (-q)

def add : Double → Double → Double
  | .nan, _ | _, .nan => .nan
  | .inf s, .inf t => if s = t then .inf s else .nan
  | .inf s, .fin _ | .fin _, .inf s => .inf s
  | .fin a, .fin b => .fin (a + b)

def mul : Double → Double → Double
  | .nan, _ | _, .nan => .nan
  | .inf s, .inf t => .inf (s != t)
  | .inf s, .fin q | .fin q, .inf s => if q = 0 then .nan else .inf (s != decide (q < 0))
  | .fin a, .fin b => .fin (a * b)

def div : Double → Double → Double
  | .nan, _ | _, .nan | .inf _, .inf _ => .nan
  | .inf s, .fin q => .inf (s != decide (q < 0))
  | .fin _, .inf _ => .fin 0
  | .fin a, .fin b =>
      if b = 0 then if a = 0 then .nan else .inf (decide (a < 0)) else .fin (a / b)

/-! ## Comparison -/

/-- `a < b`, false with NaN on either side. -/
def lt : Double → Double → Bool
  | .nan, _ | _, .nan => false
  | .inf s, .inf t => s && !t
  | .inf s, .fin _ => s
  | .fin _, .inf t => !t
  | .fin a, .fin b => decide (a < b)

/-- `a <= b`, false with NaN on either side. -/
def le : Double → Double → Bool
  | .nan, _ | _, .nan => false
  | .inf s, .inf t => s || !t
  | .inf s, .fin _ => s
  | .fin _, .inf t => !t
  | .fin a, .fin b => decide (a ≤ b)

instance : Zero Double := ⟨.fin 0⟩
instance : One Double := ⟨.fin 1⟩
instance : Neg Double := ⟨neg⟩
instance : Add Double := ⟨add⟩
instance : Sub Double := ⟨fun a b => add a (neg b)⟩
instance : Mul Double := ⟨mul⟩
instance : Div Double := ⟨div⟩
instance : RatCast Double := ⟨.fin⟩
instance : LT Double := ⟨fun a b => lt a b = true⟩
instance : LE Double := ⟨fun a b => le a b = true⟩
instance : DecidableLT Double := fun a b => inferInstanceAs (Decidable (lt a b = true))
instance : DecidableLE Double := fun a b => inferInstanceAs (Decidable (le a b = true))
instance : IsFinite Double := ⟨fun | .fin _ => true | _ => false⟩

/-! ## Which values a comparison lets pass -/

theorem isfinite_iff {x : Double} : isfinite x = true ↔ ∃ q, x = .fin q := by
  cases x with
  | nan => exact ⟨nofun, nofun⟩
  | inf s => exact ⟨nofun, nofun⟩
  | fin q => exact ⟨fun _ => ⟨q, rfl⟩, fun _ => rfl⟩

@[simp] theorem fin_le_fin {a b : ℚ} : Double.fin a ≤ .fin b ↔ a ≤ b := decide_eq_true_iff

@[simp] theorem fin_lt_fin {a b : ℚ} : Double.fin a < .fin b ↔ a < b := decide_eq_true_iff

/-- Two values that compare at all compare one way or the other. -/
theorem le_of_not_lt {x y : Double} (hx : x ≠ .nan) (hy : y ≠ .nan) (h : ¬ y < x) : x ≤ y := by
  cases x with
  | nan => exact absurd rfl hx
  | inf s =>
      cases y with
      | nan => exact absurd rfl hy
      | inf t =>
          revert h
          cases s <;> cases t <;> decide
      | fin b =>
          cases s with
          | false => exact absurd rfl h
          | true => rfl
  | fin a =>
      cases y with
      | nan => exact absurd rfl hy
      | inf t =>
          cases t with
          | false => rfl
          | true => exact absurd rfl h
      | fin b => exact fin_le_fin.mpr (not_lt.mp fun hlt => h (fin_lt_fin.mpr hlt))

theorem le_of_lt {x y : Double} (h : x < y) : x ≤ y := by
  cases x with
  | nan => cases h
  | inf s =>
      cases y with
      | nan => cases h
      | inf t =>
          revert h
          cases s <;> cases t <;> decide
      | fin b => exact h
  | fin a =>
      cases y with
      | nan => cases h
      | inf t => exact h
      | fin b => exact fin_le_fin.mpr (fin_lt_fin.mp h).le

/-- What is at most a finite value and not below one is finite. -/
theorem finite_of_le {x lo hi : Double} (hlo : isfinite lo = true) (hhi : isfinite hi = true)
    (h : lo ≤ x) (h' : x ≤ hi) : isfinite x = true := by
  obtain ⟨a, rfl⟩ := isfinite_iff.mp hlo
  obtain ⟨b, rfl⟩ := isfinite_iff.mp hhi
  cases x with
  | nan => cases h
  | inf s =>
      cases s with
      | false => cases h'
      | true => cases h
  | fin q => rfl

theorem ne_nan_of_finite {x : Double} (h : isfinite x = true) : x ≠ .nan := by
  rintro rfl
  cases h

theorem ne_nan_of_lt {x y : Double} (h : x < y) : x ≠ .nan ∧ y ≠ .nan := by
  constructor
  · rintro rfl
    cases h
  · rintro rfl
    cases x <;> cases h

/-- A product of finite values is finite. -/
theorem isfinite_mul {x y : Double} (hx : isfinite x = true) (hy : isfinite y = true) :
    isfinite (x * y) = true := by
  obtain ⟨a, rfl⟩ := isfinite_iff.mp hx
  obtain ⟨b, rfl⟩ := isfinite_iff.mp hy
  rfl

/-- A value that is not finite and not refused as non-positive stays so when it is scaled
by a positive finite one. -/
theorem scaled_of_not_finite {x y : Double} (hx : isfinite x = false) (hneg : ¬ x ≤ 0)
    (hy : isfinite y = true) (hpos : ¬ y ≤ 0) :
    isfinite (x * y) = false ∧ ¬ x * y ≤ 0 := by
  obtain ⟨q, rfl⟩ := isfinite_iff.mp hy
  have hq : 0 < q := not_le.mp fun hle => hpos (fin_le_fin.mpr hle)
  cases x with
  | nan => exact ⟨rfl, nofun⟩
  | inf s =>
      cases s with
      | true => exact absurd rfl hneg
      | false =>
          have hmul : (Double.inf false * .fin q) = .inf false := by
            show (if q = 0 then Double.nan else .inf (false != decide (q < 0))) = _
            rw [if_neg hq.ne', decide_eq_false (not_lt.mpr hq.le)]
            rfl
          rw [hmul]
          exact ⟨rfl, nofun⟩
  | fin a => cases hx

/-- Such a value is not below zero. -/
theorem not_lt_of_not_le {x : Double} (h : ¬ x ≤ 0) : ¬ x < 0 := by
  cases x with
  | nan => nofun
  | inf s =>
      intro hlt
      exact h hlt
  | fin a => exact fun hlt => h (fin_le_fin.mpr (fin_lt_fin.mp hlt).le)

end Double
