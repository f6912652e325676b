/-
Comparisons and extrema as the C++ standard library computes them.

A function that only adds, multiplies and compares doubles is written over any type
with these operations, so that one definition serves exact arithmetic as well as a
model of doubles with infinities and NaN. `std::min`, `std::max`, `std::clamp` and
`std::abs` are defined by the comparisons they make: where a value does not compare
with itself they are not lattice operations. In a linear order they are, and
`isfinite` holds of every value of a field.
-/
import Mathlib.Algebra.Order.Field.Basic
import Mathlib.Algebra.Order.Group.Abs
import Mathlib.Algebra.Order.Group.MinMax

set_option autoImplicit false

namespace Numeric

/-! ## The operations -/

class IsFinite (F : Type) where
  isfinite : F → Bool

export IsFinite (isfinite)

section Operations

variable {F : Type} [LT F] [DecidableLT F]

def std_max (a b : F) : F := if a < b then b else a

def std_min (a b : F) : F := if b < a then b else a

def std_clamp (v lo hi : F) : F := if v < lo then lo else if hi < v then hi else v

def std_abs [Zero F] [Neg F] (x : F) : F := if x < 0 then -x else x

end Operations

/-! ## Numerals

The numerals that definitions of several modules share. As constants they are the same
term in each of them. -/

scoped instance two : Nat.AtLeastTwo 2 := ⟨by decide⟩
scoped instance three : Nat.AtLeastTwo 3 := ⟨by decide⟩
scoped instance six : Nat.AtLeastTwo 6 := ⟨by decide⟩
scoped instance ten : Nat.AtLeastTwo 10 := ⟨by decide⟩
scoped instance fifteen : Nat.AtLeastTwo 15 := ⟨by decide⟩
scoped instance thirty : Nat.AtLeastTwo 30 := ⟨by decide⟩
scoped instance sixty : Nat.AtLeastTwo 60 := ⟨by decide⟩
scoped instance hundred : Nat.AtLeastTwo 100 := ⟨by decide⟩
scoped instance gravity : Nat.AtLeastTwo 981 := ⟨by decide⟩

/-! ## In a linear order -/

section Order

variable {K : Type} [LinearOrder K]

@[simp] theorem std_max_eq (a b : K) : std_max a b = max a b := by
  unfold std_max
  split
  · rename_i h
    exact (max_eq_right h.le).symm
  · rename_i h
    exact (max_eq_left (not_lt.mp h)).symm

@[simp] theorem std_min_eq (a b : K) : std_min a b = min a b := by
  unfold std_min
  split
  · rename_i h
    exact (min_eq_right h.le).symm
  · rename_i h
    exact (min_eq_left (not_lt.mp h)).symm

theorem std_clamp_mem {v lo hi : K} (h : lo ≤ hi) :
    lo ≤ std_clamp v lo hi ∧ std_clamp v lo hi ≤ hi := by
  unfold std_clamp
  split
  · exact ⟨le_rfl, h⟩
  · rename_i hlo
    split
    · exact ⟨h, le_rfl⟩
    · rename_i hhi
      exact ⟨not_lt.mp hlo, not_lt.mp hhi⟩

theorem std_clamp_le {v lo hi : K} (h : v ≤ lo) (hle : lo ≤ hi) : std_clamp v lo hi = lo := by
  rcases h.lt_or_eq with hlt | rfl
  · exact if_pos hlt
  · rw [std_clamp, if_neg (lt_irrefl v), if_neg (not_lt.mpr hle)]

theorem std_clamp_ge {v lo hi : K} (h : hi ≤ v) (hle : lo ≤ hi) : std_clamp v lo hi = hi := by
  rw [std_clamp, if_neg (not_lt.mpr (hle.trans h))]
  rcases h.lt_or_eq with hlt | rfl
  · exact if_pos hlt
  · exact if_neg (lt_irrefl hi)

theorem std_clamp_self {v lo hi : K} (hlo : lo ≤ v) (hhi : v ≤ hi) : std_clamp v lo hi = v := by
  rw [std_clamp, if_neg (not_lt.mpr hlo), if_neg (not_lt.mpr hhi)]

theorem std_clamp_eq {v lo hi : K} (h : lo ≤ hi) : std_clamp v lo hi = max lo (min v hi) := by
  rcases le_total v lo with hlo | hlo
  · rw [std_clamp_le hlo h, max_eq_left (min_le_of_left_le hlo)]
  · rcases le_total v hi with hhi | hhi
    · rw [std_clamp_self hlo hhi, min_eq_left hhi, max_eq_right hlo]
    · rw [std_clamp_ge hhi h, min_eq_right hhi, max_eq_right h]

theorem std_clamp_mono {v v' lo hi : K} (h : lo ≤ hi) (hv : v ≤ v') :
    std_clamp v lo hi ≤ std_clamp v' lo hi := by
  rw [std_clamp_eq h, std_clamp_eq h]
  exact max_le_max_left lo (min_le_min_right hi hv)

/-- A running maximum is at least where it started. -/
theorem le_foldl_max {α : Type} (f : α → K) (l : List α) (a : K) :
    a ≤ l.foldl (fun peak x => max peak (f x)) a := by
  induction l generalizing a with
  | nil => exact le_rfl
  | cons x l ih => exact (le_max_left a (f x)).trans (ih _)

/-- A running maximum is at least everything it has seen. -/
theorem mem_le_foldl_max {α : Type} (f : α → K) {l : List α} {x : α} (hx : x ∈ l) (a : K) :
    f x ≤ l.foldl (fun peak x => max peak (f x)) a := by
  induction l generalizing a with
  | nil => exact absurd hx List.not_mem_nil
  | cons y l ih =>
      rcases List.mem_cons.mp hx with rfl | hx
      · exact (le_max_right a (f x)).trans (le_foldl_max f l _)
      · exact ih hx _

end Order

/-! ## In an ordered field -/

section Field

/-- The values of a field are all finite. -/
instance {K : Type} [Field K] : IsFinite K := ⟨fun _ => true⟩

@[simp] theorem isfinite_eq {K : Type} [Field K] (x : K) : isfinite x = true := rfl

variable {K : Type} [Field K] [LinearOrder K] [IsStrictOrderedRing K]

@[simp] theorem std_abs_eq (x : K) : std_abs x = |x| := by
  unfold std_abs
  split
  · rename_i h
    exact (abs_of_neg h).symm
  · rename_i h
    exact (abs_of_nonneg (not_lt.mp h)).symm

/-- Clamping brings values no further apart. -/
theorem abs_std_clamp_sub_le {v v' lo hi : K} (h : lo ≤ hi) :
    |std_clamp v' lo hi - std_clamp v lo hi| ≤ |v' - v| := by
  rw [std_clamp_eq h, std_clamp_eq h]
  calc |max lo (min v' hi) - max lo (min v hi)|
      ≤ max |lo - lo| |min v' hi - min v hi| := abs_max_sub_max_le_max _ _ _ _
    _ = |min v' hi - min v hi| := by rw [sub_self, abs_zero, max_eq_right (abs_nonneg _)]
    _ ≤ max |v' - v| |hi - hi| := abs_min_sub_min_le_max _ _ _ _
    _ = |v' - v| := by rw [sub_self, abs_zero, max_eq_left (abs_nonneg _)]

end Field

end Numeric
