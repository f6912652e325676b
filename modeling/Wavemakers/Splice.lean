/-
Overwriting a stretch of a list in place.

`splice l off bs` is what a `memcpy` of `bs` to `l.data() + off` leaves behind
when the stretch lies inside `l`. The file states it once for any element
type: the length is kept, an index outside the stretch reads what it read
before, an index inside reads the new element.
-/
import Mathlib.Data.List.Basic

set_option autoImplicit false

namespace Splice

variable {α : Type}

/-- `l` with the elements from `off` on replaced by `bs`. -/
def splice (l : List α) (off : ℕ) (bs : List α) : List α :=
  l.take off ++ bs ++ l.drop (off + bs.length)

theorem length_splice {l : List α} {off : ℕ} {bs : List α} (h : off + bs.length ≤ l.length) :
    (splice l off bs).length = l.length := by
  simp only [splice, List.length_append, List.length_take, List.length_drop]
  omega

/-- Below the stretch nothing changes. -/
theorem getElem?_splice_lt {l : List α} {off : ℕ} {bs : List α} {i : ℕ}
    (h : off ≤ l.length) (hi : i < off) : (splice l off bs)[i]? = l[i]? := by
  have hlen : (l.take off).length = off := by
    rw [List.length_take, Nat.min_eq_left h]
  rw [splice, List.append_assoc, List.getElem?_append_left (by omega),
    List.getElem?_take_of_lt hi]

/-- Inside the stretch the new elements are read. -/
theorem getElem?_splice_mid {l : List α} {off : ℕ} {bs : List α} {i : ℕ}
    (h : off ≤ l.length) (hlo : off ≤ i) (hhi : i < off + bs.length) :
    (splice l off bs)[i]? = bs[i - off]? := by
  have hlen : (l.take off).length = off := by
    rw [List.length_take, Nat.min_eq_left h]
  rw [splice, List.append_assoc, List.getElem?_append_right (by omega), hlen,
    List.getElem?_append_left (by omega)]

/-- Above the stretch nothing changes. -/
theorem getElem?_splice_ge {l : List α} {off : ℕ} {bs : List α} {i : ℕ}
    (h : off + bs.length ≤ l.length) (hi : off + bs.length ≤ i) :
    (splice l off bs)[i]? = l[i]? := by
  have hlen : (l.take off).length = off := by
    rw [List.length_take, Nat.min_eq_left (by omega)]
  rw [splice, List.append_assoc, List.getElem?_append_right (by omega), hlen,
    List.getElem?_append_right (by omega), List.getElem?_drop]
  congr 1
  omega

/-- **The frame rule.** An index outside `[off, off + bs.length)` reads what it
read before. -/
theorem getElem?_splice_out {l : List α} {off : ℕ} {bs : List α} {i : ℕ}
    (h : off + bs.length ≤ l.length) (hi : i < off ∨ off + bs.length ≤ i) :
    (splice l off bs)[i]? = l[i]? := by
  rcases hi with hi | hi
  · exact getElem?_splice_lt (by omega) hi
  · exact getElem?_splice_ge h hi

end Splice
