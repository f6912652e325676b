/-
Numbered buffers with readers that keep a cursor.

A producer numbers its entries from one on and keeps the latest of them; how
many it keeps is its own affair. A reader remembers the number of the last
entry it was given and asks for what came after. This file is what can be said
about such a pair whatever the entries are and however entries are dropped:
what a buffer holds of the history (`Holds`), what a reader has got of it
(`Reads`, `InOrder`), and what a window of the latest entries by age looks like
when the ages never go back (`dropWhile_eq_filter`).
-/
import Mathlib.Data.List.TakeWhile
import Mathlib.Data.List.Basic

set_option autoImplicit false

/-- The entries numbered so far, the oldest of which may be gone. -/
structure Backlog (α : Type) where
  count : ℕ
  kept : List (ℕ × α)

namespace Backlog

variable {α : Type}

/-! ## Numbered lists -/

/-- The entries of `h`, numbered from `n + 1`. -/
def numbered : ℕ → List α → List (ℕ × α)
  | _, [] => []
  | n, a :: h => (n + 1, a) :: numbered (n + 1) h

@[simp] theorem length_numbered (n : ℕ) (h : List α) : (numbered n h).length = h.length := by
  induction h generalizing n with
  | nil => rfl
  | cons a h ih => simp only [numbered, List.length_cons, ih]

theorem numbered_append (n : ℕ) (h l : List α) :
    numbered n (h ++ l) = numbered n h ++ numbered (n + h.length) l := by
  induction h generalizing n with
  | nil => simp [numbered]
  | cons a h ih =>
      simp only [List.cons_append, numbered, ih, List.length_cons]
      rw [Nat.add_assoc, Nat.add_comm 1]

theorem drop_numbered (n d : ℕ) (h : List α) :
    (numbered n h).drop d = numbered (n + d) (h.drop d) := by
  induction d generalizing n h with
  | zero => simp
  | succ d ih =>
      cases h with
      | nil => simp [numbered]
      | cons a h =>
          simp only [numbered, List.drop_succ_cons, ih]
          rw [Nat.add_assoc, Nat.add_comm 1]

@[simp] theorem map_snd_numbered (n : ℕ) (h : List α) : (numbered n h).map Prod.snd = h := by
  induction h generalizing n with
  | nil => rfl
  | cons a h ih => simp only [numbered, List.map_cons, ih]

/-- The entries with a number above `k`. -/
theorem map_filter_numbered (n k : ℕ) (h : List α) :
    ((numbered n h).filter fun e => k < e.1).map Prod.snd = h.drop (k - n) := by
  induction h generalizing n with
  | nil => simp [numbered]
  | cons a h ih =>
      by_cases hk : k < n + 1
      · have h0 : k - n = 0 := by omega
        have h1 : k - (n + 1) = 0 := by omega
        simp [numbered, hk, ih, h0, h1]
      · have h0 : k - n = (k - (n + 1)) + 1 := by omega
        simp [numbered, hk, ih, h0]

/-! ## Buffers -/

def empty : Backlog α where
  count := 0
  kept := []

def push (b : Backlog α) (a : α) : Backlog α where
  count := b.count + 1
  kept := b.kept ++ [(b.count + 1, a)]

/-- Drop the `n` oldest entries. -/
def forget (b : Backlog α) (n : ℕ) : Backlog α := { b with kept := b.kept.drop n }

/-- Drop what is too many for a buffer of `size` entries. -/
def bound (b : Backlog α) (size : ℕ) : Backlog α := b.forget (b.kept.length - size)

/-- Drop the oldest entries as long as they meet `p`. -/
def expire (b : Backlog α) (p : α → Bool) : Backlog α :=
  { b with kept := b.kept.dropWhile fun e => p e.2 }

/-- The kept entries with a number above `k`. -/
def after (b : Backlog α) (k : ℕ) : List α := (b.kept.filter fun e => k < e.1).map Prod.snd

/-- `b` has numbered the history `h` and dropped its first `d` entries. -/
structure Holds (b : Backlog α) (h : List α) (d : ℕ) : Prop where
  count : b.count = h.length
  le : d ≤ h.length
  kept : b.kept = (numbered 0 h).drop d

theorem holds_empty : Holds (empty : Backlog α) [] 0 := ⟨rfl, Nat.le_refl _, rfl⟩

namespace Holds

variable {b : Backlog α} {h : List α} {d : ℕ}

theorem length_kept (hb : b.Holds h d) : b.kept.length = h.length - d := by
  simp [hb.kept]

theorem push (hb : b.Holds h d) (a : α) : (b.push a).Holds (h ++ [a]) d := by
  refine ⟨?_, ?_, ?_⟩
  · simp [Backlog.push, hb.count]
  · have := hb.le
    simp only [List.length_append]
    omega
  · simp only [Backlog.push, hb.kept, hb.count, numbered_append, numbered, Nat.zero_add]
    rw [List.drop_append_of_le_length]
    simpa using hb.le

theorem forget (hb : b.Holds h d) {n : ℕ} (hn : d + n ≤ h.length) :
    (b.forget n).Holds h (d + n) := by
  refine ⟨hb.count, hn, ?_⟩
  simp only [Backlog.forget, hb.kept, List.drop_drop]

/-- A bounded buffer keeps the last `size` entries, or what it had of them. -/
theorem bound (hb : b.Holds h d) (size : ℕ) : (b.bound size).Holds h (max d (h.length - size)) := by
  have hlen := hb.length_kept
  have hle := hb.le
  have hd : max d (h.length - size) = d + (b.kept.length - size) := by omega
  rw [hd]
  apply hb.forget
  omega

theorem kept_snd (hb : b.Holds h d) : b.kept.map Prod.snd = h.drop d := by
  rw [hb.kept, drop_numbered, map_snd_numbered]

/-- Expiry drops the longest run of entries that meet `p`. -/
theorem expire (hb : b.Holds h d) (p : α → Bool) :
    (b.expire p).Holds h (d + ((h.drop d).takeWhile p).length) := by
  have hlen := (List.takeWhile_prefix (l := h.drop d) p).length_le
  have hle := hb.le
  rw [List.length_drop] at hlen
  refine ⟨hb.count, by omega, ?_⟩
  have hmap : ((h.drop d).takeWhile p).length =
      (b.kept.takeWhile fun e => p e.2).length := by
    rw [← hb.kept_snd, List.takeWhile_map, List.length_map]
    rfl
  rw [hmap, ← List.drop_drop, ← hb.kept]
  have happ := List.takeWhile_append_dropWhile (p := fun e : ℕ × α => p e.2) (l := b.kept)
  simp only [Backlog.expire]
  conv_rhs => rw [← happ]
  rw [List.drop_left']
  rw [happ]

/-- **What a reader is given**: everything it has not got and that is not dropped. -/
theorem after (hb : b.Holds h d) (k : ℕ) : b.after k = h.drop (max d k) := by
  simp only [Backlog.after, hb.kept, drop_numbered, map_filter_numbered, List.drop_drop]
  congr 1
  omega

end Holds

/-! ## Readers -/

/-- What a reader has got, and the number of the last entry at its last look. -/
structure Reader (α : Type) where
  cursor : ℕ
  got : List α

namespace Reader

def fresh : Reader α where
  cursor := 0
  got := []

def read (r : Reader α) (b : Backlog α) : Reader α where
  cursor := b.count
  got := r.got ++ b.after r.cursor

/-- The reader has the entries of `h` from `first` up to its cursor, all of them once. -/
structure Reads (r : Reader α) (h : List α) (first : ℕ) : Prop where
  first_le : first ≤ r.cursor
  cursor_le : r.cursor ≤ h.length
  got : r.got = (h.take r.cursor).drop first

/-- Nothing twice and nothing out of order, but there may be gaps. -/
structure InOrder (r : Reader α) (h : List α) : Prop where
  cursor_le : r.cursor ≤ h.length
  got : r.got.Sublist (h.take r.cursor)

variable {r : Reader α} {b : Backlog α} {h : List α} {d first : ℕ}

theorem Reads.grow (hr : r.Reads h first) (l : List α) : r.Reads (h ++ l) first := by
  refine ⟨hr.first_le, ?_, ?_⟩
  · have := hr.cursor_le
    simp only [List.length_append]
    omega
  · rw [List.take_append_of_le_length hr.cursor_le]
    exact hr.got

/-- A look in time: nothing that came after the last one is dropped yet. -/
theorem Reads.read (hr : r.Reads h first) (hb : b.Holds h d) (hd : d ≤ r.cursor) :
    (r.read b).Reads h first := by
  have hle := hr.cursor_le
  have hfirst := hr.first_le
  refine ⟨?_, ?_, ?_⟩
  · simp only [Reader.read, hb.count]
    omega
  · simp only [Reader.read, hb.count, Nat.le_refl]
  · have hmax : max d r.cursor = r.cursor := by omega
    simp only [Reader.read, hb.count, hb.after, hr.got, hmax, List.take_length]
    conv_rhs => rw [← List.take_append_drop r.cursor h]
    rw [List.drop_append_of_le_length]
    rw [List.length_take]
    omega

theorem InOrder.grow (hr : r.InOrder h) (l : List α) : r.InOrder (h ++ l) := by
  refine ⟨?_, ?_⟩
  · have := hr.cursor_le
    simp only [List.length_append]
    omega
  · rw [List.take_append_of_le_length hr.cursor_le]
    exact hr.got

/-- However late a look comes, what it adds is new and in its place. -/
theorem InOrder.read (hr : r.InOrder h) (hb : b.Holds h d) : (r.read b).InOrder h := by
  refine ⟨?_, ?_⟩
  · simp only [Reader.read, hb.count, Nat.le_refl]
  · simp only [Reader.read, hb.count, hb.after, List.take_length]
    conv_rhs => rw [← List.take_append_drop r.cursor h]
    apply hr.got.append
    apply List.drop_sublist_drop_left
    omega

end Reader

/-! ## The last entries -/

/-- The last `n` entries. -/
def last (n : ℕ) (l : List α) : List α := l.drop (l.length - n)

/-- Less in front leaves no more at the end. -/
theorem last_suffix {k l : List α} (h : k <:+ l) (n : ℕ) (m : List α) :
    last n (k ++ m) <:+ last n (l ++ m) := by
  have hlen := h.length_le
  have hk : last n (k ++ m) <:+ l ++ m :=
    (List.drop_suffix _ _).trans (List.suffix_append_self_iff.mpr h)
  refine List.suffix_of_suffix_length_le hk (List.drop_suffix _ _) ?_
  simp only [last, List.length_drop, List.length_append]
  omega

/-! ## Windows by age -/

/-- Dropping from the front is filtering where nothing old comes after something young. -/
theorem dropWhile_eq_filter {p : α → Bool} {l : List α}
    (hl : l.Pairwise fun a b => p b → p a) : l.dropWhile p = l.filter fun a => !p a := by
  induction l with
  | nil => rfl
  | cons a l ih =>
      rw [List.pairwise_cons] at hl
      by_cases ha : p a
      · simp [ha, ih hl.2]
      · have hall : ∀ b ∈ l, p b = false := by
          intro b hb
          by_contra hne
          exact ha (hl.1 b hb (by simpa using hne))
        rw [List.dropWhile_cons_of_neg ha, eq_comm, List.filter_eq_self]
        intro b hb
        rcases List.mem_cons.mp hb with rfl | hb
        · simpa using ha
        · simp [hall b hb]

/-- Dropping from the front never drops an entry that does not meet `p`. -/
theorem filter_sublist_dropWhile (p : α → Bool) (l : List α) :
    (l.filter fun a => !p a).Sublist (l.dropWhile p) := by
  induction l with
  | nil => simp
  | cons a l ih =>
      by_cases ha : p a
      · simpa [ha] using ih
      · rw [List.dropWhile_cons_of_neg ha]
        exact List.filter_sublist

/-! ## Messages in order -/

section Along

variable {σ υ : Type} {f : σ → υ → σ} {P Q : σ → Prop} {x : σ} {u : υ} {q : List υ}

/-- `P` holds of `x` and of all it becomes as the messages of `q` come in. -/
def Along (f : σ → υ → σ) (P : σ → Prop) : σ → List υ → Prop
  | x, [] => P x
  | x, u :: q => P x ∧ Along f P (f x u) q

theorem Along.head (h : Along f P x q) : P x := by
  cases q with
  | nil => exact h
  | cons u q => exact h.1

theorem Along.arrived (h : Along f P x q) : P (q.foldl f x) := by
  induction q generalizing x with
  | nil => exact h
  | cons u q ih => exact ih h.2

/-- One more message is sent. -/
theorem Along.send (h : Along f P x q) (hu : P (f (q.foldl f x) u)) : Along f P x (q ++ [u]) := by
  induction q generalizing x with
  | nil => exact ⟨h, hu⟩
  | cons v q ih => exact ⟨h.1, ih h.2 hu⟩

theorem Along.mono (hPQ : ∀ y, P y → Q y) (h : Along f P x q) : Along f Q x q := by
  induction q generalizing x with
  | nil => exact hPQ _ h
  | cons u q ih => exact ⟨hPQ _ h.1, ih h.2⟩

/-- Two states the messages cannot tell apart. -/
theorem Along.simulate {R : σ → σ → Prop} (hf : ∀ x y u, R x y → R (f x u) (f y u))
    (hP : ∀ x y, R x y → P x → P y) {y : σ} (hxy : R x y) (h : Along f P x q) :
    Along f P y q := by
  induction q generalizing x y with
  | nil => exact hP _ _ hxy h
  | cons u q ih => exact ⟨hP _ _ hxy h.1, ih (hf _ _ u hxy) h.2⟩

end Along

end Backlog
