/-
What one tag access does to the process image, bit by bit.

The image is looked at as a map from a byte and a bit index to a bit. A tag has a
footprint in that map: all bits of its bytes, or a single bit for `Bit`. Every typed
write is an overwrite of the footprint with contents that do not depend on the image,
and every typed read depends on the footprint only. Reading back what was written,
leaving the rest alone and commuting with other writes all come from these two.

`reorder` serves both directions, so the round trip rests on every byte order being its
own inverse. That holds for an even number of bytes; the one-byte accessors never use
any order but big-endian.
-/
import Wavemakers.ProcessImage
import Mathlib

set_option autoImplicit false

namespace Mgate

open Splice

/-! ## Byte orders -/

/-- Picking elements by an index map that undoes itself, twice. -/
theorem pick_pick {src : List UInt8} {f : ℕ → ℕ} (hlt : ∀ i, i < src.length → f i < src.length)
    (hback : ∀ i, i < src.length → f (f i) = i) :
    ((List.range src.length).map fun i =>
      ((List.range src.length).map fun i => src.getD (f i) 0).getD (f i) 0) = src := by
  apply List.ext_getElem?
  intro i
  by_cases hi : i < src.length
  · simp only [List.getElem?_map, List.getElem?_range hi, Option.map_some,
      List.getD_eq_getElem?_getD, List.getElem?_range (hlt i hi), Option.getD_some, hback i hi]
    rw [List.getElem?_eq_getElem hi, Option.getD_some]
  · rw [List.getElem?_eq_none (by rw [List.length_map, List.length_range]; omega),
      List.getElem?_eq_none (by omega)]

/-- **Every byte order is its own inverse** on whole registers. -/
theorem reorder_reorder {src : List UInt8} {o : ByteOrder}
    (h : o = .BigEndian ∨ src.length % 2 = 0) : reorder (reorder src o) o = src := by
  cases o with
  | BigEndian => rfl
  | LittleEndian =>
      simp only [reorder, List.length_map, List.length_range]
      apply pick_pick
      · intro i hi
        omega
      · intro i hi
        omega
  | BigEndianSwap =>
      have heven := h.resolve_left (by rintro ⟨⟩)
      simp only [reorder, List.length_map, List.length_range]
      apply pick_pick
      · intro i hi
        omega
      · intro i hi
        omega
  | LittleEndianSwap =>
      have heven := h.resolve_left (by rintro ⟨⟩)
      simp only [reorder, List.length_map, List.length_range]
      apply pick_pick
      · intro i hi
        omega
      · intro i hi
        omega

/-- The last byte is the value's lowest. -/
theorem u64_to_be_succ (v n : ℕ) :
    u64_to_be v (n + 1) = u64_to_be (v / 256) n ++ [UInt8.ofNat v] := by
  unfold u64_to_be
  rw [List.range_succ, List.map_append]
  have hinit : (List.range n).map (fun j => UInt8.ofNat (v / 256 ^ (n + 1 - 1 - j))) =
      (List.range n).map fun j => UInt8.ofNat (v / 256 / 256 ^ (n - 1 - j)) := by
    apply List.map_congr_left
    intro j hj
    have hlt : j < n := List.mem_range.mp hj
    have hexp : n + 1 - 1 - j = (n - 1 - j) + 1 := by omega
    rw [hexp, Nat.pow_succ', Nat.div_div_eq_div_mul]
  rw [hinit]
  simp only [List.map_cons, List.map_nil, Nat.add_sub_cancel, Nat.sub_self, Nat.pow_zero,
    Nat.div_one]

/-- **The bytes of a value fold back to it**, up to the width. -/
theorem be_to_u64_u64_to_be (v n : ℕ) : be_to_u64 (u64_to_be v n) = v % 256 ^ n := by
  induction n generalizing v with
  | zero => simp [u64_to_be, be_to_u64, Nat.mod_one]
  -- peel off the lowest byte, which is stored last
  | succ n ih =>
      have hlast : (UInt8.ofNat v).toNat = v % 256 := UInt8.toNat_ofNat'
      have hfold : be_to_u64 (u64_to_be (v / 256) n ++ [UInt8.ofNat v]) =
          be_to_u64 (u64_to_be (v / 256) n) * 256 + (UInt8.ofNat v).toNat := by
        simp only [be_to_u64, List.foldl_append, List.foldl_cons, List.foldl_nil]
      rw [u64_to_be_succ, hfold, ih, hlast, Nat.pow_succ', Nat.mod_mul]
      omega

/-- The signed value with the bit pattern of the cast. -/
theorem to_signed_to_unsigned (w : ℕ) (raw : ℤ) (hw : 0 < w) :
    to_signed w (to_unsigned w raw) = Int.bmod raw (2 ^ w) := by
  obtain ⟨k, rfl⟩ : ∃ k, w = k + 1 := ⟨w - 1, by omega⟩
  have hpow : (2 : ℤ) ^ (k + 1) = 2 * 2 ^ k := by ring
  have hk : (0 : ℤ) < 2 ^ k := by positivity
  have hmod : (0 : ℤ) ≤ raw % 2 ^ (k + 1) := Int.emod_nonneg _ (by omega)
  have hcast : ((raw % 2 ^ (k + 1)).toNat : ℤ) = raw % 2 ^ (k + 1) := Int.toNat_of_nonneg hmod
  have hhalf : (((2 ^ (k + 1) : ℕ) : ℤ) + 1) / 2 = 2 ^ k := by
    push_cast
    omega
  unfold to_signed to_unsigned
  rw [Int.bmod_def, hhalf, Nat.add_sub_cancel]
  push_cast
  have hiff : (raw % 2 ^ (k + 1)).toNat < 2 ^ k ↔ raw % 2 ^ (k + 1) < 2 ^ k := by
    rw [← hcast]
    norm_cast
  -- the sign bit decides on both sides
  by_cases hlt : raw % 2 ^ (k + 1) < 2 ^ k
  · rw [if_pos (hiff.mpr hlt), if_pos hlt, hcast]
  · rw [if_neg (fun h => hlt (hiff.mp h)), if_neg hlt, hcast]

/-! ## Bits of a byte -/

/-- The test of `get_bit`. -/
theorem shiftRight_and_one (b bit : UInt8) (hbit : bit ≤ 7) :
    (((b >>> bit) &&& 0x01) != 0) = b.toNat.testBit bit.toNat := by
  have h7 : bit.toNat ≤ 7 := UInt8.le_iff_toNat_le.mp hbit
  have hone : ((b >>> bit) &&& 0x01).toNat = 1 &&& (b.toNat >>> bit.toNat) := by
    rw [UInt8.toNat_and, UInt8.toNat_shiftRight, Nat.mod_eq_of_lt (by omega), Nat.and_comm]
    rfl
  rw [Nat.testBit, ← hone]
  by_cases hz : ((b >>> bit) &&& 0x01) = 0
  · rw [hz]
    rfl
  · have hnz : ((b >>> bit) &&& 0x01).toNat ≠ 0 := by
      intro h0
      exact hz (UInt8.toNat_inj.mp h0)
    rw [bne_iff_ne.mpr hz, bne_iff_ne.mpr hnz]

theorem toNat_one_shiftLeft (bit : UInt8) (hbit : bit ≤ 7) :
    ((1 : UInt8) <<< bit).toNat = 2 ^ bit.toNat := by
  have h7 : bit.toNat ≤ 7 := UInt8.le_iff_toNat_le.mp hbit
  have hpow : 2 ^ bit.toNat < 2 ^ 8 := Nat.pow_lt_pow_right (by omega) (by omega)
  rw [UInt8.toNat_shiftLeft, Nat.mod_eq_of_lt (by omega : bit.toNat < 8), Nat.shiftLeft_eq]
  exact (Nat.mod_eq_of_lt (by simpa using hpow)).trans (Nat.one_mul _)

/-- The byte `set_bit` stores: bit `bit` is `v`, the others are what they were. -/
theorem testBit_set_bit (b bit : UInt8) (v : Bool) (hbit : bit ≤ 7) (j : ℕ) :
    (if v then b ||| (1 <<< bit) else b &&& ~~~(1 <<< bit)).toNat.testBit j =
      if j = bit.toNat then v else b.toNat.testBit j := by
  have hmask := toNat_one_shiftLeft bit hbit
  have h7 : bit.toNat ≤ 7 := UInt8.le_iff_toNat_le.mp hbit
  cases v with
  | true =>
      simp only [if_true, UInt8.toNat_or, hmask, Nat.testBit_or, Nat.testBit_two_pow]
      by_cases hj : j = bit.toNat
      · rw [if_pos hj, decide_eq_true hj.symm, Bool.or_true]
      · rw [if_neg hj, decide_eq_false (Ne.symm hj), Bool.or_false]
  | false =>
      have hnot : (~~~((1 : UInt8) <<< bit)).toNat = 2 ^ 8 - (2 ^ bit.toNat + 1) := by
        have hsize : UInt8.size = 256 := rfl
        rw [UInt8.toNat_not, hmask, hsize]
        omega
      have hlt : 2 ^ bit.toNat < 2 ^ 8 := Nat.pow_lt_pow_right (by omega) (by omega)
      simp only [Bool.false_eq_true, if_false, UInt8.toNat_and, hnot, Nat.testBit_and,
        Nat.testBit_two_pow_sub_succ hlt, Nat.testBit_two_pow]
      by_cases hj : j = bit.toNat
      · rw [if_pos hj, decide_eq_true hj.symm, Bool.not_true, Bool.and_false, Bool.and_false]
      -- the mask is all ones but for the bit
      · rw [if_neg hj, decide_eq_false (Ne.symm hj), Bool.not_false, Bool.and_true]
        by_cases h8 : j < 8
        · rw [decide_eq_true h8, Bool.and_true]
        · -- a byte has no bits from 8 on
          have hb : b.toNat < 2 ^ j :=
            lt_of_lt_of_le b.toNat_lt (Nat.pow_le_pow_right (by omega) (by omega))
          rw [Nat.testBit_lt_two_pow hb, Bool.false_and]

/-! ## The image as a map of bits -/

namespace ProcessImage

/-- Bit `p.2` of byte `p.1`. -/
def bits (img : ProcessImage) (p : ℕ × ℕ) : Option Bool :=
  img.buf_[p.1]?.map fun b => b.toNat.testBit p.2

/-- A byte is its bits. -/
theorem getElem?_eq_of_bits {img img' : ProcessImage} {i : ℕ}
    (h : ∀ j, img'.bits (i, j) = img.bits (i, j)) : img'.buf_[i]? = img.buf_[i]? := by
  simp only [bits] at h
  cases hb : img.buf_[i]? with
  | none =>
      have h0 := h 0
      rw [hb] at h0
      exact Option.map_eq_none_iff.mp h0
  | some b =>
      cases hb' : img'.buf_[i]? with
      | none =>
          have h0 := h 0
          rw [hb, hb'] at h0
          cases h0
      | some b' =>
          rw [hb, hb'] at h
          have heq : b'.toNat = b.toNat := by
            apply Nat.eq_of_testBit_eq
            intro j
            exact Option.some.inj (h j)
          rw [UInt8.toNat_inj.mp heq]

/-- An image is its bits. -/
theorem eq_of_bits {img img' : ProcessImage} (h : img'.bits = img.bits) : img' = img := by
  have hbuf : img'.buf_ = img.buf_ := by
    apply List.ext_getElem?
    intro i
    apply getElem?_eq_of_bits
    intro j
    rw [h]
  cases img
  cases img'
  cases hbuf
  rfl

end ProcessImage

/-- The bits a tag owns: all bits of its bytes, or its single bit. -/
def Tag.footprint (t : Tag) : Set (ℕ × ℕ) :=
  { p | t.lo ≤ p.1 ∧ p.1 < t.hi ∧ (t.type = .Bit → p.2 = t.bit.toNat) }

/-- The tag's bytes lie inside the image, and a bit index is a bit of a byte. -/
structure Tag.Inside (t : Tag) (img : ProcessImage) : Prop where
  bytes : t.hi ≤ img.size
  bit : t.type = .Bit → t.bit ≤ 7

/-! ## Writes -/

/-- The ways a tag is written: through its integer, engineering or boolean value, or as
the bit pattern of a float. -/
inductive Write where
  | int (raw : ℤ)
  | scaled (engineering_value : ℚ)
  | bool (v : Bool)
  | f32 (pattern : UInt32)
  | f64 (pattern : UInt64)

/-- The tags a write is for. `Raw` tags have no typed writes. -/
def Write.Fits (w : Write) (t : DataType) : Prop :=
  match w with
  | .f32 _ => t = .F32
  | .f64 _ => t = .F64
  | _ => t ≠ .Raw

namespace ProcessImage

variable (F : FloatCast)

def write (img : ProcessImage) (t : Tag) : Write → Except Exn ProcessImage
  | .int raw => img.set_int F t raw
  | .scaled x => img.set_scaled F t x
  | .bool v => img.set_bool F t v
  | .f32 pattern => img.set_f32 t.byte_offset pattern t.order
  | .f64 pattern => img.set_f64 t.byte_offset pattern t.order

/-- Storing bytes overwrites all their bits. -/
theorem bits_poke {img : ProcessImage} {off : ℕ} {bs : List UInt8}
    (h : off + bs.length ≤ img.size) (p : ℕ × ℕ) :
    bits ⟨splice img.buf_ off bs⟩ p =
      if off ≤ p.1 ∧ p.1 < off + bs.length then bs[p.1 - off]?.map fun b => b.toNat.testBit p.2
      else img.bits p := by
  unfold bits
  by_cases hin : off ≤ p.1 ∧ p.1 < off + bs.length
  · rw [if_pos hin, getElem?_splice_mid (by unfold size at h; omega) hin.1 hin.2]
  · rw [if_neg hin, getElem?_splice_out h (by omega)]

theorem check_eq_ok {img : ProcessImage} {off : UInt64} {n : ℕ} (h : off.toNat + n ≤ img.size) :
    img.check off (UInt64.ofNat n) = .ok () := by
  have hcheck := check_ofNat_eq_ok h
  rwa [UInt64.ofNat_toNat] at hcheck

theorem size_splice {img : ProcessImage} {off : ℕ} {bs : List UInt8}
    (h : off + bs.length ≤ img.size) : size ⟨splice img.buf_ off bs⟩ = img.size :=
  length_splice h

theorem set_be_ok {img : ProcessImage} {off : UInt64} {n v : ℕ} {o : ByteOrder}
    (h : off.toNat + n ≤ img.size) :
    img.set_be off n v o = .ok ⟨splice img.buf_ off.toNat (reorder (u64_to_be v n) o)⟩ := by
  unfold set_be
  rw [check_eq_ok h]
  exact poke_eq_ok.mpr ⟨by rwa [length_reorder, length_u64_to_be], rfl⟩

theorem peek_byte {img : ProcessImage} {off : ℕ} {b : UInt8} (h : img.buf_[off]? = some b) :
    img.peek off 1 = .ok [b] := by
  obtain ⟨hlt, hb⟩ := List.getElem?_eq_some_iff.mp h
  unfold peek
  rw [if_pos (by unfold size; omega), List.drop_eq_getElem_cons hlt, hb]
  rfl

theorem set_bit_ok {img : ProcessImage} {off : UInt64} {bit : UInt8} {v : Bool} {b : UInt8}
    (hbit : bit ≤ 7) (h : img.buf_[off.toNat]? = some b) :
    img.set_bit off bit v = .ok ⟨splice img.buf_ off.toNat
      [if v then b ||| (1 <<< bit) else b &&& ~~~(1 <<< bit)]⟩ := by
  have hlt : off.toNat + 1 ≤ img.size := (List.getElem?_eq_some_iff.mp h).1
  unfold set_bit
  rw [show (1 : UInt64) = UInt64.ofNat 1 from rfl, check_eq_ok hlt]
  simp only [bind, Except.bind]
  rw [if_neg (by simpa using hbit), peek_byte h]
  exact poke_eq_ok.mpr ⟨hlt, rfl⟩

/-- The one-bit and the many-byte case of a write: what a typed write comes down to,
whatever the image. -/
theorem write_eq (t : Tag) (w : Write) (hw : w.Fits t.type) :
    (t.type = .Bit ∧ ∃ v, ∀ img : ProcessImage,
      img.write F t w = img.set_bit t.byte_offset t.bit v) ∨
    (t.type ≠ .Bit ∧ ∃ v o, ∀ img : ProcessImage,
      img.write F t w = img.set_be t.byte_offset t.size_bytes.toNat v o) := by
  -- the integer write is what the scaled and the boolean write end in
  have hint : t.type ≠ .Raw → ∀ raw,
      (t.type = .Bit ∧ ∃ v, ∀ img : ProcessImage,
        img.set_int F t raw = img.set_bit t.byte_offset t.bit v) ∨
      (t.type ≠ .Bit ∧ ∃ v o, ∀ img : ProcessImage,
        img.set_int F t raw = img.set_be t.byte_offset t.size_bytes.toNat v o) := by
    intro hraw raw
    unfold Tag.size_bytes set_int
    cases htype : t.type
    case Raw => exact absurd htype hraw
    case Bit => exact .inl ⟨rfl, _, fun img => rfl⟩
    all_goals exact .inr ⟨by rintro ⟨⟩, _, _, fun img => rfl⟩
  cases w with
  | int raw => exact hint hw raw
  | scaled x =>
      unfold write set_scaled
      cases htype : t.type
      case Raw => exact absurd htype hw
      case F32 =>
        unfold Tag.size_bytes
        rw [htype]
        exact .inr ⟨by rintro ⟨⟩, _, _, fun img => rfl⟩
      case F64 =>
        unfold Tag.size_bytes
        rw [htype]
        exact .inr ⟨by rintro ⟨⟩, _, _, fun img => rfl⟩
      all_goals
        have h := hint hw (llround (if t.scale ≠ 0 then (x - t.bias) / t.scale else 0))
        rwa [htype] at h
  | bool v =>
      unfold write set_bool
      by_cases htype : t.type = .Bit
      · exact .inl ⟨htype, v, fun img => if_pos htype⟩
      · simp only [if_neg htype]
        exact hint hw _
  | f32 pattern =>
      unfold Tag.size_bytes
      rw [show t.type = .F32 from hw]
      exact .inr ⟨by rintro ⟨⟩, _, _, fun img => rfl⟩
  | f64 pattern =>
      unfold Tag.size_bytes
      rw [show t.type = .F64 from hw]
      exact .inr ⟨by rintro ⟨⟩, _, _, fun img => rfl⟩

section Footprint

open Classical

variable {t : Tag} {img : ProcessImage}

/-- A bit is stored in the tag's own bit. -/
theorem set_bit_bits (htype : t.type = .Bit) (v : Bool) (hin : t.Inside img) :
    ∃ img', img.set_bit t.byte_offset t.bit v = .ok img' ∧
      img'.bits = t.footprint.piecewise (fun _ => some v) img.bits := by
  have hhi : t.hi = t.lo + 1 := by
    unfold Tag.hi Tag.lo Tag.size_bytes
    rw [htype]
    rfl
  have hlt : t.byte_offset.toNat < img.buf_.length := by
    have hbytes := hin.bytes
    rw [hhi] at hbytes
    exact hbytes
  have hb := List.getElem?_eq_getElem hlt
  refine ⟨_, set_bit_ok (hin.bit htype) hb, ?_⟩
  funext p
  rw [bits_poke (by exact hlt) p]
  by_cases hbyte : p.1 = t.byte_offset.toNat
  · -- the tag's byte: only the tag's bit is new
    rw [if_pos ⟨hbyte.ge, by simp [hbyte]⟩, hbyte, Nat.sub_self]
    simp only [List.getElem?_cons_zero, Option.map_some, testBit_set_bit _ _ _ (hin.bit htype)]
    by_cases hj : p.2 = t.bit.toNat
    · have hmem : p ∈ t.footprint :=
        ⟨hbyte.ge, by rw [hhi, hbyte]; exact Nat.lt_succ_self _, fun _ => hj⟩
      rw [if_pos hj, Set.piecewise_eq_of_mem _ _ _ hmem]
    · have hmem : p ∉ t.footprint := fun h => hj (h.2.2 htype)
      rw [if_neg hj, Set.piecewise_eq_of_notMem _ _ _ hmem, bits, hbyte, hb, Option.map_some]
  · -- no other byte is touched
    have hmem : p ∉ t.footprint := by
      rintro ⟨hlo, hlt', -⟩
      rw [hhi] at hlt'
      exact hbyte (Nat.le_antisymm (Nat.lt_succ_iff.mp hlt') hlo)
    rw [Set.piecewise_eq_of_notMem _ _ _ hmem, if_neg]
    rintro ⟨hlo, hlt'⟩
    exact hbyte (Nat.le_antisymm (Nat.lt_succ_iff.mp hlt') hlo)

/-- The bits of a value in the tag's bytes. -/
def stored (t : Tag) (v : ℕ) (o : ByteOrder) (p : ℕ × ℕ) : Option Bool :=
  (reorder (u64_to_be v t.size_bytes.toNat) o)[p.1 - t.byte_offset.toNat]?.map
    fun b => b.toNat.testBit p.2

/-- A value is stored in all bits of the tag's bytes. -/
theorem set_be_bits (htype : t.type ≠ .Bit) (v : ℕ) (o : ByteOrder) (hin : t.Inside img) :
    ∃ img', img.set_be t.byte_offset t.size_bytes.toNat v o = .ok img' ∧
      img'.bits = t.footprint.piecewise (stored t v o) img.bits := by
  refine ⟨_, set_be_ok hin.bytes, ?_⟩
  funext p
  rw [bits_poke (by rw [length_reorder, length_u64_to_be]; exact hin.bytes) p, length_reorder,
    length_u64_to_be]
  by_cases hmem : t.byte_offset.toNat ≤ p.1 ∧ p.1 < t.byte_offset.toNat + t.size_bytes.toNat
  · have hfoot : p ∈ t.footprint := ⟨hmem.1, hmem.2, fun h => absurd h htype⟩
    rw [if_pos hmem, Set.piecewise_eq_of_mem _ _ _ hfoot]
    rfl
  · have hfoot : p ∉ t.footprint := fun h => hmem ⟨h.1, h.2.1⟩
    rw [if_neg hmem, Set.piecewise_eq_of_notMem _ _ _ hfoot]

/-- **A write overwrites the tag's footprint**, with contents that do not depend on the
image. -/
theorem write_bits (t : Tag) (w : Write) (hw : w.Fits t.type) :
    ∃ c : ℕ × ℕ → Option Bool, ∀ img : ProcessImage, t.Inside img →
      ∃ img', img.write F t w = .ok img' ∧ img'.bits = t.footprint.piecewise c img.bits := by
  rcases write_eq F t w hw with ⟨htype, v, heq⟩ | ⟨htype, v, o, heq⟩
  · refine ⟨fun _ => some v, fun img hin => ?_⟩
    rw [heq]
    exact set_bit_bits htype v hin
  · refine ⟨stored t v o, fun img hin => ?_⟩
    rw [heq]
    exact set_be_bits htype v o hin

end Footprint

theorem write_frame {F : FloatCast} {img img' : ProcessImage} {t : Tag} {w : Write}
    (hw : w.Fits t.type) (h : img.write F t w = .ok img') : Frame img img' t.lo t.hi := by
  rcases write_eq F t w hw with ⟨htype, v, heq⟩ | ⟨htype, v, o, heq⟩
  · rw [heq] at h
    unfold Tag.lo Tag.hi Tag.size_bytes
    rw [htype]
    exact set_bit_frame h
  · rw [heq] at h
    exact set_be_frame h

/-! ## Reads -/

/-- The bytes an access reads are those of any image that has the same bits there. -/
theorem peek_congr {img img' : ProcessImage} {off n : ℕ} (hsize : img'.size = img.size)
    (h : ∀ i j, off ≤ i → i < off + n → img'.bits (i, j) = img.bits (i, j)) :
    img'.peek off n = img.peek off n := by
  have hbytes : (img'.buf_.drop off).take n = (img.buf_.drop off).take n := by
    apply List.ext_getElem?
    intro k
    by_cases hk : k < n
    · rw [List.getElem?_take_of_lt hk, List.getElem?_take_of_lt hk, List.getElem?_drop,
        List.getElem?_drop]
      exact getElem?_eq_of_bits fun j => h _ _ (by omega) (by omega)
    · rw [List.getElem?_eq_none (by rw [List.length_take]; omega),
        List.getElem?_eq_none (by rw [List.length_take]; omega)]
  unfold peek
  rw [hsize, hbytes]

theorem check_congr {img img' : ProcessImage} {off len : UInt64} (hsize : img'.size = img.size) :
    img'.check off len = img.check off len := by
  unfold check
  rw [hsize]

theorem get_be_congr {img img' : ProcessImage} {off : UInt64} {n : ℕ} {o : ByteOrder}
    (hsize : img'.size = img.size)
    (h : ∀ i j, off.toNat ≤ i → i < off.toNat + n → img'.bits (i, j) = img.bits (i, j)) :
    img'.get_be off n o = img.get_be off n o := by
  unfold get_be
  rw [check_congr hsize, peek_congr hsize h]

/-- `get_bit` reads one bit of the map. -/
theorem get_bit_eq {img : ProcessImage} {off : UInt64} {bit : UInt8} (hbit : bit ≤ 7) :
    img.get_bit off bit = (img.check off 1).bind fun _ =>
      (img.bits (off.toNat, bit.toNat)).elim (.error .undefined) .ok := by
  unfold get_bit
  rw [if_neg (by simpa using hbit)]
  cases hb : img.buf_[off.toNat]? with
  | some b =>
      rw [peek_byte hb, bits, hb, Option.map_some, ← shiftRight_and_one b bit hbit]
      rfl
  | none =>
      have hlen := List.getElem?_eq_none_iff.mp hb
      rw [peek, if_neg (by unfold size; omega), bits, hb]
      rfl

theorem get_bit_congr {img img' : ProcessImage} {off : UInt64} {bit : UInt8}
    (hsize : img'.size = img.size)
    (h : img'.bits (off.toNat, bit.toNat) = img.bits (off.toNat, bit.toNat)) :
    img'.get_bit off bit = img.get_bit off bit := by
  by_cases hbit : bit ≤ 7
  · rw [get_bit_eq hbit, get_bit_eq hbit, check_congr hsize, h]
  · unfold get_bit
    rw [if_pos (by simpa using hbit), if_pos (by simpa using hbit), check_congr hsize]

/-- The tag reads the same in both images, whichever way it is read. -/
structure SameReads (img img' : ProcessImage) (t : Tag) : Prop where
  int : img'.get_int F t = img.get_int F t
  scaled : img'.get_scaled F t = img.get_scaled F t
  bool : img'.get_bool F t = img.get_bool F t
  f32 : t.type = .F32 → img'.get_f32 t.byte_offset t.order = img.get_f32 t.byte_offset t.order
  f64 : t.type = .F64 → img'.get_f64 t.byte_offset t.order = img.get_f64 t.byte_offset t.order
  raw : t.type = .Raw →
    img'.get_raw t.byte_offset t.raw_len = img.get_raw t.byte_offset t.raw_len

/-- **A read depends on the tag's footprint only.** -/
theorem sameReads_of_bits {img img' : ProcessImage} {t : Tag} (hsize : img'.size = img.size)
    (h : ∀ p ∈ t.footprint, img'.bits p = img.bits p) : SameReads F img img' t := by
  have hbit : t.type = .Bit →
      img'.get_bit t.byte_offset t.bit = img.get_bit t.byte_offset t.bit := by
    intro htype
    apply get_bit_congr hsize
    apply h
    refine ⟨Nat.le_refl _, ?_, fun _ => rfl⟩
    unfold Tag.hi Tag.size_bytes
    rw [htype]
    exact Nat.lt_succ_self _
  -- a tag of any other type has all bits of its bytes in the footprint
  have hbytes : t.type ≠ .Bit → ∀ i j, t.byte_offset.toNat ≤ i →
      i < t.byte_offset.toNat + t.size_bytes.toNat → img'.bits (i, j) = img.bits (i, j) := by
    intro htype i j hlo hhi
    exact h (i, j) ⟨hlo, hhi, fun h => absurd h htype⟩
  have hbe : t.type ≠ .Bit → ∀ n o, t.size_bytes.toNat = n →
      img'.get_be t.byte_offset n o = img.get_be t.byte_offset n o := by
    rintro htype n o rfl
    exact get_be_congr hsize (hbytes htype)
  have hf32 : t.type = .F32 →
      img'.get_f32 t.byte_offset t.order = img.get_f32 t.byte_offset t.order := by
    intro htype
    unfold get_f32 get_u32
    rw [hbe (by rw [htype]; rintro ⟨⟩) 4 t.order (by unfold Tag.size_bytes; rw [htype]; rfl)]
  have hf64 : t.type = .F64 →
      img'.get_f64 t.byte_offset t.order = img.get_f64 t.byte_offset t.order := by
    intro htype
    unfold get_f64
    rw [hbe (by rw [htype]; rintro ⟨⟩) 8 t.order (by unfold Tag.size_bytes; rw [htype]; rfl)]
  have hint : img'.get_int F t = img.get_int F t := by
    unfold get_int get_u8 get_u16 get_u32
    unfold Tag.size_bytes at hbe
    cases htype : t.type <;> simp only [htype] at hbe ⊢
    case Bit => rw [hbit htype]
    case F32 => rw [hf32 htype]
    case F64 => rw [hf64 htype]
    case U8 | I8 => rw [hbe (by rintro ⟨⟩) 1 _ rfl]
    case U16 | I16 => rw [hbe (by rintro ⟨⟩) 2 _ rfl]
    case U32 | I32 => rw [hbe (by rintro ⟨⟩) 4 _ rfl]
  refine ⟨hint, ?_, ?_, hf32, hf64, ?_⟩
  · unfold get_scaled
    cases htype : t.type <;> simp only [hint]
    case F32 => rw [hf32 htype]
    case F64 => rw [hf64 htype]
  · unfold get_bool
    by_cases htype : t.type = .Bit
    · rw [if_pos htype, if_pos htype, hbit htype]
    · rw [if_neg htype, if_neg htype, hint]
  · intro htype
    unfold get_raw
    rw [check_congr hsize, peek_congr hsize]
    intro i j hlo hhi
    apply hbytes (by rw [htype]; rintro ⟨⟩) i j hlo
    unfold Tag.size_bytes
    rw [htype]
    exact hhi

/-! ## Reading back -/

/-- The bytes just stored are read. -/
theorem peek_splice {img : ProcessImage} {off : ℕ} {bs : List UInt8}
    (h : off + bs.length ≤ img.size) :
    peek ⟨splice img.buf_ off bs⟩ off bs.length = .ok bs := by
  unfold peek
  rw [if_pos (by rw [size_splice h]; exact h)]
  congr 1
  apply List.ext_getElem?
  intro k
  by_cases hk : k < bs.length
  · rw [List.getElem?_take_of_lt hk, List.getElem?_drop,
      getElem?_splice_mid (by unfold size at h; omega) (by omega) (by omega), Nat.add_sub_cancel_left]
  · rw [List.getElem?_eq_none (by rw [List.length_take]; omega),
      List.getElem?_eq_none (by omega)]

/-- What a many-byte setter stored, its getter returns, up to the width. -/
theorem get_be_set_be {img : ProcessImage} {off : UInt64} (n v : ℕ) (o : ByteOrder)
    (h : off.toNat + n ≤ img.size) (ho : o = .BigEndian ∨ n % 2 = 0) :
    ∃ img', img.set_be off n v o = .ok img' ∧ img'.get_be off n o = .ok (v % 256 ^ n) := by
  have hlen : (reorder (u64_to_be v n) o).length = n := by rw [length_reorder, length_u64_to_be]
  have hin : off.toNat + (reorder (u64_to_be v n) o).length ≤ img.size := by rw [hlen]; exact h
  refine ⟨_, set_be_ok h, ?_⟩
  have hcheck : check ⟨splice img.buf_ off.toNat (reorder (u64_to_be v n) o)⟩ off (UInt64.ofNat n) =
      .ok () := check_eq_ok (by rw [size_splice hin]; exact h)
  have hpeek := peek_splice hin
  rw [hlen] at hpeek
  unfold get_be
  rw [hcheck]
  simp only [bind, Except.bind, hpeek]
  rw [reorder_reorder (by rw [length_u64_to_be]; exact ho), be_to_u64_u64_to_be]
  rfl

/-- What `set_bit` stored, `get_bit` returns. -/
theorem get_bit_set_bit {img : ProcessImage} {off : UInt64} {bit : UInt8} (v : Bool)
    (h : off.toNat + 1 ≤ img.size) (hbit : bit ≤ 7) :
    ∃ img', img.set_bit off bit v = .ok img' ∧ img'.get_bit off bit = .ok v := by
  obtain ⟨b, hb⟩ : ∃ b, img.buf_[off.toNat]? = some b :=
    ⟨_, List.getElem?_eq_getElem (show off.toNat < img.buf_.length from h)⟩
  have hread : bits ⟨splice img.buf_ off.toNat
      [if v then b ||| (1 <<< bit) else b &&& ~~~(1 <<< bit)]⟩ (off.toNat, bit.toNat) = some v := by
    have hin : off.toNat ≤ off.toNat ∧ off.toNat < off.toNat + 1 := ⟨Nat.le_refl _, by omega⟩
    rw [bits_poke h]
    simp only [List.length_singleton, if_pos hin, Nat.sub_self, List.getElem?_cons_zero,
      Option.map_some]
    rw [testBit_set_bit _ _ _ hbit, if_pos rfl]
  refine ⟨_, set_bit_ok hbit hb, ?_⟩
  rw [get_bit_eq hbit, hread, show (1 : UInt64) = UInt64.ofNat 1 from rfl,
    check_eq_ok (by rw [size_splice h]; exact h)]
  rfl

end ProcessImage

/-- `raw` reduced to the type of a tag: two's complement modulo the width, and 0 or 1
for a bit. -/
def DataType.reduce (t : DataType) (raw : ℤ) : ℤ :=
  match t with
  | .Bit => if raw ≠ 0 then 1 else 0
  | .U8 => raw % 2 ^ 8
  | .I8 => raw.bmod (2 ^ 8)
  | .U16 => raw % 2 ^ 16
  | .I16 => raw.bmod (2 ^ 16)
  | .U32 => raw % 2 ^ 32
  | .I32 => raw.bmod (2 ^ 32)
  | .F32 | .F64 | .Raw => raw

/-- The types whose value is an integer. -/
def DataType.Integral (t : DataType) : Prop :=
  t = .Bit ∨ t = .U8 ∨ t = .I8 ∨ t = .U16 ∨ t = .I16 ∨ t = .U32 ∨ t = .I32

namespace ProcessImage

variable (F : FloatCast)

theorem to_unsigned_lt (w : ℕ) (raw : ℤ) : to_unsigned w raw < 2 ^ w := by
  have hpos : (0 : ℤ) < 2 ^ w := by positivity
  have hlt := Int.emod_lt_of_pos raw hpos
  unfold to_unsigned
  zify
  rw [Int.toNat_of_nonneg (Int.emod_nonneg _ hpos.ne')]
  exact hlt

theorem cast_to_unsigned (w : ℕ) (raw : ℤ) : (to_unsigned w raw : ℤ) = raw % 2 ^ w := by
  have hpos : (0 : ℤ) < 2 ^ w := by positivity
  exact Int.toNat_of_nonneg (Int.emod_nonneg _ hpos.ne')

/-- A value cast to the width of the access comes back as it is. -/
theorem get_be_set_unsigned {img : ProcessImage} {off : UInt64} (n w : ℕ) (o : ByteOrder)
    (raw : ℤ) (hw : w = 8 * n) (h : off.toNat + n ≤ img.size) (ho : o = .BigEndian ∨ n % 2 = 0) :
    ∃ img', img.set_be off n (to_unsigned w raw) o = .ok img' ∧
      img'.get_be off n o = .ok (to_unsigned w raw) := by
  obtain ⟨img', hset, hget⟩ := get_be_set_be n (to_unsigned w raw) o h ho
  have hlt := to_unsigned_lt w raw
  rw [hw, Nat.pow_mul] at hlt
  rw [Nat.mod_eq_of_lt (by rw [hw]; exact hlt)] at hget
  exact ⟨img', hset, hget⟩

/-- **`get_int` after `set_int`**. -/
theorem get_int_set_int {img : ProcessImage} {t : Tag} (ht : t.type.Integral) (hin : t.Inside img)
    (raw : ℤ) :
    ∃ img', img.set_int F t raw = .ok img' ∧ img'.get_int F t = .ok (t.type.reduce raw) := by
  have hbytes := hin.bytes
  unfold Tag.hi Tag.size_bytes at hbytes
  unfold set_int get_int DataType.reduce
  -- one case per type: the width decides the read, the sign how it is understood
  rcases ht with h | h | h | h | h | h | h <;> rw [h] at hbytes ⊢
  · obtain ⟨img', hset, hget⟩ := get_bit_set_bit (raw != 0) hbytes (hin.bit h)
    refine ⟨img', hset, ?_⟩
    rw [hget]
    by_cases hz : raw = 0
    · rw [hz]
      rfl
    · rw [bne_iff_ne.mpr hz, if_pos hz]
      rfl
  · obtain ⟨img', hset, hget⟩ := get_be_set_unsigned 1 8 .BigEndian raw rfl hbytes (.inl rfl)
    refine ⟨img', hset, ?_⟩
    rw [get_u8, hget, ← cast_to_unsigned 8]
    rfl
  · obtain ⟨img', hset, hget⟩ := get_be_set_unsigned 1 8 .BigEndian raw rfl hbytes (.inl rfl)
    refine ⟨img', hset, ?_⟩
    rw [get_u8, hget, ← to_signed_to_unsigned 8 raw (by omega)]
    rfl
  · obtain ⟨img', hset, hget⟩ := get_be_set_unsigned 2 16 t.order raw rfl hbytes (.inr rfl)
    refine ⟨img', hset, ?_⟩
    rw [get_u16, hget, ← cast_to_unsigned 16]
    rfl
  · obtain ⟨img', hset, hget⟩ := get_be_set_unsigned 2 16 t.order raw rfl hbytes (.inr rfl)
    refine ⟨img', hset, ?_⟩
    rw [get_u16, hget, ← to_signed_to_unsigned 16 raw (by omega)]
    rfl
  · obtain ⟨img', hset, hget⟩ := get_be_set_unsigned 4 32 t.order raw rfl hbytes (.inr rfl)
    refine ⟨img', hset, ?_⟩
    rw [get_u32, hget, ← cast_to_unsigned 32]
    rfl
  · obtain ⟨img', hset, hget⟩ := get_be_set_unsigned 4 32 t.order raw rfl hbytes (.inr rfl)
    refine ⟨img', hset, ?_⟩
    rw [get_u32, hget, ← to_signed_to_unsigned 32 raw (by omega)]
    rfl

/-- **`get_f32` after `set_f32`** and **`get_f64` after `set_f64`** keep the pattern. -/
theorem get_f32_set_f32 {img : ProcessImage} {off : UInt64} (o : ByteOrder) (pattern : UInt32)
    (h : off.toNat + 4 ≤ img.size) :
    ∃ img', img.set_f32 off pattern o = .ok img' ∧ img'.get_f32 off o = .ok pattern := by
  obtain ⟨img', hset, hget⟩ := get_be_set_be 4 pattern.toNat o h (.inr rfl)
  have hlt := pattern.toNat_lt
  refine ⟨img', hset, ?_⟩
  rw [get_f32, get_u32, hget, Nat.mod_eq_of_lt (by omega)]
  exact congrArg Except.ok UInt32.ofNat_toNat

theorem get_f64_set_f64 {img : ProcessImage} {off : UInt64} (o : ByteOrder) (pattern : UInt64)
    (h : off.toNat + 8 ≤ img.size) :
    ∃ img', img.set_f64 off pattern o = .ok img' ∧ img'.get_f64 off o = .ok pattern := by
  obtain ⟨img', hset, hget⟩ := get_be_set_be 8 pattern.toNat o h (.inr rfl)
  have hlt := pattern.toNat_lt
  refine ⟨img', hset, ?_⟩
  rw [get_f64, hget, Nat.mod_eq_of_lt (by omega)]
  exact congrArg Except.ok UInt64.ofNat_toNat

/-! ## Tags that do not overlap -/

/-- **A write leaves every other bit alone**: the bytes outside the tag, the other bits
of a `Bit` tag's byte, and so whatever a tag elsewhere reads. -/
theorem write_elsewhere {F : FloatCast} {img img' : ProcessImage} {t : Tag} {w : Write}
    (hin : t.Inside img) (hw : w.Fits t.type) (h : img.write F t w = .ok img') :
    ∀ p ∉ t.footprint, img'.bits p = img.bits p := by
  classical
  obtain ⟨c, hc⟩ := write_bits F t w hw
  obtain ⟨img'', hwrite, hbits⟩ := hc img hin
  obtain rfl : img'' = img' := Except.ok.inj (hwrite.symm.trans h)
  intro p hp
  rw [hbits, Set.piecewise_eq_of_notMem _ _ _ hp]

/-- **Writes to tags that do not overlap commute.** -/
theorem write_comm {F : FloatCast} {img : ProcessImage} {t u : Tag} {w v : Write}
    (ht : t.Inside img) (hu : u.Inside img) (hw : w.Fits t.type) (hv : v.Fits u.type)
    (hdisjoint : Disjoint t.footprint u.footprint) :
    ∃ img', (img.write F t w >>= fun i => i.write F u v) = .ok img' ∧
      (img.write F u v >>= fun i => i.write F t w) = .ok img' := by
  classical
  obtain ⟨c, hc⟩ := write_bits F t w hw
  obtain ⟨d, hd⟩ := write_bits F u v hv
  obtain ⟨img₁, hwrite₁, hbits₁⟩ := hc img ht
  obtain ⟨img₂, hwrite₂, hbits₂⟩ := hd img hu
  -- either write keeps the size, so the other tag is still inside
  have hsize₁ := (write_frame hw hwrite₁).size_eq
  have hsize₂ := (write_frame hv hwrite₂).size_eq
  obtain ⟨img₁₂, hwrite₁₂, hbits₁₂⟩ := hd img₁ ⟨by rw [hsize₁]; exact hu.bytes, hu.bit⟩
  obtain ⟨img₂₁, hwrite₂₁, hbits₂₁⟩ := hc img₂ ⟨by rw [hsize₂]; exact ht.bytes, ht.bit⟩
  have heq : img₂₁ = img₁₂ := by
    apply eq_of_bits
    rw [hbits₂₁, hbits₁₂, hbits₁, hbits₂]
    funext p
    by_cases hp : p ∈ t.footprint
    · have hq : p ∉ u.footprint := Set.disjoint_left.mp hdisjoint hp
      simp only [Set.piecewise_eq_of_mem _ _ _ hp, Set.piecewise_eq_of_notMem _ _ _ hq]
    · by_cases hq : p ∈ u.footprint
      · simp only [Set.piecewise_eq_of_notMem _ _ _ hp, Set.piecewise_eq_of_mem _ _ _ hq]
      · simp only [Set.piecewise_eq_of_notMem _ _ _ hp, Set.piecewise_eq_of_notMem _ _ _ hq]
  refine ⟨img₁₂, bind_eq_ok.mpr ⟨img₁, hwrite₁, hwrite₁₂⟩, ?_⟩
  exact bind_eq_ok.mpr ⟨img₂, hwrite₂, heq ▸ hwrite₂₁⟩

/-- **Tag writes round-trip and touch nothing else.** -/
theorem tag_writes (img : ProcessImage) (t : Tag) (hin : t.Inside img) :
    (t.type.Integral → ∀ raw : ℤ, ∃ img', img.set_int F t raw = .ok img' ∧
      img'.get_int F t = .ok (t.type.reduce raw)) ∧
    (t.type = .F32 → ∀ pattern, ∃ img', img.set_f32 t.byte_offset pattern t.order = .ok img' ∧
      img'.get_f32 t.byte_offset t.order = .ok pattern) ∧
    (t.type = .F64 → ∀ pattern, ∃ img', img.set_f64 t.byte_offset pattern t.order = .ok img' ∧
      img'.get_f64 t.byte_offset t.order = .ok pattern) ∧
    (∀ w : Write, w.Fits t.type → ∃ img', img.write F t w = .ok img' ∧ img'.size = img.size ∧
      (∀ i, i < t.lo ∨ t.hi ≤ i → img'.buf_[i]? = img.buf_[i]?) ∧
      (t.type = .Bit → ∀ j, j ≠ t.bit.toNat → img'.bits (t.lo, j) = img.bits (t.lo, j)) ∧
      (∀ u : Tag, Disjoint t.footprint u.footprint → SameReads F img img' u)) ∧
    (∀ u : Tag, u.Inside img → Disjoint t.footprint u.footprint →
      ∀ w v : Write, w.Fits t.type → v.Fits u.type →
        ∃ img', (img.write F t w >>= fun i => i.write F u v) = .ok img' ∧
          (img.write F u v >>= fun i => i.write F t w) = .ok img') := by
  have hbytes := hin.bytes
  unfold Tag.hi Tag.size_bytes at hbytes
  refine ⟨fun ht raw => get_int_set_int F ht hin raw, ?_, ?_, ?_, ?_⟩
  · intro htype pattern
    rw [htype] at hbytes
    exact get_f32_set_f32 t.order pattern hbytes
  · intro htype pattern
    rw [htype] at hbytes
    exact get_f64_set_f64 t.order pattern hbytes
  · intro w hw
    obtain ⟨c, hc⟩ := write_bits F t w hw
    obtain ⟨img', hwrite, -⟩ := hc img hin
    have hframe := write_frame hw hwrite
    -- the bytes come from the frame of the write, the bits from its footprint
    refine ⟨img', hwrite, hframe.size_eq, hframe.outside, ?_, ?_⟩
    · intro htype j hj
      exact write_elsewhere hin hw hwrite _ fun hp => hj (hp.2.2 htype)
    · intro u hdisjoint
      apply sameReads_of_bits F hframe.size_eq
      intro p hp
      exact write_elsewhere hin hw hwrite p (Set.disjoint_right.mp hdisjoint hp)
  · intro u hu hdisjoint w v hw hv
    exact write_comm hin hu hw hv hdisjoint

/-- A swapped word at an odd offset of a four-byte image. -/
theorem tag_writes_odd_word :
    ∃ img', (resize 4).set_int no_floats
        { name := "w", byte_offset := 1, order := .LittleEndianSwap } (-2) = .ok img' ∧
      img'.get_int no_floats { name := "w", byte_offset := 1, order := .LittleEndianSwap } =
        .ok 65534 :=
  (tag_writes no_floats (resize 4) { name := "w", byte_offset := 1, order := .LittleEndianSwap }
    ⟨by decide, by rintro ⟨⟩⟩).1 (by unfold DataType.Integral; decide) (-2)

end ProcessImage

end Mgate
