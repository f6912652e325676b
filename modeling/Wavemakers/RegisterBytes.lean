/-
The register and the byte view of one gateway area.

`load_from_registers` writes registers out high byte first, `store_to_registers`
packs bytes back; this file shows that each undoes the other at any stretch of the
image, and that a big-endian value read from the bytes is the one `MAPPING.md`
assembles from the registers around its offset. `IndraDrive::slave_live` never builds
the image: it applies the register-to-byte rule by hand to the status snapshot. The last
section compares it with `get_bit` on the image of that snapshot.
-/
import Wavemakers.IndraDrive
import Wavemakers.TagAccess

set_option autoImplicit false

namespace Mgate

open Splice

/-! ## Registers and their bytes -/

/-- A register list is its bytes. -/
theorem eq_of_byte_of {regs regs' : List UInt16} (hlen : regs.length = regs'.length)
    (h : ∀ i, i < 2 * regs.length → byte_of regs i = byte_of regs' i) : regs = regs' := by
  apply List.ext_getElem?
  intro k
  by_cases hk : k < regs.length
  · apply getElem?_of_byte_of
    · exact h _ (by omega)
    · exact h _ (by omega)
  · rw [List.getElem?_eq_none (by omega), List.getElem?_eq_none (by omega)]

theorem byte_of_eq_some {regs : List UInt16} {k : ℕ} (h : k < 2 * regs.length) :
    byte_of regs k = some (if k % 2 = 0 then hi (regs.getD (k / 2) 0)
      else lo (regs.getD (k / 2) 0)) := by
  have hreg : k / 2 < regs.length := by omega
  rw [byte_of, List.getD_eq_getElem?_getD, List.getElem?_eq_getElem hreg, Option.map_some,
    Option.getD_some]

namespace ProcessImage

/-- **`load_from_registers`** at any offset where the registers fit. -/
theorem load_from_registers_ok {img : ProcessImage} {regs : List UInt16} {off : ℕ}
    (h : off + regs.length * 2 ≤ img.size) :
    ∃ img', img.load_from_registers regs off = .ok img' ∧ img'.size = img.size ∧
      (∀ i, i < 2 * regs.length → img'.buf_[off + i]? = byte_of regs i) ∧
      ∀ i, i < off ∨ off + 2 * regs.length ≤ i → img'.buf_[i]? = img.buf_[i]? := by
  have hlen := length_flatMap_bytes regs
  have hin : off + (regs.flatMap fun r => [hi r, lo r]).length ≤ img.size := by omega
  refine ⟨⟨splice img.buf_ off (regs.flatMap fun r => [hi r, lo r])⟩, ?_, size_splice hin, ?_, ?_⟩
  · unfold load_from_registers
    rw [check_ofNat_eq_ok h]
    exact poke_eq_ok.mpr ⟨hin, rfl⟩
  · intro i hi
    rw [getElem?_splice_mid (by unfold size at hin; omega) (by omega) (by omega),
      Nat.add_sub_cancel_left, getElem?_flatMap_bytes]
  · intro i hi
    exact getElem?_splice_out hin (by omega)

/-- **Storing after loading** returns the registers, and any stretch of them. -/
theorem store_after_load {img : ProcessImage} {regs : List UInt16} {off : ℕ}
    (h : off + regs.length * 2 ≤ img.size) :
    ∃ img', img.load_from_registers regs off = .ok img' ∧
      ∀ k count, k + count ≤ regs.length →
        img'.store_to_registers count (off + 2 * k) = .ok ((regs.drop k).take count) := by
  obtain ⟨img', hload, hsize, hbytes, -⟩ := load_from_registers_ok h
  refine ⟨img', hload, fun k count hk => ?_⟩
  obtain ⟨out, hstore, hlen, hout⟩ :=
    store_to_registers_spec (by omega : off + 2 * k + count * 2 ≤ img'.size)
  have heq : out = (regs.drop k).take count := by
    apply eq_of_byte_of
    · rw [List.length_take, List.length_drop, hlen]
      omega
    · intro i hi
      rw [hlen] at hi
      rw [hout i hi, byte_of_take_drop hi, Nat.add_assoc, hbytes _ (by omega), Nat.add_comm]
  rw [hstore, heq]

/-- **Loading after storing** returns the bytes: to the same place they leave the image
as it is, and anywhere else they are the same bytes. -/
theorem load_after_store {img : ProcessImage} {count off : ℕ} (h : off + count * 2 ≤ img.size) :
    ∃ regs, img.store_to_registers count off = .ok regs ∧
      img.load_from_registers regs off = .ok img ∧
      ∀ (dst : ProcessImage) (place : ℕ), place + count * 2 ≤ dst.size →
        ∃ dst', dst.load_from_registers regs place = .ok dst' ∧
          ∀ i, i < 2 * count → dst'.buf_[place + i]? = img.buf_[off + i]? := by
  obtain ⟨regs, hstore, hlen, hbytes⟩ := store_to_registers_spec h
  refine ⟨regs, hstore, ?_, ?_⟩
  · obtain ⟨img', hload, hsize, hin, hout⟩ :=
      load_from_registers_ok (by rw [hlen]; exact h : off + regs.length * 2 ≤ img.size)
    have heq : img'.buf_ = img.buf_ := by
      apply List.ext_getElem?
      intro i
      by_cases hi : i < off ∨ off + 2 * regs.length ≤ i
      · exact hout i hi
      · obtain ⟨k, rfl⟩ : ∃ k, i = off + k := ⟨i - off, by omega⟩
        rw [hin k (by omega), hbytes k (by omega)]
    rw [hload]
    cases img
    cases img'
    cases heq
    rfl
  · intro dst place hdst
    obtain ⟨dst', hload, -, hin, -⟩ :=
      load_from_registers_ok (by rw [hlen]; exact hdst : place + regs.length * 2 ≤ dst.size)
    refine ⟨dst', hload, fun i hi => ?_⟩
    rw [hin i (by omega), hbytes i hi]

end ProcessImage

/-! ## The formula of `MAPPING.md`

`register = base + byte_offset / 2`, and the byte is the high half of it when the offset
is even, the low half when it is odd. -/

/-- A 16-bit value at a byte offset, from the registers: at an odd offset it is the low
half of one register and the high half of the next. -/
def mapped_u16 (regs : List UInt16) (byte_offset : ℕ) : ℕ :=
  let register (k : ℕ) : ℕ := (regs.getD (byte_offset / 2 + k) 0).toNat
  if byte_offset % 2 = 0 then register 0 else register 0 % 256 * 256 + register 1 / 256

/-- A 32-bit value at a byte offset: two registers, or at an odd offset the inner one
and a half on either side. -/
def mapped_u32 (regs : List UInt16) (byte_offset : ℕ) : ℕ :=
  let register (k : ℕ) : ℕ := (regs.getD (byte_offset / 2 + k) 0).toNat
  if byte_offset % 2 = 0 then register 0 * 2 ^ 16 + register 1
  else register 0 % 256 * 2 ^ 24 + register 1 * 2 ^ 8 + register 2 / 256

namespace ProcessImage

theorem peek_eq_map {img : ProcessImage} {off n : ℕ} {f : ℕ → UInt8}
    (h : ∀ i, i < n → img.buf_[off + i]? = some (f i)) (hin : off + n ≤ img.size) :
    img.peek off n = .ok ((List.range n).map f) := by
  unfold peek
  rw [if_pos hin]
  congr 1
  apply List.ext_getElem?
  intro k
  by_cases hk : k < n
  · rw [List.getElem?_take_of_lt hk, List.getElem?_drop, h k hk, List.getElem?_map,
      List.getElem?_range hk, Option.map_some]
  · rw [List.getElem?_eq_none (by rw [List.length_take]; omega),
      List.getElem?_eq_none (by rw [List.length_map, List.length_range]; omega)]

/-- A big-endian read of an image that holds the bytes `f`. -/
theorem get_be_eq {img : ProcessImage} {off : UInt64} {n : ℕ} {f : ℕ → UInt8}
    (h : ∀ i, i < n → img.buf_[off.toNat + i]? = some (f i)) (hin : off.toNat + n ≤ img.size) :
    img.get_be off n .BigEndian = .ok (be_to_u64 ((List.range n).map f)) := by
  unfold get_be
  rw [check_eq_ok hin]
  simp only [bind, Except.bind, peek_eq_map h hin]
  rfl

/-- Byte `i` of the registers, as a number. -/
theorem toNat_byte (regs : List UInt16) (i : ℕ) :
    (if i % 2 = 0 then hi (regs.getD (i / 2) 0) else lo (regs.getD (i / 2) 0)).toNat =
      if i % 2 = 0 then (regs.getD (i / 2) 0).toNat / 256
      else (regs.getD (i / 2) 0).toNat % 256 := by
  by_cases hi : i % 2 = 0
  · rw [if_pos hi, if_pos hi, toNat_hi]
  · rw [if_neg hi, if_neg hi, toNat_lo]

/-- **Big-endian reads follow the formula**, at odd offsets too. -/
theorem get_of_registers {img : ProcessImage} {regs : List UInt16}
    (hsize : 2 * regs.length ≤ img.size)
    (hbytes : ∀ i, i < 2 * regs.length → img.buf_[i]? = byte_of regs i) (off : UInt64) :
    (off.toNat + 2 ≤ 2 * regs.length →
      img.get_u16 off .BigEndian = .ok (mapped_u16 regs off.toNat)) ∧
    (off.toNat + 4 ≤ 2 * regs.length →
      img.get_u32 off .BigEndian = .ok (mapped_u32 regs off.toNat)) := by
  have hread : ∀ n, off.toNat + n ≤ 2 * regs.length → ∀ i, i < n →
      img.buf_[off.toNat + i]? = some (if (off.toNat + i) % 2 = 0
        then hi (regs.getD ((off.toNat + i) / 2) 0) else lo (regs.getD ((off.toNat + i) / 2) 0)) := by
    intro n hn i hi
    rw [hbytes _ (by omega), byte_of_eq_some (by omega)]
  constructor
  · intro hin
    rw [get_u16, get_be_eq (hread 2 hin) (by omega)]
    congr 1
    simp only [be_to_u64, List.range_succ, List.range_zero, List.nil_append, List.cons_append,
      List.map_cons, List.map_nil, List.foldl_cons, List.foldl_nil, toNat_byte, mapped_u16]
    -- at an odd offset the second byte is the high half of the next register
    by_cases heven : off.toNat % 2 = 0
    · have h1 : ¬ (off.toNat + 1) % 2 = 0 := by omega
      have hd : (off.toNat + 1) / 2 = off.toNat / 2 := by omega
      simp only [Nat.add_zero, if_pos heven, if_neg h1, hd]
      omega
    · have h1 : (off.toNat + 1) % 2 = 0 := by omega
      have hd : (off.toNat + 1) / 2 = off.toNat / 2 + 1 := by omega
      simp only [Nat.add_zero, if_neg heven, if_pos h1, hd]
      omega
  · intro hin
    rw [get_u32, get_be_eq (hread 4 hin) (by omega)]
    congr 1
    simp only [be_to_u64, List.range_succ, List.range_zero, List.nil_append, List.cons_append,
      List.map_cons, List.map_nil, List.foldl_cons, List.foldl_nil, toNat_byte, mapped_u32]
    -- at an odd offset the value is spread over three registers
    by_cases heven : off.toNat % 2 = 0
    · have h1 : ¬ (off.toNat + 1) % 2 = 0 := by omega
      have h2 : (off.toNat + 2) % 2 = 0 := by omega
      have h3 : ¬ (off.toNat + 3) % 2 = 0 := by omega
      have hd1 : (off.toNat + 1) / 2 = off.toNat / 2 := by omega
      have hd2 : (off.toNat + 2) / 2 = off.toNat / 2 + 1 := by omega
      have hd3 : (off.toNat + 3) / 2 = off.toNat / 2 + 1 := by omega
      simp only [Nat.add_zero, if_pos heven, if_neg h1, if_pos h2, if_neg h3, hd1, hd2, hd3]
      omega
    · have h1 : (off.toNat + 1) % 2 = 0 := by omega
      have h2 : ¬ (off.toNat + 2) % 2 = 0 := by omega
      have h3 : (off.toNat + 3) % 2 = 0 := by omega
      have hd1 : (off.toNat + 1) / 2 = off.toNat / 2 + 1 := by omega
      have hd2 : (off.toNat + 2) / 2 = off.toNat / 2 + 1 := by omega
      have hd3 : (off.toNat + 3) / 2 = off.toNat / 2 + 2 := by omega
      simp only [Nat.add_zero, if_neg heven, if_pos h1, if_neg h2, if_pos h3, hd1, hd2, hd3]
      omega

end ProcessImage

/-! ## The live list -/

/-- The byte of the status area that holds a PROFIBUS address's live bit, and the bit in
it. The address is cast to `size_t` before it is divided. -/
def live_byte (profibus_address : ℤ) : ℕ := 2 + (profibus_address % 2 ^ 64).toNat / 8
def live_bit (profibus_address : ℤ) : UInt8 := UInt8.ofNat (profibus_address % 8).toNat

theorem toNat_live_byte (a : ℤ) : (UInt64.ofNat (live_byte a)).toNat = live_byte a := by
  have hlt : (a % 2 ^ 64).toNat < 2 ^ 64 := by omega
  rw [UInt64.toNat_ofNat']
  apply Nat.mod_eq_of_lt
  unfold live_byte
  omega

theorem toNat_live_bit (a : ℤ) : (live_bit a).toNat = (a % 8).toNat := by
  have hlt : (a % 8).toNat < 8 := by omega
  rw [live_bit, UInt8.toNat_ofNat']
  exact Nat.mod_eq_of_lt (by omega)

theorem live_bit_le (a : ℤ) : live_bit a ≤ 7 := by
  apply UInt8.le_iff_toNat_le.mpr
  rw [toNat_live_bit]
  exact Nat.le_of_lt_succ (by omega : (a % 8).toNat < 8)

/-- What the snapshot says in Operate: the bit of the live byte, or false without it. -/
theorem live_list_eq {cfg : IndraDriveConfig} {st : List UInt16} {w : UInt16}
    (hfirst : st.head? = some w) (hoperate : w &&& 0x3 = 0x3) :
    live_list cfg st = ((byte_of st (live_byte cfg.profibus_address)).map fun b =>
      b.toNat.testBit (live_bit cfg.profibus_address).toNat).getD false := by
  have hcond : (st.isEmpty || (st.getD 0 0 &&& 0x3) != 0x3) = false := by
    cases st with
    | nil => cases hfirst
    | cons r st =>
        cases hfirst
        simpa using hoperate
  unfold live_list
  rw [hcond, toNat_live_bit]
  simp only [Bool.false_eq_true, if_false]
  rw [← live_byte]
  by_cases hreg : live_byte cfg.profibus_address / 2 ≥ st.length
  · rw [if_pos hreg, byte_of, List.getElem?_eq_none hreg]
    rfl
  · rw [if_neg hreg, byte_of_eq_some (by omega), Option.map_some, Option.getD_some,
      Nat.testBit_eq_decide_div_mod_eq, Nat.shiftRight_eq_div_pow]
    rfl

/-- **`slave_live` of an online driver in Operate** is the live bit of the image of the
status snapshot. -/
theorem slave_live_eq (cfg : IndraDriveConfig) {answer : (o : Op) → Resp o} {w : UInt16}
    (honline : answer .load_online = true)
    (hfirst : (answer .status_snapshot : List UInt16).head? = some w)
    (hoperate : w &&& 0x3 = 0x3) :
    (IndraDrive.slave_live cfg).answered answer =
      ((byte_of (answer .status_snapshot) (live_byte cfg.profibus_address)).map fun b =>
        b.toNat.testBit (live_bit cfg.profibus_address).toNat).getD false := by
  rw [← live_list_eq hfirst hoperate]
  unfold IndraDrive.slave_live
  rw [Atomic.Prog.answered_bind, show (act .load_online).answered answer = true from honline]
  rfl

/-- `get_bit` on an image that holds the registers. -/
theorem get_bit_of_registers {img : ProcessImage} {regs : List UInt16} {a : ℤ}
    (hsize : 2 * regs.length ≤ img.size)
    (hbytes : ∀ i, i < 2 * regs.length → img.buf_[i]? = byte_of regs i)
    (hin : live_byte a < 2 * regs.length) :
    img.get_bit (UInt64.ofNat (live_byte a)) (live_bit a) =
      .ok (((byte_of regs (live_byte a)).map fun b => b.toNat.testBit (live_bit a).toNat).getD
        false) := by
  have hcheck : img.check (UInt64.ofNat (live_byte a)) (UInt64.ofNat 1) = .ok () :=
    ProcessImage.check_eq_ok (by rw [toNat_live_byte]; omega)
  rw [ProcessImage.get_bit_eq (live_bit_le a), show (1 : UInt64) = UInt64.ofNat 1 from rfl, hcheck,
    toNat_live_byte, ProcessImage.bits, hbytes _ hin, byte_of_eq_some hin]
  rfl

/-- **The register and the byte view agree.** -/
theorem register_byte_views :
    -- bytes and big-endian values after a load at offset 0
    (∀ (regs : List UInt16) (img : ProcessImage), regs.length * 2 ≤ img.size →
      ∃ img', img.load_from_registers regs 0 = .ok img' ∧
        (∀ k, k < 2 * regs.length →
          img'.buf_[k]? = some (if k % 2 = 0 then hi (regs.getD (k / 2) 0)
            else lo (regs.getD (k / 2) 0))) ∧
        ∀ off : UInt64,
          (off.toNat + 2 ≤ 2 * regs.length →
            img'.get_u16 off .BigEndian = .ok (mapped_u16 regs off.toNat)) ∧
          (off.toNat + 4 ≤ 2 * regs.length →
            img'.get_u32 off .BigEndian = .ok (mapped_u32 regs off.toNat))) ∧
    -- store after load, and load after store, at every stretch
    (∀ (regs : List UInt16) (img : ProcessImage) (off : ℕ), off + regs.length * 2 ≤ img.size →
      ∃ img', img.load_from_registers regs off = .ok img' ∧
        img'.store_to_registers regs.length off = .ok regs ∧
        ∀ k count, k + count ≤ regs.length →
          img'.store_to_registers count (off + 2 * k) = .ok ((regs.drop k).take count)) ∧
    (∀ (img : ProcessImage) (count off : ℕ), off + count * 2 ≤ img.size →
      ∃ regs, img.store_to_registers count off = .ok regs ∧
        img.load_from_registers regs off = .ok img ∧
        ∀ (dst : ProcessImage) (place : ℕ), place + count * 2 ≤ dst.size →
          ∃ dst', dst.load_from_registers regs place = .ok dst' ∧
            ∀ i, i < 2 * count → dst'.buf_[place + i]? = img.buf_[off + i]?) ∧
    -- the live list
    (∀ (cfg : IndraDriveConfig) (answer : (o : Op) → Resp o) (st : List UInt16) (w : UInt16),
      answer .load_online = true → answer .status_snapshot = st → st.head? = some w →
      w &&& 0x3 = 0x3 →
        (live_byte cfg.profibus_address < 2 * st.length →
          ∃ img, (ProcessImage.resize (2 * st.length)).load_from_registers st 0 = .ok img ∧
            img.get_bit (UInt64.ofNat (live_byte cfg.profibus_address))
              (live_bit cfg.profibus_address) =
                .ok ((IndraDrive.slave_live cfg).answered answer)) ∧
        (2 * st.length ≤ live_byte cfg.profibus_address →
          (IndraDrive.slave_live cfg).answered answer = false)) := by
  refine ⟨?_, ?_, fun img count off h => ProcessImage.load_after_store h, ?_⟩
  · intro regs img h
    obtain ⟨img', hload, hsize, hin, -⟩ := ProcessImage.load_from_registers_ok
      (by omega : 0 + regs.length * 2 ≤ img.size)
    simp only [Nat.zero_add] at hin
    refine ⟨img', hload, ?_, ProcessImage.get_of_registers (by omega) hin⟩
    intro k hk
    rw [hin k hk, byte_of_eq_some hk]
  · intro regs img off h
    obtain ⟨img', hload, hstore⟩ := ProcessImage.store_after_load h
    refine ⟨img', hload, ?_, hstore⟩
    have hall := hstore 0 regs.length (by omega)
    rwa [Nat.mul_zero, Nat.add_zero, List.drop_zero, List.take_length] at hall
  · rintro cfg answer st w honline rfl hfirst hoperate
    have hlive := slave_live_eq cfg honline hfirst hoperate
    refine ⟨fun hin => ?_, fun hout => ?_⟩
    · have hsize : (ProcessImage.resize (2 * (answer .status_snapshot : List UInt16).length)).size =
          2 * (answer .status_snapshot : List UInt16).length := List.length_replicate
      obtain ⟨img, hload, himg, hbytes, -⟩ := ProcessImage.load_from_registers_ok
        (by omega : 0 + (answer .status_snapshot : List UInt16).length * 2 ≤
          (ProcessImage.resize (2 * (answer .status_snapshot : List UInt16).length)).size)
      simp only [Nat.zero_add] at hbytes
      refine ⟨img, hload, ?_⟩
      rw [get_bit_of_registers (by omega) hbytes hin, hlive]
    · rw [hlive, byte_of, List.getElem?_eq_none (by omega)]
      rfl

/-- A word across two registers. -/
theorem register_byte_views_odd_word :
    ∃ img, (ProcessImage.resize 4).load_from_registers [0x1122, 0x3344] 0 = .ok img ∧
      img.get_u16 1 .BigEndian = .ok 0x2233 := by
  obtain ⟨img, hload, -, hget⟩ :=
    register_byte_views.1 [0x1122, 0x3344] (ProcessImage.resize 4) (by decide)
  exact ⟨img, hload, (hget 1).1 (by decide)⟩

end Mgate
