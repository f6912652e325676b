/-
`process_image.cpp`: the byte-addressed view of the gateway's PROFIBUS buffers.

PROFIBUS modules are allocated in bytes, back to back, so a 16-bit value may
straddle two Modbus registers. The driver therefore flattens registers into a
byte buffer, high byte first, and addresses tags by byte offset; this file
embeds that buffer, its typed accessors and the two register conversions.

Offsets and lengths of a tag are 64-bit (`size_t`), and `check` adds them in
64 bits exactly as the source does: a sum that wraps passes the check and the
access behind it lands outside the vector. Such an access has no meaning in
C++; here it is the error `Exn.undefined`, next to the two exceptions the
source throws.

Engineering values are rationals. Floats only ever travel through the image
as bit patterns, so what the casts compute is left to a `FloatCast`.
-/
import Wavemakers.Splice
import Mathlib.Data.Rat.Floor

set_option autoImplicit false

namespace Mgate

open Splice

/-! ## Exceptions -/

/-- How a call can end without a result: the two exceptions the driver throws,
with their texts, and an access outside a buffer. -/
inductive Exn where
  | out_of_range (what : String)
  | invalid_argument (what : String)
  | undefined
  deriving DecidableEq, Repr

/-! ## Tags -/

inductive ByteOrder where
  /-- ABCD -/
  | BigEndian
  /-- DCBA -/
  | LittleEndian
  /-- CDAB: register order reversed, bytes within kept -/
  | BigEndianSwap
  /-- BADC: register order kept, bytes within swapped -/
  | LittleEndianSwap
  deriving DecidableEq, Repr

inductive Area where
  | Input
  | Output
  deriving DecidableEq, Repr

inductive DataType where
  | Bit | U8 | I8 | U16 | I16 | U32 | I32 | F32 | F64 | Raw
  deriving DecidableEq, Repr

/-- Size in bytes a tag occupies in the process image. -/
def type_size (t : DataType) (raw_len : UInt64) : UInt64 :=
  match t with
  | .Bit | .U8 | .I8 => 1
  | .U16 | .I16 => 2
  | .U32 | .I32 | .F32 => 4
  | .F64 => 8
  | .Raw => raw_len

structure Tag where
  name : String
  area : Area := .Input
  type : DataType := .U16
  byte_offset : UInt64 := 0
  bit : UInt8 := 0
  raw_len : UInt64 := 0
  order : ByteOrder := .BigEndian
  scale : ℚ := 1
  bias : ℚ := 0

def Tag.size_bytes (t : Tag) : UInt64 := type_size t.type t.raw_len

/-- First byte of a tag and the first byte behind it, without wrapping. -/
def Tag.lo (t : Tag) : ℕ := t.byte_offset.toNat
def Tag.hi (t : Tag) : ℕ := t.byte_offset.toNat + t.size_bytes.toNat

/-! ## Byte order -/

/-- Converts between wire order and normalised big-endian order. -/
def reorder (src : List UInt8) (o : ByteOrder) : List UInt8 :=
  let n := src.length
  let nreg := n / 2
  match o with
  | .BigEndian => src
  | .LittleEndian => (List.range n).map fun i => src.getD (n - 1 - i) 0
  | .BigEndianSwap =>
      (List.range n).map fun i => src.getD (2 * (nreg - 1 - i / 2) + i % 2) 0
  | .LittleEndianSwap =>
      (List.range n).map fun i => src.getD (2 * (i / 2) + (1 - i % 2)) 0

/-- At most eight bytes are ever folded, so the 64-bit shift never loses one. -/
def be_to_u64 (p : List UInt8) : ℕ := p.foldl (fun v b => v * 256 + b.toNat) 0

def u64_to_be (v : ℕ) (n : ℕ) : List UInt8 :=
  (List.range n).map fun j => UInt8.ofNat (v / 256 ^ (n - 1 - j))

@[simp] theorem length_reorder (src : List UInt8) (o : ByteOrder) :
    (reorder src o).length = src.length := by
  cases o <;> simp [reorder]

@[simp] theorem length_u64_to_be (v n : ℕ) : (u64_to_be v n).length = n := by
  simp [u64_to_be]

/-! ## Registers and bytes -/

/-- `hi(v)` and `lo(v)`: the two bytes of a register. -/
def hi (v : UInt16) : UInt8 := (v >>> 8).toUInt8
def lo (v : UInt16) : UInt8 := (v &&& 0xFF).toUInt8

/-- `(h << 8) | l` -/
def word (h l : UInt8) : UInt16 := (h.toUInt16 <<< 8) ||| l.toUInt16

theorem toNat_word (h l : UInt8) : (word h l).toNat = h.toNat * 256 + l.toNat := by
  have hh := h.toNat_lt
  have hl := l.toNat_lt
  simp only [word, UInt16.toNat_or, UInt16.toNat_shiftLeft, UInt8.toNat_toUInt16]
  rw [Nat.shiftLeft_eq, Nat.mod_eq_of_lt (by simp; omega)]
  have h8 : h.toNat * 2 ^ ((8 : UInt16).toNat % 16) = 2 ^ 8 * h.toNat := by
    simp [Nat.mul_comm]
  rw [h8, ← Nat.two_pow_add_eq_or_of_lt (by omega)]
  omega

theorem toNat_hi (v : UInt16) : (hi v).toNat = v.toNat / 256 := by
  have hv := v.toNat_lt
  simp only [hi, UInt16.toNat_toUInt8, UInt16.toNat_shiftRight]
  rw [Nat.shiftRight_eq_div_pow]
  have h8 : 2 ^ ((8 : UInt16).toNat % 16) = 256 := by simp
  rw [h8]
  omega

theorem toNat_lo (v : UInt16) : (lo v).toNat = v.toNat % 256 := by
  simp only [lo, UInt16.toNat_toUInt8, UInt16.toNat_and]
  have hff : (0xFF : UInt16).toNat = 2 ^ 8 - 1 := by simp
  rw [hff, Nat.and_two_pow_sub_one_eq_mod]
  omega

/-- A register is its two bytes. -/
@[simp] theorem word_hi_lo (v : UInt16) : word (hi v) (lo v) = v := by
  rw [← UInt16.toNat_inj, toNat_word, toNat_hi, toNat_lo]
  omega

@[simp] theorem hi_word (h l : UInt8) : hi (word h l) = h := by
  have hl := l.toNat_lt
  rw [← UInt8.toNat_inj, toNat_hi, toNat_word]
  omega

@[simp] theorem lo_word (h l : UInt8) : lo (word h l) = l := by
  have hl := l.toNat_lt
  rw [← UInt8.toNat_inj, toNat_lo, toNat_word]
  omega

/-! ## The image -/

structure ProcessImage where
  buf_ : List UInt8
  deriving DecidableEq, Repr

namespace ProcessImage

/-- `resize(n)`: `n` zero bytes. -/
def resize (n : ℕ) : ProcessImage := ⟨List.replicate n 0⟩

def size (img : ProcessImage) : ℕ := img.buf_.length

def empty (img : ProcessImage) : Bool := img.buf_.isEmpty

/-- `off + len > buf_.size()` in 64-bit arithmetic. -/
def check (img : ProcessImage) (off len : UInt64) : Except Exn Unit :=
  if img.size < (off + len).toNat then
    .error (.out_of_range ("mgate: process image access at byte " ++ toString off.toNat ++ " (+" ++
      toString len.toNat ++ ") exceeds area size " ++ toString img.size))
  else .ok ()

/-- `n` bytes read from `buf_.data() + off`. -/
def peek (img : ProcessImage) (off n : ℕ) : Except Exn (List UInt8) :=
  if off + n ≤ img.size then .ok ((img.buf_.drop off).take n) else .error .undefined

/-- `bs` copied to `buf_.data() + off`. -/
def poke (img : ProcessImage) (off : ℕ) (bs : List UInt8) : Except Exn ProcessImage :=
  if off + bs.length ≤ img.size then .ok ⟨splice img.buf_ off bs⟩ else .error .undefined

/-! ### Getters -/

/-- The shape shared by the multi-byte getters: check, reorder, fold. -/
def get_be (img : ProcessImage) (off : UInt64) (n : ℕ) (o : ByteOrder) : Except Exn ℕ := do
  img.check off (UInt64.ofNat n)
  let tmp ← img.peek off.toNat n
  return be_to_u64 (reorder tmp o)

def get_bit (img : ProcessImage) (off : UInt64) (bit : UInt8) : Except Exn Bool := do
  img.check off 1
  if bit > 7 then .error (.out_of_range "mgate: bit index must be 0..7")
  else do
    let b ← img.peek off.toNat 1
    return ((b.headD 0 >>> bit) &&& 0x01) != 0

def get_u8 (img : ProcessImage) (off : UInt64) : Except Exn ℕ := img.get_be off 1 .BigEndian

def get_u16 (img : ProcessImage) (off : UInt64) (o : ByteOrder) : Except Exn ℕ :=
  img.get_be off 2 o

def get_u32 (img : ProcessImage) (off : UInt64) (o : ByteOrder) : Except Exn ℕ :=
  img.get_be off 4 o

/-- Bit pattern of the `float` at `off`. -/
def get_f32 (img : ProcessImage) (off : UInt64) (o : ByteOrder) : Except Exn UInt32 :=
  UInt32.ofNat <$> img.get_u32 off o

/-- Bit pattern of the `double` at `off`. -/
def get_f64 (img : ProcessImage) (off : UInt64) (o : ByteOrder) : Except Exn UInt64 :=
  UInt64.ofNat <$> img.get_be off 8 o

def get_raw (img : ProcessImage) (off len : UInt64) : Except Exn (List UInt8) := do
  img.check off len
  img.peek off.toNat len.toNat

/-! ### Setters -/

/-- The shape shared by the multi-byte setters. -/
def set_be (img : ProcessImage) (off : UInt64) (n v : ℕ) (o : ByteOrder) :
    Except Exn ProcessImage := do
  img.check off (UInt64.ofNat n)
  img.poke off.toNat (reorder (u64_to_be v n) o)

def set_bit (img : ProcessImage) (off : UInt64) (bit : UInt8) (v : Bool) :
    Except Exn ProcessImage := do
  img.check off 1
  if bit > 7 then .error (.out_of_range "mgate: bit index must be 0..7")
  else do
    let b ← img.peek off.toNat 1
    img.poke off.toNat [if v then b.headD 0 ||| (1 <<< bit) else b.headD 0 &&& ~~~(1 <<< bit)]

def set_u8 (img : ProcessImage) (off : UInt64) (v : ℕ) : Except Exn ProcessImage :=
  img.set_be off 1 v .BigEndian

def set_u16 (img : ProcessImage) (off : UInt64) (v : ℕ) (o : ByteOrder) :
    Except Exn ProcessImage := img.set_be off 2 v o

def set_u32 (img : ProcessImage) (off : UInt64) (v : ℕ) (o : ByteOrder) :
    Except Exn ProcessImage := img.set_be off 4 v o

def set_f32 (img : ProcessImage) (off : UInt64) (bits : UInt32) (o : ByteOrder) :
    Except Exn ProcessImage := img.set_u32 off bits.toNat o

def set_f64 (img : ProcessImage) (off : UInt64) (bits : UInt64) (o : ByteOrder) :
    Except Exn ProcessImage := img.set_be off 8 bits.toNat o

def set_raw (img : ProcessImage) (off : UInt64) (src : List UInt8) : Except Exn ProcessImage := do
  img.check off (UInt64.ofNat src.length)
  img.poke off.toNat src

end ProcessImage

/-! ## Tag access -/

/-- The conversions between numbers and IEEE bit patterns. -/
structure FloatCast where
  float_bits : ℚ → UInt32
  double_bits : ℚ → UInt64
  float_val : UInt32 → ℚ
  double_val : UInt64 → ℚ

/-- Enough for areas without floating-point tags. -/
def no_floats : FloatCast := ⟨fun _ => 0, fun _ => 0, fun _ => 0, fun _ => 0⟩

/-- `static_cast<std::int64_t>` of a floating value: towards zero. -/
def trunc (q : ℚ) : ℤ := if 0 ≤ q then q.floor else -(-q).floor

/-- `std::llround`: to nearest, ties away from zero. -/
def llround (q : ℚ) : ℤ := if 0 ≤ q then (q + 1 / 2).floor else -(-q + 1 / 2).floor

/-- The unsigned `w`-bit value an integer is cast to. -/
def to_unsigned (w : ℕ) (raw : ℤ) : ℕ := (raw % 2 ^ w).toNat

/-- The signed `w`-bit value with the same bit pattern. -/
def to_signed (w : ℕ) (u : ℕ) : ℤ := if u < 2 ^ (w - 1) then u else (u : ℤ) - 2 ^ w

namespace ProcessImage

def get_int (F : FloatCast) (img : ProcessImage) (t : Tag) : Except Exn ℤ :=
  match t.type with
  | .Bit => (fun b => if b then 1 else 0) <$> img.get_bit t.byte_offset t.bit
  | .U8 => (fun u => (u : ℤ)) <$> img.get_u8 t.byte_offset
  | .I8 => to_signed 8 <$> img.get_u8 t.byte_offset
  | .U16 => (fun u => (u : ℤ)) <$> img.get_u16 t.byte_offset t.order
  | .I16 => to_signed 16 <$> img.get_u16 t.byte_offset t.order
  | .U32 => (fun u => (u : ℤ)) <$> img.get_u32 t.byte_offset t.order
  | .I32 => to_signed 32 <$> img.get_u32 t.byte_offset t.order
  | .F32 => (fun b => trunc (F.float_val b)) <$> img.get_f32 t.byte_offset t.order
  | .F64 => (fun b => trunc (F.double_val b)) <$> img.get_f64 t.byte_offset t.order
  | .Raw => .error (.invalid_argument
      ("mgate: tag '" ++ t.name ++ "' has no integer representation"))

def get_scaled (F : FloatCast) (img : ProcessImage) (t : Tag) : Except Exn ℚ := do
  let raw ← match t.type with
    | .F32 => F.float_val <$> img.get_f32 t.byte_offset t.order
    | .F64 => F.double_val <$> img.get_f64 t.byte_offset t.order
    | _ => (fun i => (i : ℚ)) <$> img.get_int F t
  return raw * t.scale + t.bias

def get_bool (F : FloatCast) (img : ProcessImage) (t : Tag) : Except Exn Bool :=
  if t.type = .Bit then img.get_bit t.byte_offset t.bit else (fun i => i != 0) <$> img.get_int F t

def set_int (F : FloatCast) (img : ProcessImage) (t : Tag) (raw : ℤ) :
    Except Exn ProcessImage :=
  match t.type with
  | .Bit => img.set_bit t.byte_offset t.bit (raw != 0)
  | .U8 => img.set_u8 t.byte_offset (to_unsigned 8 raw)
  | .I8 => img.set_u8 t.byte_offset (to_unsigned 8 raw)
  | .U16 => img.set_u16 t.byte_offset (to_unsigned 16 raw) t.order
  | .I16 => img.set_u16 t.byte_offset (to_unsigned 16 raw) t.order
  | .U32 => img.set_u32 t.byte_offset (to_unsigned 32 raw) t.order
  | .I32 => img.set_u32 t.byte_offset (to_unsigned 32 raw) t.order
  | .F32 => img.set_f32 t.byte_offset (F.float_bits raw) t.order
  | .F64 => img.set_f64 t.byte_offset (F.double_bits raw) t.order
  | .Raw => .error (.invalid_argument
      ("mgate: tag '" ++ t.name ++ "' has no integer representation"))

def set_scaled (F : FloatCast) (img : ProcessImage) (t : Tag) (engineering_value : ℚ) :
    Except Exn ProcessImage :=
  let raw : ℚ := if t.scale ≠ 0 then (engineering_value - t.bias) / t.scale else 0
  match t.type with
  | .F32 => img.set_f32 t.byte_offset (F.float_bits raw) t.order
  | .F64 => img.set_f64 t.byte_offset (F.double_bits raw) t.order
  | _ => img.set_int F t (llround raw)

def set_bool (F : FloatCast) (img : ProcessImage) (t : Tag) (v : Bool) :
    Except Exn ProcessImage :=
  if t.type = .Bit then img.set_bit t.byte_offset t.bit v
  else img.set_int F t (if v then 1 else 0)

/-! ### Register conversion -/

def load_from_registers (img : ProcessImage) (regs : List UInt16) (byte_offset : ℕ) :
    Except Exn ProcessImage := do
  img.check (UInt64.ofNat byte_offset) (UInt64.ofNat (regs.length * 2))
  img.poke byte_offset (regs.flatMap fun r => [hi r, lo r])

def store_to_registers (img : ProcessImage) (count byte_offset : ℕ) :
    Except Exn (List UInt16) := do
  img.check (UInt64.ofNat byte_offset) (UInt64.ofNat (count * 2))
  let bytes ← img.peek byte_offset (count * 2)
  return (List.range count).map fun i => word (bytes.getD (2 * i) 0) (bytes.getD (2 * i + 1) 0)

/-! ## What a setter touches

Every setter of the image goes through `poke`, so every one of them has the
same footprint statement: the size is kept, the tag's bytes lie inside, and
nothing outside them changes. -/

/-- `img'` differs from `img` at most on the bytes `[lo, hi)`, which lie inside. -/
structure Frame (img img' : ProcessImage) (lo hi : ℕ) : Prop where
  size_eq : img'.size = img.size
  inside : hi ≤ img.size
  outside : ∀ i, i < lo ∨ hi ≤ i → img'.buf_[i]? = img.buf_[i]?

theorem bind_eq_ok {α β : Type} {x : Except Exn α} {f : α → Except Exn β} {b : β} :
    (x >>= f) = .ok b ↔ ∃ a, x = .ok a ∧ f a = .ok b := by
  cases x with
  | error e => simp [bind, Except.bind]
  | ok a => simp [bind, Except.bind]

theorem toOption_eq_some {α : Type} {x : Except Exn α} {a : α} (h : x.toOption = some a) :
    x = .ok a := by
  cases x with
  | error e => cases h
  | ok b =>
      cases h
      rfl

theorem poke_eq_ok {img img' : ProcessImage} {off : ℕ} {bs : List UInt8} :
    img.poke off bs = .ok img' ↔ off + bs.length ≤ img.size ∧ img' = ⟨splice img.buf_ off bs⟩ := by
  unfold poke
  split
  · rename_i h
    constructor
    · intro heq
      cases heq
      exact ⟨h, rfl⟩
    · rintro ⟨-, rfl⟩
      rfl
  · rename_i h
    constructor
    · intro heq
      cases heq
    · rintro ⟨h', -⟩
      exact absurd h' h

theorem poke_frame {img img' : ProcessImage} {off : ℕ} {bs : List UInt8}
    (h : img.poke off bs = .ok img') : Frame img img' off (off + bs.length) := by
  obtain ⟨hin, rfl⟩ := poke_eq_ok.mp h
  exact ⟨length_splice hin, hin, fun i hi => getElem?_splice_out hin hi⟩

theorem set_be_frame {img img' : ProcessImage} {off : UInt64} {n v : ℕ} {o : ByteOrder}
    (h : img.set_be off n v o = .ok img') : Frame img img' off.toNat (off.toNat + n) := by
  obtain ⟨-, -, h⟩ := bind_eq_ok.mp h
  have hf := poke_frame h
  rwa [length_reorder, length_u64_to_be] at hf

theorem set_bit_frame {img img' : ProcessImage} {off : UInt64} {bit : UInt8} {v : Bool}
    (h : img.set_bit off bit v = .ok img') : Frame img img' off.toNat (off.toNat + 1) := by
  obtain ⟨-, -, h⟩ := bind_eq_ok.mp h
  split at h
  · cases h
  · obtain ⟨b, -, h⟩ := bind_eq_ok.mp h
    exact poke_frame h

theorem set_raw_frame {img img' : ProcessImage} {off : UInt64} {src : List UInt8}
    (h : img.set_raw off src = .ok img') : Frame img img' off.toNat (off.toNat + src.length) := by
  obtain ⟨-, -, h⟩ := bind_eq_ok.mp h
  exact poke_frame h

/-- **`set_int`** writes inside the tag's bytes and nowhere else. -/
theorem set_int_frame {F : FloatCast} {img img' : ProcessImage} {t : Tag} {raw : ℤ}
    (h : img.set_int F t raw = .ok img') : Frame img img' t.lo t.hi := by
  unfold set_int at h
  unfold Tag.lo Tag.hi Tag.size_bytes
  cases htype : t.type <;> simp only [htype] at h
  case Bit => exact set_bit_frame h
  case Raw => cases h
  all_goals exact set_be_frame h

/-- **`set_scaled`** has the same footprint. -/
theorem set_scaled_frame {F : FloatCast} {img img' : ProcessImage} {t : Tag} {x : ℚ}
    (h : img.set_scaled F t x = .ok img') : Frame img img' t.lo t.hi := by
  unfold set_scaled at h
  cases htype : t.type <;> simp only [htype] at h
  case F32 =>
    unfold Tag.lo Tag.hi Tag.size_bytes
    rw [htype]
    exact set_be_frame h
  case F64 =>
    unfold Tag.lo Tag.hi Tag.size_bytes
    rw [htype]
    exact set_be_frame h
  all_goals exact set_int_frame h

/-- **`set_bool`** has the same footprint. -/
theorem set_bool_frame {F : FloatCast} {img img' : ProcessImage} {t : Tag} {v : Bool}
    (h : img.set_bool F t v = .ok img') : Frame img img' t.lo t.hi := by
  unfold set_bool at h
  split at h
  · rename_i htype
    unfold Tag.lo Tag.hi Tag.size_bytes
    rw [htype]
    exact set_bit_frame h
  · exact set_int_frame h

end ProcessImage

/-! ## Registers seen as bytes -/

/-- Byte `i` of a register list: high half of register `i / 2` when `i` is
even, low half when it is odd. -/
def byte_of (regs : List UInt16) (i : ℕ) : Option UInt8 :=
  regs[i / 2]?.map fun r => if i % 2 = 0 then hi r else lo r

theorem byte_of_even {regs : List UInt16} {k : ℕ} {v : UInt16} (h : regs[k]? = some v) :
    byte_of regs (2 * k) = some (hi v) := by
  have hk : 2 * k / 2 = k := by omega
  have hm : 2 * k % 2 = 0 := by omega
  simp only [byte_of, hk, hm, if_true, h, Option.map_some]

theorem byte_of_odd {regs : List UInt16} {k : ℕ} {v : UInt16} (h : regs[k]? = some v) :
    byte_of regs (2 * k + 1) = some (lo v) := by
  have hk : (2 * k + 1) / 2 = k := by omega
  have hm : ¬ (2 * k + 1) % 2 = 0 := by omega
  simp only [byte_of, hk, hm, if_false, h, Option.map_some]

/-- Two register lists agree at a register once they agree at its two bytes. -/
theorem getElem?_of_byte_of {regs regs' : List UInt16} {k : ℕ}
    (h0 : byte_of regs (2 * k) = byte_of regs' (2 * k))
    (h1 : byte_of regs (2 * k + 1) = byte_of regs' (2 * k + 1)) : regs[k]? = regs'[k]? := by
  have hk0 : 2 * k / 2 = k := by omega
  have hk1 : (2 * k + 1) / 2 = k := by omega
  have hm0 : 2 * k % 2 = 0 := by omega
  have hm1 : ¬ (2 * k + 1) % 2 = 0 := by omega
  simp only [byte_of, hk0, hm0, if_true] at h0
  simp only [byte_of, hk1, hm1, if_false] at h1
  cases hr : regs[k]? with
  | none =>
      rw [hr] at h0
      cases hr' : regs'[k]? with
      | none => rfl
      | some r' => rw [hr'] at h0; simp at h0
  | some r =>
      rw [hr] at h0 h1
      cases hr' : regs'[k]? with
      | none => rw [hr'] at h0; simp at h0
      | some r' =>
          rw [hr'] at h0 h1
          simp only [Option.map_some, Option.some.injEq] at h0 h1
          rw [← word_hi_lo r, ← word_hi_lo r', h0, h1]

/-- Registers overwritten by others, byte by byte: inside. -/
theorem byte_of_splice_mid {regs bs : List UInt16} {off i : ℕ} (h : off + bs.length ≤ regs.length)
    (hlo : 2 * off ≤ i) (hhi : i < 2 * (off + bs.length)) :
    byte_of (splice regs off bs) i = byte_of bs (i - 2 * off) := by
  have hdiv : (i - 2 * off) / 2 = i / 2 - off := by omega
  have hmod : (i - 2 * off) % 2 = i % 2 := by omega
  unfold byte_of
  rw [getElem?_splice_mid (by omega) (by omega) (by omega), hdiv, hmod]

/-- Registers overwritten by others, byte by byte: outside. -/
theorem byte_of_splice_out {regs bs : List UInt16} {off i : ℕ} (h : off + bs.length ≤ regs.length)
    (hi : i < 2 * off ∨ 2 * (off + bs.length) ≤ i) :
    byte_of (splice regs off bs) i = byte_of regs i := by
  unfold byte_of
  rw [getElem?_splice_out h (by omega)]

/-- A stretch of registers, byte by byte. -/
theorem byte_of_take_drop {regs : List UInt16} {k n i : ℕ} (hi : i < 2 * n) :
    byte_of ((regs.drop k).take n) i = byte_of regs (i + 2 * k) := by
  have hdiv : (i + 2 * k) / 2 = k + i / 2 := by omega
  have hmod : (i + 2 * k) % 2 = i % 2 := by omega
  unfold byte_of
  rw [List.getElem?_take_of_lt (by omega), List.getElem?_drop, hdiv, hmod]

theorem length_flatMap_bytes (regs : List UInt16) :
    (regs.flatMap fun r => [hi r, lo r]).length = 2 * regs.length := by
  induction regs with
  | nil => rfl
  | cons r regs ih =>
      rw [List.flatMap_cons, List.length_append, ih]
      simp only [List.length_cons, List.length_nil]
      omega

/-- The flattened registers, byte by byte. -/
theorem getElem?_flatMap_bytes (regs : List UInt16) (i : ℕ) :
    (regs.flatMap fun r => [hi r, lo r])[i]? = byte_of regs i := by
  induction regs generalizing i with
  | nil => simp [byte_of]
  | cons r regs ih =>
      -- the first two bytes are the head register's, the rest is the tail's
      rcases i with _ | _ | i
      · simp [byte_of]
      · simp [byte_of]
      · have h2 : (i + 1 + 1) / 2 = i / 2 + 1 := by omega
        have hm : (i + 1 + 1) % 2 = i % 2 := by omega
        rw [List.flatMap_cons]
        simp only [List.cons_append, List.nil_append, List.getElem?_cons_succ]
        rw [ih i]
        simp only [byte_of, h2, hm, List.getElem?_cons_succ]

namespace ProcessImage

/-- `check` passes when the access lies inside an image of addressable size. -/
theorem check_ofNat_eq_ok {img : ProcessImage} {off len : ℕ} (h : off + len ≤ img.size) :
    img.check (UInt64.ofNat off) (UInt64.ofNat len) = .ok () := by
  have hle : (UInt64.ofNat off + UInt64.ofNat len).toNat ≤ off + len := by
    rw [UInt64.toNat_add, UInt64.toNat_ofNat', UInt64.toNat_ofNat']
    calc (off % 2 ^ 64 + len % 2 ^ 64) % 2 ^ 64
        ≤ off % 2 ^ 64 + len % 2 ^ 64 := Nat.mod_le _ _
      _ ≤ off + len := Nat.add_le_add (Nat.mod_le _ _) (Nat.mod_le _ _)
  unfold check
  rw [if_neg (by omega)]

/-- **`store_to_registers`** succeeds inside the image, and its registers are
the image's bytes. -/
theorem store_to_registers_spec {img : ProcessImage} {count off : ℕ}
    (h : off + count * 2 ≤ img.size) :
    ∃ regs, img.store_to_registers count off = .ok regs ∧ regs.length = count ∧
      ∀ i, i < 2 * count → byte_of regs i = img.buf_[off + i]? := by
  refine ⟨(List.range count).map fun i =>
    word (((img.buf_.drop off).take (count * 2)).getD (2 * i) 0)
      (((img.buf_.drop off).take (count * 2)).getD (2 * i + 1) 0), ?_, by simp, ?_⟩
  · unfold store_to_registers
    rw [check_ofNat_eq_ok h]
    unfold peek
    rw [if_pos h]
    rfl
  · intro i hi
    have hbyte : ∀ k, k < count * 2 →
        ((img.buf_.drop off).take (count * 2)).getD k 0 = (img.buf_[off + k]?).getD 0 := by
      intro k hk
      rw [List.getD_eq_getElem?_getD, List.getElem?_take_of_lt hk, List.getElem?_drop]
    have hin : off + i < img.buf_.length := by
      unfold size at h
      omega
    unfold byte_of
    rw [List.getElem?_map, List.getElem?_range (by omega : i / 2 < count)]
    simp only [Option.map_some]
    by_cases hpar : i % 2 = 0
    · rw [if_pos hpar, hi_word, hbyte _ (by omega)]
      have : 2 * (i / 2) = i := by omega
      rw [this, List.getElem?_eq_getElem hin, Option.getD_some]
    · rw [if_neg hpar, lo_word, hbyte _ (by omega)]
      have : 2 * (i / 2) + 1 = i := by omega
      rw [this, List.getElem?_eq_getElem hin, Option.getD_some]

/-- **`load_from_registers`** at offset 0 of an image of exactly that size: the
image's bytes are the registers' bytes. -/
theorem load_from_registers_spec {img : ProcessImage} {regs : List UInt16}
    (h : regs.length * 2 = img.size) :
    ∃ img', img.load_from_registers regs 0 = .ok img' ∧ img'.size = img.size ∧
      ∀ i, img'.buf_[i]? = byte_of regs i := by
  have hlen := length_flatMap_bytes regs
  have hin : 0 + (regs.flatMap fun r => [hi r, lo r]).length ≤ img.size := by omega
  refine ⟨⟨splice img.buf_ 0 (regs.flatMap fun r => [hi r, lo r])⟩, ?_, length_splice hin, ?_⟩
  · unfold load_from_registers
    rw [check_ofNat_eq_ok (by omega : 0 + regs.length * 2 ≤ img.size)]
    exact poke_eq_ok.mpr ⟨hin, rfl⟩
  · intro i
    rw [← getElem?_flatMap_bytes]
    by_cases hi : i < (regs.flatMap fun r => [Mgate.hi r, lo r]).length
    · exact getElem?_splice_mid (by omega) (by omega) (by omega)
    · rw [getElem?_splice_ge hin (by omega), List.getElem?_eq_none (by unfold size at h; omega),
        List.getElem?_eq_none (by omega)]

end ProcessImage

end Mgate
