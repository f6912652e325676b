/-
The drive's command values in the output image.

`TargetPosition` and `PosVelocity` are big-endian 32-bit fields next to the
control word, scaled by 0.0001. This file says what a write leaves in them
(`encode`), what reading them back gives (`decode`), for which values the two
fit together (`abs_decode_encode_le_iff`: the integer is cut to 32 bits), and
that a position read from the inputs and written back is the same 32 bits. Then
which steps of the two threads touch which of the fields.
-/
import Wavemakers.DriveThreads
import Wavemakers.TagAccess

set_option autoImplicit false

namespace Mgate

/-! ## Values and fields -/

/-- The 32-bit field at byte `off`. -/
def raw32 (img : ProcessImage) (off : ℕ) : ℕ := be_to_u64 ((img.buf_.drop off).take 4)

/-- What `write` puts into a field of scale 0.0001. -/
def encode (v : ℚ) : ℕ := to_unsigned 32 (llround (v / (1 / 10000)))

/-- What `read` makes of it. -/
def decode (raw : ℕ) : ℚ := to_signed 32 raw * (1 / 10000)

theorem floor_eq (q : ℚ) : q.floor = ⌊q⌋ := rfl

/-- Below a bound that is not negative. -/
theorem llround_le_iff {q : ℚ} {m : ℤ} (hm : 0 ≤ m) : llround q ≤ m ↔ q < m + 1 / 2 := by
  have hm' : (0 : ℚ) ≤ m := by exact_mod_cast hm
  unfold llround
  rw [floor_eq, floor_eq]
  split
  · rename_i hq
    rw [Int.floor_le_iff]
    constructor
    · intro h
      linarith
    · intro h
      linarith
  · rename_i hq
    -- a negative value is rounded to one at most zero
    have hfloor : 0 ≤ ⌊-q + 1 / 2⌋ := Int.floor_nonneg.mpr (by linarith)
    constructor
    · intro _
      linarith
    · intro _
      omega

theorem llround_neg (q : ℚ) (hq : q ≠ 0) : llround (-q) = -llround q := by
  unfold llround
  rcases lt_or_gt_of_ne hq with h | h
  · rw [if_pos (by linarith), if_neg (not_le.mpr h), neg_neg]
  · rw [if_neg (by linarith), if_pos h.le, neg_neg]

/-- Above a bound that is not positive; a tie is rounded away from zero. -/
theorem le_llround_iff {q : ℚ} {m : ℤ} (hm : m ≤ 0) : m ≤ llround q ↔ m - 1 / 2 < q := by
  by_cases hq : q = 0
  · have hm' : (m : ℚ) ≤ 0 := by exact_mod_cast hm
    have hzero : llround 0 = 0 := by decide +kernel
    rw [hq, hzero]
    exact ⟨fun _ => by linarith, fun _ => hm⟩
  · have h := llround_le_iff (q := -q) (m := -m) (by omega)
    rw [llround_neg q hq] at h
    push_cast at h
    constructor
    · intro hle
      have := h.mp (by omega)
      linarith
    · intro hlt
      have := h.mpr (by linarith)
      omega

theorem abs_llround_sub_le (q : ℚ) : |(llround q : ℚ) - q| ≤ 1 / 2 := by
  have hfloor : ∀ x : ℚ, (⌊x + 1 / 2⌋ : ℚ) - x ≤ 1 / 2 ∧ -(1 / 2) ≤ (⌊x + 1 / 2⌋ : ℚ) - x := by
    intro x
    have h1 := Int.floor_le (x + 1 / 2)
    have h2 := Int.lt_floor_add_one (x + 1 / 2)
    constructor
    · linarith
    · linarith
  unfold llround
  rw [abs_le, floor_eq, floor_eq]
  split
  · exact ⟨(hfloor q).2, (hfloor q).1⟩
  · obtain ⟨h1, h2⟩ := hfloor (-q)
    push_cast
    constructor
    · linarith
    · linarith

theorem llround_intCast (n : ℤ) : llround (n : ℚ) = n := by
  have h := abs_le.mp (abs_llround_sub_le n)
  have h1 : (llround (n : ℚ) : ℚ) < (n + 1 : ℤ) := by
    push_cast
    linarith
  have h2 : ((n - 1 : ℤ) : ℚ) < llround (n : ℚ) := by
    push_cast
    linarith
  have h1' : llround (n : ℚ) < n + 1 := by exact_mod_cast h1
  have h2' : n - 1 < llround (n : ℚ) := by exact_mod_cast h2
  omega

/-! ## Encode and decode -/

theorem encode_lt (v : ℚ) : encode v < 2 ^ 32 := ProcessImage.to_unsigned_lt 32 _

/-- **A position read and written back is the same field.** -/
theorem encode_decode {raw : ℕ} (h : raw < 2 ^ 32) : encode (decode raw) = raw := by
  unfold encode decode
  rw [mul_div_assoc, div_self (by norm_num), mul_one, llround_intCast]
  unfold to_unsigned to_signed
  split
  · omega
  · omega

/-- What is decoded is the rounded value with the top bits cut off. -/
theorem decode_encode (v : ℚ) :
    decode (encode v) = (Int.bmod (llround (v * 10000)) (2 ^ 32) : ℤ) * (1 / 10000) := by
  have hdiv : v / (1 / 10000) = v * 10000 := by rw [div_div_eq_mul_div, div_one]
  unfold decode encode
  rw [hdiv, to_signed_to_unsigned 32 _ (by norm_num)]

/-- The values a 32-bit field of scale 0.0001 can hold, up to rounding. -/
def InRange (v : ℚ) : Prop := -(2147483648 + 1 / 2) < v * 10000 ∧ v * 10000 < 2147483647 + 1 / 2

instance (v : ℚ) : Decidable (InRange v) := inferInstanceAs (Decidable (_ ∧ _))

theorem inRange_iff (v : ℚ) : InRange v ↔
    -2147483648 ≤ llround (v * 10000) ∧ llround (v * 10000) ≤ 2147483647 := by
  unfold InRange
  rw [le_llround_iff (by norm_num), llround_le_iff (by norm_num)]
  push_cast
  constructor
  · rintro ⟨h1, h2⟩
    exact ⟨by linarith, h2⟩
  · rintro ⟨h1, h2⟩
    exact ⟨by linarith, h2⟩

/-- **When the staged value is the value.** Half a least significant unit is the error of
the rounding; a value out of range is off by the whole 32 bits. -/
theorem abs_decode_encode_le_iff (v : ℚ) : |decode (encode v) - v| ≤ 1 / 20000 ↔ InRange v := by
  have hround := abs_le.mp (abs_llround_sub_le (v * 10000))
  rw [inRange_iff, decode_encode, abs_le]
  generalize llround (v * 10000) = n at hround
  constructor
  · rintro ⟨h1, h2⟩
    have hnear : |((Int.bmod n (2 ^ 32) - n : ℤ) : ℚ)| < 2 := by
      push_cast
      rw [abs_lt]
      constructor
      · linarith
      · linarith
    have hnear' : |Int.bmod n (2 ^ 32) - n| < 2 := by exact_mod_cast hnear
    rw [abs_lt] at hnear'
    rw [Int.bmod_def] at hnear'
    omega
  · rintro ⟨h1, h2⟩
    have hmod : Int.bmod n (2 ^ 32) = n := by
      rw [Int.bmod_def]
      omega
    rw [hmod]
    constructor
    · linarith
    · linarith

/-! ## Reading and writing a field -/

theorem raw32_congr {img img' : ProcessImage} {off : ℕ}
    (h : ∀ i, off ≤ i → i < off + 4 → img'.buf_[i]? = img.buf_[i]?) :
    raw32 img' off = raw32 img off := by
  unfold raw32
  congr 1
  apply List.ext_getElem?
  intro k
  by_cases hk : k < 4
  · rw [List.getElem?_take_of_lt hk, List.getElem?_take_of_lt hk, List.getElem?_drop,
      List.getElem?_drop]
    exact h _ (by omega) (by omega)
  · rw [List.getElem?_eq_none (by rw [List.length_take]; omega),
      List.getElem?_eq_none (by rw [List.length_take]; omega)]

theorem raw32_lt (img : ProcessImage) (off : ℕ) : raw32 img off < 2 ^ 32 := by
  have hlen : ((img.buf_.drop off).take 4).length ≤ 4 := by
    rw [List.length_take]
    omega
  unfold raw32 be_to_u64
  generalize (img.buf_.drop off).take 4 = bytes at hlen
  match bytes, hlen with
  | [], _ => decide
  | [a], _ =>
      have ha := a.toNat_lt
      simp only [List.foldl_cons, List.foldl_nil]
      omega
  | [a, b], _ =>
      have ha := a.toNat_lt
      have hb := b.toNat_lt
      simp only [List.foldl_cons, List.foldl_nil]
      omega
  | [a, b, c], _ =>
      have ha := a.toNat_lt
      have hb := b.toNat_lt
      have hc := c.toNat_lt
      simp only [List.foldl_cons, List.foldl_nil]
      omega
  | [a, b, c, d], _ =>
      have ha := a.toNat_lt
      have hb := b.toNat_lt
      have hc := c.toNat_lt
      have hd := d.toNat_lt
      simp only [List.foldl_cons, List.foldl_nil]
      omega

/-- A 32-bit big-endian read. -/
theorem get_be_raw32 {img : ProcessImage} {off : UInt64} (h : off.toNat + 4 ≤ img.size) :
    img.get_be off 4 .BigEndian = .ok (raw32 img off.toNat) := by
  unfold ProcessImage.get_be
  rw [ProcessImage.check_eq_ok h]
  unfold ProcessImage.peek
  rw [if_pos h]
  rfl

/-- A scaled read of the drive's 32-bit tags. -/
theorem get_scaled_raw32 (F : FloatCast) {img : ProcessImage} {t : Tag} (htype : t.type = .I32)
    (horder : t.order = .BigEndian) (hscale : t.scale = 1 / 10000) (hbias : t.bias = 0)
    (h : t.byte_offset.toNat + 4 ≤ img.size) :
    img.get_scaled F t = .ok (decode (raw32 img t.byte_offset.toNat)) := by
  have hbe := get_be_raw32 h
  unfold ProcessImage.get_scaled ProcessImage.get_int
  rw [htype]
  simp only [ProcessImage.get_u32, horder, hbe, hscale, hbias, add_zero]
  rfl

/-- A scaled write of the drive's 32-bit tags. -/
theorem set_scaled_raw32 {F : FloatCast} {img img' : ProcessImage} {t : Tag}
    (htype : t.type = .I32) (horder : t.order = .BigEndian) (hscale : t.scale = 1 / 10000)
    (hbias : t.bias = 0) {v : ℚ} (h : img.set_scaled F t v = .ok img') :
    raw32 img' t.byte_offset.toNat = encode v := by
  have hset : img.set_be t.byte_offset 4 (encode v) .BigEndian = .ok img' := by
    unfold ProcessImage.set_scaled ProcessImage.set_int at h
    rw [htype] at h
    simp only [horder, hscale, hbias, sub_zero, ne_eq, one_div, inv_eq_zero,
      OfNat.ofNat_ne_zero, not_false_eq_true, if_true] at h
    unfold encode
    rw [one_div]
    exact h
  have hin := (ProcessImage.set_be_frame hset).inside
  obtain ⟨img'', hset', hget⟩ : ∃ img'', img.set_be t.byte_offset 4 (encode v) .BigEndian = .ok img'' ∧
      img''.get_be t.byte_offset 4 .BigEndian = .ok (encode v % 256 ^ 4) :=
    ProcessImage.get_be_set_be 4 (encode v) .BigEndian hin (.inl rfl)
  rw [hset] at hset'
  cases hset'
  have hsize := (ProcessImage.set_be_frame hset).size_eq
  have hlt := encode_lt v
  rw [get_be_raw32 (by omega), Nat.mod_eq_of_lt (by omega)] at hget
  exact Except.ok.inj hget

/-- The bytes of a command value. -/
def CommandValue.lo : CommandValue → ℕ
  | .TargetPosition => 2
  | .PosVelocity => 6
  | .Override => 10

def CommandValue.hi : CommandValue → ℕ
  | .TargetPosition => 6
  | .PosVelocity => 10
  | .Override => 12

end Mgate

namespace Mgate.Threads

open MGateDriver

/-! ## The fields -/

def target (img : ProcessImage) : ℕ := raw32 img 2

def velocity (img : ProcessImage) : ℕ := raw32 img 6

/-- `Position` in the input image. -/
def position (img : ProcessImage) : ℕ := raw32 img 2

/-! ## The steps of the two threads -/

section Write

variable {F : FloatCast} {s : State} {c : CommandValue} {v : ℚ} {d : MGateDriver}

theorem write_eq_stage (h : Wired s) (hw : s.drv.write F (s.tag c.tag) v = .ok d) :
    s.drv.stage (s.cfg.drive.entry c.tag)
      (fun img => img.set_scaled F (s.cfg.drive.entry c.tag) v) = .ok d := by
  have harea : (s.cfg.drive.entry c.tag).area = .Output := by
    cases c with
    | TargetPosition => rfl
    | PosVelocity => rfl
    | Override => rfl
  unfold MGateDriver.write at hw
  rwa [tag_checked_entry h c.tag harea] at hw

/-- A command value is written inside its own bytes. -/
theorem write_staged (h : Wired s) (hw : s.drv.write F (s.tag c.tag) v = .ok d) :
    Staged s.drv d c.lo c.hi := by
  have hs := stage_spec (fun _ _ => ProcessImage.set_scaled_frame) h.small (write_eq_stage h hw)
  cases c with
  | TargetPosition => exact hs
  | PosVelocity => exact hs
  | Override => exact hs

/-- And a 32-bit one is encoded there. -/
theorem write_value (h : Wired s) (hc : c ≠ .Override)
    (hw : s.drv.write F (s.tag c.tag) v = .ok d) : raw32 d.out_ c.lo = encode v := by
  obtain ⟨img, himg, hd⟩ := ProcessImage.bind_eq_ok.mp (write_eq_stage h hw)
  cases hd
  rw [touch_out]
  cases c with
  | TargetPosition => exact set_scaled_raw32 rfl rfl rfl rfl himg
  | PosVelocity => exact set_scaled_raw32 rfl rfl rfl rfl himg
  | Override => exact absurd rfl hc

end Write

/-- What is staged outside the field leaves it alone. -/
theorem raw32_staged {d d' : MGateDriver} {lo hi off : ℕ} (h : Staged d d' lo hi)
    (hout : off + 4 ≤ lo ∨ hi ≤ off) : raw32 d'.out_ off = raw32 d.out_ off := by
  refine raw32_congr fun i hlo hhi => h.frame.outside i ?_
  omega

theorem control_staged {d d' : MGateDriver} {lo hi : ℕ} (h : Staged d d' lo hi) (hlo : 2 ≤ lo) :
    control d'.out_ = control d.out_ := by
  unfold control
  simp only [List.getD_eq_getElem?_getD, h.frame.outside 0 (by omega), h.frame.outside 1 (by omega)]

/-- **What an operation stages.** -/
theorem exec_stages {F : FloatCast} {s t : State} {o : Op} {r : Resp o} (h : Wired s)
    (hx : exec F s o = some (t, r)) :
    (∃ cw, o = .set_control cw ∧ Staged s.drv t.drv 0 2 ∧ control t.drv.out_ = cw) ∨
    (∃ c v, o = .write c v ∧ Staged s.drv t.drv c.lo c.hi ∧
      (c ≠ .Override → raw32 t.drv.out_ c.lo = encode v)) ∨
    (∀ c v, o ≠ .write c v) ∧ t.drv = s.drv := by
  cases o with
  | set_control cw =>
      obtain ⟨d, hd, hst, hcw⟩ := set_control_spec F h cw
      simp only [exec, hd, Option.map_some, Option.some.injEq, Prod.mk.injEq] at hx
      obtain ⟨rfl, -⟩ := hx
      exact .inl ⟨cw, rfl, hst, hcw⟩
  | write c v =>
      simp only [exec, Option.map_eq_some_iff, Prod.mk.injEq] at hx
      obtain ⟨d, hd, rfl, -⟩ := hx
      have hok := ProcessImage.toOption_eq_some hd
      exact .inr (.inl ⟨c, v, rfl, write_staged h hok, fun hc => write_value h hc hok⟩)
  | driver_start =>
      simp only [exec, Option.some.injEq, Prod.mk.injEq] at hx
      obtain ⟨rfl, -⟩ := hx
      refine .inr (.inr ⟨(by rintro _ _ ⟨⟩), ?_⟩)
      split
      · rfl
      · rfl
  | join =>
      simp only [exec] at hx
      split at hx
      · cases hx
        exact .inr (.inr ⟨(by rintro _ _ ⟨⟩), rfl⟩)
      · cases hx
  | read_int u | read u | read_output_int u =>
      simp only [exec, Option.map_eq_some_iff, Prod.mk.injEq] at hx
      obtain ⟨_, -, rfl, -⟩ := hx
      exact .inr (.inr ⟨(by rintro _ _ ⟨⟩), rfl⟩)
  | _ =>
      cases hx
      exact .inr (.inr ⟨(by rintro _ _ ⟨⟩), rfl⟩)

/-- **What an operation stores.** Each variable of the command thread has its own store. -/
structure Stores (s t : State) (o : Op) : Prop where
  cfg : t.cfg = s.cfg
  call : t.call = s.call
  prog : t.prog = s.prog
  enabled : t.enabled_ = s.enabled_ ∨ o = .store_enabled t.enabled_
  fault : t.fault_ = s.fault_ ∨ o = .store_fault t.fault_
  reason : t.fault_reason_ = s.fault_reason_ ∨ (o = .clear_fault_reason ∧ t.fault_reason_ = "")
  has_target : t.has_target_ = s.has_target_ ∨ o = .store_has_target t.has_target_
  last_target : t.last_target_ = s.last_target_ ∨ o = .store_last_target t.last_target_

/-- A flag that is not set stays so unless it is stored. -/
theorem flag_stays {a b : Bool} {o : Op} {store : Bool → Op} (h : b = a ∨ o = store b)
    (ho : o ≠ store true) (ha : a = false) : b = false := by
  rcases h with hsame | hstore
  · exact hsame.trans ha
  · cases b with
    | false => rfl
    | true => exact absurd hstore ho

theorem Stores.forgotten {s t : State} {o : Op} (h : Stores s t o)
    (ho : o ≠ .store_has_target true) (hs : s.has_target_ = false) : t.has_target_ = false :=
  flag_stays h.has_target ho hs

theorem Stores.disabled {s t : State} {o : Op} (h : Stores s t o) (ho : o ≠ .store_enabled true)
    (hs : s.enabled_ = false) : t.enabled_ = false :=
  flag_stays h.enabled ho hs

theorem exec_stores {F : FloatCast} {s t : State} {o : Op} {r : Resp o}
    (hx : exec F s o = some (t, r)) : Stores s t o := by
  cases o with
  | store_enabled b =>
      cases hx
      exact ⟨rfl, rfl, rfl, .inr rfl, .inl rfl, .inl rfl, .inl rfl, .inl rfl⟩
  | store_fault b =>
      cases hx
      exact ⟨rfl, rfl, rfl, .inl rfl, .inr rfl, .inl rfl, .inl rfl, .inl rfl⟩
  | clear_fault_reason =>
      cases hx
      exact ⟨rfl, rfl, rfl, .inl rfl, .inl rfl, .inr ⟨rfl, rfl⟩, .inl rfl, .inl rfl⟩
  | store_has_target b =>
      cases hx
      exact ⟨rfl, rfl, rfl, .inl rfl, .inl rfl, .inl rfl, .inr rfl, .inl rfl⟩
  | store_last_target p =>
      cases hx
      exact ⟨rfl, rfl, rfl, .inl rfl, .inl rfl, .inl rfl, .inl rfl, .inr rfl⟩
  | set_control cw =>
      obtain ⟨u, hu, heq⟩ := Option.map_eq_some_iff.mp hx
      cases heq
      obtain ⟨d, -, rfl⟩ := Option.map_eq_some_iff.mp hu
      exact ⟨rfl, rfl, rfl, .inl rfl, .inl rfl, .inl rfl, .inl rfl, .inl rfl⟩
  | write c v | read_int c | read c | read_output_int c =>
      obtain ⟨u, -, heq⟩ := Option.map_eq_some_iff.mp hx
      cases heq
      exact ⟨rfl, rfl, rfl, .inl rfl, .inl rfl, .inl rfl, .inl rfl, .inl rfl⟩
  | driver_start =>
      simp only [exec, Option.some.injEq, Prod.mk.injEq] at hx
      obtain ⟨rfl, -⟩ := hx
      split
      · exact ⟨rfl, rfl, rfl, .inl rfl, .inl rfl, .inl rfl, .inl rfl, .inl rfl⟩
      · exact ⟨rfl, rfl, rfl, .inl rfl, .inl rfl, .inl rfl, .inl rfl, .inl rfl⟩
  | join =>
      simp only [exec] at hx
      split at hx
      · cases hx
        exact ⟨rfl, rfl, rfl, .inl rfl, .inl rfl, .inl rfl, .inl rfl, .inl rfl⟩
      · cases hx
  | _ =>
      cases hx
      exact ⟨rfl, rfl, rfl, .inl rfl, .inl rfl, .inl rfl, .inl rfl, .inl rfl⟩

/-- A passive operation stores the text of the last error at most. -/
theorem exec_passive {F : FloatCast} {s t : State} {o : Op} {r : Resp o} (ho : passive o = true)
    (hx : exec F s o = some (t, r)) : ∃ e, t = { s with last_error_ := e } := by
  cases o with
  | set_last_error e =>
      cases hx
      exact ⟨e, rfl⟩
  | read_int u | read u | read_output_int u =>
      obtain ⟨_, -, heq⟩ := Option.map_eq_some_iff.mp hx
      cases heq
      exact ⟨s.last_error_, rfl⟩
  | load_enabled | load_fault | load_abort | load_online | load_running | load_have_data
  | fault_reason | status_snapshot | stats | load_has_target | load_last_target =>
      cases hx
      exact ⟨s.last_error_, rfl⟩
  | _ => cases ho

/-- **What the poll thread changes.** It stages nothing but control word 0, disables,
and latches; what belongs to the command thread it leaves alone. -/
structure Disturbed (s t : State) : Prop where
  outputs : (Staged s.drv t.drv 0 2 ∧ control t.drv.out_ = 0) ∨ t.drv.out_ = s.drv.out_
  enabled : t.enabled_ = true → s.enabled_ = true
  fault : s.fault_ = true → t.fault_ = true ∧ t.fault_reason_ = s.fault_reason_
  cfg : t.cfg = s.cfg
  has_target : t.has_target_ = s.has_target_
  last_target : t.last_target_ = s.last_target_
  call : t.call = s.call
  prog : t.prog = s.prog

theorem Disturbed.disabled {s t : State} (h : Disturbed s t) (hs : s.enabled_ = false) :
    t.enabled_ = false :=
  Bool.eq_false_iff.mpr fun ht => Bool.eq_false_iff.mp hs (h.enabled ht)

theorem Disturbed.raw32 {s t : State} (h : Disturbed s t) {off : ℕ} (hoff : 2 ≤ off) :
    raw32 t.drv.out_ off = raw32 s.drv.out_ off := by
  rcases h.outputs with ⟨hst, -⟩ | hout
  · exact raw32_staged hst (.inr hoff)
  · rw [hout]

theorem Disturbed.target {s t : State} (h : Disturbed s t) :
    target t.drv.out_ = target s.drv.out_ := h.raw32 (le_refl 2)

theorem Disturbed.velocity {s t : State} (h : Disturbed s t) :
    velocity t.drv.out_ = velocity s.drv.out_ := h.raw32 (by decide)

theorem Disturbed.control {s t : State} (h : Disturbed s t) :
    control t.drv.out_ = control s.drv.out_ ∨ control t.drv.out_ = 0 := by
  rcases h.outputs with ⟨-, hzero⟩ | hout
  · exact .inr hzero
  · exact .inl (by rw [hout])

theorem poll_disturbs {F : FloatCast} {s t : State} {i : Input} (h : Wired s)
    (hx : poll_step F s i = some t) : Disturbed s t := by
  -- most steps change nothing of this
  have quiet : ∀ u : State, u.drv.out_ = s.drv.out_ → u.enabled_ = s.enabled_ →
      u.fault_ = s.fault_ → u.fault_reason_ = s.fault_reason_ → u.cfg = s.cfg →
      u.has_target_ = s.has_target_ → u.last_target_ = s.last_target_ → u.call = s.call →
      u.prog = s.prog → Disturbed s u := by
    intro u ho he hf hr hc ht hl hcl hp
    exact ⟨.inr ho, fun h => by rw [← he]; exact h, fun h => ⟨by rw [hf]; exact h, hr⟩, hc, ht, hl,
      hcl, hp⟩
  unfold poll_step at hx
  cases hp : s.poll <;> simp only [hp] at hx
  case zero | latch_zero =>
    obtain ⟨d, hd, hst, hcw⟩ := set_control_spec F h 0
    rw [hd, Option.map_some, Option.some.injEq] at hx
    subst hx
    exact ⟨.inl ⟨hst, hcw⟩, id, fun h => ⟨h, rfl⟩, rfl, rfl, rfl, rfl, rfl⟩
  case latch_enabled why =>
    cases hx
    exact ⟨.inr rfl, nofun, fun h => ⟨h, rfl⟩, rfl, rfl, rfl, rfl, rfl⟩
  case latch_reason why =>
    split at hx
    · cases hx
      exact quiet _ rfl rfl rfl rfl rfl rfl rfl rfl rfl
    · rename_i hfault
      cases hx
      exact ⟨.inr rfl, id, fun h => absurd h hfault, rfl, rfl, rfl, rfl, rfl⟩
  case latch_fault newly =>
    cases hx
    exact ⟨.inr rfl, id, fun _ => ⟨rfl, rfl⟩, rfl, rfl, rfl, rfl, rfl⟩
  case copy lo hi =>
    obtain ⟨regs, -, rfl⟩ := Option.map_eq_some_iff.mp hx
    exact quiet _ rfl rfl rfl rfl rfl rfl rfl rfl rfl
  case error | diag =>
    obtain ⟨_, -, rfl⟩ := Option.map_eq_some_iff.mp hx
    exact quiet _ rfl rfl rfl rfl rfl rfl rfl rfl rfl
  case send lo hi regs sent =>
    split at hx
    · split at hx
      · split at hx
        · cases hx
          exact quiet _ rfl rfl rfl rfl rfl rfl rfl rfl rfl
        · cases hx
          exact quiet _ rfl rfl rfl rfl rfl rfl rfl rfl rfl
      · cases hx
    · cases hx
      exact quiet _ (out_clear _ _ _) rfl rfl rfl rfl rfl rfl rfl rfl
  case inputs =>
    split at hx
    · cases hx
      exact quiet _ rfl rfl rfl rfl rfl rfl rfl rfl rfl
    · split at hx
      · split at hx
        · split at hx
          · obtain ⟨img, -, rfl⟩ := Option.map_eq_some_iff.mp hx
            exact quiet _ rfl rfl rfl rfl rfl rfl rfl rfl rfl
          · cases hx
        · cases hx
          exact quiet _ rfl rfl rfl rfl rfl rfl rfl rfl rfl
      · cases hx
  all_goals
    -- what is left branches on an answer or on a flag, and changes nothing of the above
    repeat' split at hx
    all_goals
      cases hx
    all_goals
      exact quiet _ rfl rfl rfl rfl rfl rfl rfl rfl rfl

end Mgate.Threads
