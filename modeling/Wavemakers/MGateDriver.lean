/-
`mgate_driver.cpp`, the part guarded by `mtx_`: the tag registry, the staged
outputs and their dirty span, and the critical sections of `flush_outputs`.

The driver has two kinds of users. Application threads stage values through
`write`, `write_int`, `write_bool` and `write_raw`, each one critical section
that changes the output image and widens the dirty span (`touch`). The poll
thread sends the span: `flush_outputs` reads it under the lock, copies the
registers under the lock, talks to the gateway without the lock, and clears
the span under the lock. The three sections are separate definitions here, so
that the sequential `flush_outputs` of `Exchange.lean` and the interleaved
poll threads of `DirtySpan.lean` and `DriveThreads.lean` share them.
-/
import Wavemakers.ProcessImage

set_option autoImplicit false

namespace Mgate

/-- The numbers read off the gateway's address map. Host, port and the socket
timeouts only reach the operating system and are left out. -/
structure GatewayConfig where
  unit_id : UInt8 := 1
  input_base_reg : UInt16 := 0x0000
  input_word_count : UInt16 := 0
  output_base_reg : UInt16 := 0x0800
  output_word_count : UInt16 := 0
  input_uses_fc4 : Bool := true
  status_base_reg : UInt16 := 0x0000
  status_word_count : UInt16 := 0
  status_uses_fc4 : Bool := true
  write_only_dirty : Bool := true
  deriving DecidableEq, Repr

/-- What `mtx_` guards, next to the two fields fixed before `start()`. -/
structure MGateDriver where
  cfg_ : GatewayConfig
  tags_ : List Tag
  in_ : ProcessImage
  out_ : ProcessImage
  status_ : List UInt16
  /-- byte range, half-open -/
  dirty_lo_ : ℕ
  dirty_hi_ : ℕ

/-- Modbus FC3/FC4 and FC16 limits. -/
def kMaxReadRegs : ℕ := 125
def kMaxWriteRegs : ℕ := 123

namespace MGateDriver

/-- The constructor. -/
def create (cfg : GatewayConfig) : MGateDriver where
  cfg_ := cfg
  tags_ := []
  in_ := .resize (cfg.input_word_count.toNat * 2)
  out_ := .resize (cfg.output_word_count.toNat * 2)
  status_ := List.replicate cfg.status_word_count.toNat 0
  dirty_lo_ := 0
  dirty_hi_ := 0

/-! ## Tag registry -/

def find_tag (d : MGateDriver) (name : String) : Option Tag :=
  d.tags_.find? fun t => t.name == name

/-- `end` is a 64-bit sum; the map refuses a second tag of the same name. -/
def add_tag (d : MGateDriver) (t : Tag) : Except Exn MGateDriver :=
  let area_size := if t.area = .Input then d.in_.size else d.out_.size
  let last := t.byte_offset + t.size_bytes
  if t.size_bytes = 0 then
    .error (.invalid_argument ("mgate: tag '" ++ t.name ++
      "' has zero size (set raw_len for Raw tags)"))
  else if area_size < last.toNat then
    .error (.invalid_argument ("mgate: tag '" ++ t.name ++ "' at byte " ++
      toString t.byte_offset.toNat ++ " (+" ++ toString t.size_bytes.toNat ++
      ") falls outside the " ++ (if t.area = .Input then "input" else "output") ++
      " area of " ++ toString area_size ++ " bytes"))
  else if (d.find_tag t.name).isSome then
    .error (.invalid_argument ("mgate: duplicate tag name '" ++ t.name ++ "'"))
  else .ok { d with tags_ := d.tags_ ++ [t] }

def add_tags (d : MGateDriver) (tags : List Tag) : Except Exn MGateDriver :=
  tags.foldlM add_tag d

def tag (d : MGateDriver) (name : String) : Except Exn Tag :=
  match d.find_tag name with
  | some t => .ok t
  | none => .error (.invalid_argument ("mgate: unknown tag '" ++ name ++ "'"))

def tag_checked (d : MGateDriver) (name : String) (expected : Area) : Except Exn Tag := do
  let t ← d.tag name
  if t.area ≠ expected then
    .error (.invalid_argument ("mgate: tag '" ++ name ++ "' is " ++
      (if t.area = .Input then "an input" else "an output") ++ " but was accessed as " ++
      (if expected = .Input then "an input" else "an output")))
  else .ok t

/-! ## Reading -/

def read (F : FloatCast) (d : MGateDriver) (name : String) : Except Exn ℚ := do
  let t ← d.tag_checked name .Input
  d.in_.get_scaled F t

def read_int (F : FloatCast) (d : MGateDriver) (name : String) : Except Exn ℤ := do
  let t ← d.tag_checked name .Input
  d.in_.get_int F t

def read_bool (F : FloatCast) (d : MGateDriver) (name : String) : Except Exn Bool := do
  let t ← d.tag_checked name .Input
  d.in_.get_bool F t

-- The vector is allocated in front of the access; a length that no vector can have throws
-- there and not at the access, which it is not inside of either.
def read_raw (d : MGateDriver) (name : String) : Except Exn (List UInt8) := do
  let t ← d.tag_checked name .Input
  d.in_.get_raw t.byte_offset t.size_bytes

def read_output (F : FloatCast) (d : MGateDriver) (name : String) : Except Exn ℚ := do
  let t ← d.tag_checked name .Output
  d.out_.get_scaled F t

def read_output_bool (F : FloatCast) (d : MGateDriver) (name : String) : Except Exn Bool := do
  let t ← d.tag_checked name .Output
  d.out_.get_bool F t

def read_output_int (F : FloatCast) (d : MGateDriver) (name : String) : Except Exn ℤ := do
  let t ← d.tag_checked name .Output
  d.out_.get_int F t

/-! ## Writing -/

/-- Widen the dirty span to cover `len` bytes from `byte_offset`. -/
def touch (d : MGateDriver) (byte_offset len : UInt64) : MGateDriver :=
  if d.dirty_lo_ ≥ d.dirty_hi_ then
    { d with dirty_lo_ := byte_offset.toNat, dirty_hi_ := (byte_offset + len).toNat }
  else
    { d with dirty_lo_ := min d.dirty_lo_ byte_offset.toNat,
             dirty_hi_ := max d.dirty_hi_ (byte_offset + len).toNat }

/-- The body shared by the write functions: change the image, widen the span. -/
def stage (d : MGateDriver) (t : Tag) (set : ProcessImage → Except Exn ProcessImage) :
    Except Exn MGateDriver := do
  let img ← set d.out_
  return { d with out_ := img }.touch t.byte_offset t.size_bytes

def write (F : FloatCast) (d : MGateDriver) (name : String) (engineering_value : ℚ) :
    Except Exn MGateDriver := do
  let t ← d.tag_checked name .Output
  d.stage t fun img => img.set_scaled F t engineering_value

def write_int (F : FloatCast) (d : MGateDriver) (name : String) (raw : ℤ) :
    Except Exn MGateDriver := do
  let t ← d.tag_checked name .Output
  d.stage t fun img => img.set_int F t raw

def write_bool (F : FloatCast) (d : MGateDriver) (name : String) (v : Bool) :
    Except Exn MGateDriver := do
  let t ← d.tag_checked name .Output
  d.stage t fun img => img.set_bool F t v

def write_raw (d : MGateDriver) (name : String) (bytes : List UInt8) :
    Except Exn MGateDriver := do
  let t ← d.tag_checked name .Output
  if bytes.length ≠ t.size_bytes.toNat then
    .error (.invalid_argument ("mgate: tag '" ++ name ++ "' expects " ++
      toString t.size_bytes.toNat ++ " bytes, got " ++ toString bytes.length))
  else d.stage t fun img => img.set_raw t.byte_offset bytes

/-- Force a full re-transmit of the output area on the next cycle. -/
def mark_outputs_dirty (d : MGateDriver) : MGateDriver :=
  { d with dirty_lo_ := 0, dirty_hi_ := d.out_.size }

/-! ## The critical sections of `flush_outputs` -/

/-- First section: the byte span to send, `none` when there is nothing to do. -/
def flush_span (d : MGateDriver) : Option (ℕ × ℕ) :=
  if d.out_.empty then none
  else if d.cfg_.write_only_dirty then
    if d.dirty_lo_ ≥ d.dirty_hi_ then none else some (d.dirty_lo_, d.dirty_hi_)
  else some (0, d.out_.size)

/-- The span grown to whole registers: first word and word count. -/
def first_word (lo : ℕ) : ℕ := lo / 2
def word_count (lo hi : ℕ) : ℕ := (hi + 1) / 2 - lo / 2

/-- Second section: the registers of the span, copied out of the image. -/
def flush_copy (d : MGateDriver) (lo hi : ℕ) : Except Exn (List UInt16) :=
  d.out_.store_to_registers (word_count lo hi) (first_word lo * 2)

/-- Registers of the next write request when `left` of them are still unsent. -/
def write_chunk (left : ℕ) : ℕ := min kMaxWriteRegs left

/-- The registers of the request now due when `sent` of them are acknowledged. -/
def chunk (regs : List UInt16) (sent : ℕ) : List UInt16 :=
  (regs.drop sent).take (write_chunk (regs.length - sent))

/-- Third section: clear what was transmitted. -/
def flush_clear (d : MGateDriver) (lo hi : ℕ) : MGateDriver :=
  if d.dirty_lo_ ≥ lo ∧ d.dirty_hi_ ≤ hi then { d with dirty_lo_ := 0, dirty_hi_ := 0 }
  else if d.dirty_lo_ < hi ∧ d.dirty_hi_ > hi then { d with dirty_lo_ := hi }
  else d

theorem length_chunk {regs : List UInt16} {sent : ℕ} (h : sent ≤ regs.length) :
    (chunk regs sent).length = write_chunk (regs.length - sent) := by
  unfold chunk write_chunk
  rw [List.length_take, List.length_drop]
  omega

theorem getElem?_chunk {regs : List UInt16} {sent k : ℕ} (hk : k < (chunk regs sent).length) :
    (chunk regs sent)[k]? = regs[sent + k]? := by
  unfold chunk at hk ⊢
  rw [List.length_take] at hk
  rw [List.getElem?_take_of_lt (by omega), List.getElem?_drop]

/-! ## What staging does

The whole story about the write functions that the later files need: bytes
outside the tag are kept, the tag's bytes are inside the dirty span
afterwards, and no byte leaves the span. -/

/-- Byte `i` is inside the dirty span. -/
def Dirty (d : MGateDriver) (i : ℕ) : Prop := d.dirty_lo_ ≤ i ∧ i < d.dirty_hi_

/-- `d'` is `d` after staging something inside `[lo, hi)`. -/
structure Staged (d d' : MGateDriver) (lo hi : ℕ) : Prop where
  cfg : d'.cfg_ = d.cfg_
  others : d'.tags_ = d.tags_ ∧ d'.in_ = d.in_ ∧ d'.status_ = d.status_
  frame : ProcessImage.Frame d.out_ d'.out_ lo hi
  grows : ∀ i, d.Dirty i → d'.Dirty i
  covers : ∀ i, lo ≤ i → i < hi → d'.Dirty i
  hi_le : d.dirty_hi_ ≤ d.out_.size → d'.dirty_hi_ ≤ d.out_.size

theorem touch_grows {d : MGateDriver} {off len : UInt64} {i : ℕ} (h : d.Dirty i) :
    (d.touch off len).Dirty i := by
  obtain ⟨h1, h2⟩ := h
  unfold touch
  rw [if_neg (by omega)]
  exact ⟨by simp only; omega, by simp only; omega⟩

theorem touch_covers {d : MGateDriver} {off len : UInt64} {i : ℕ} (hlo : off.toNat ≤ i)
    (hhi : i < (off + len).toNat) : (d.touch off len).Dirty i := by
  unfold touch
  split
  · exact ⟨hlo, hhi⟩
  · exact ⟨by simp only; omega, by simp only; omega⟩

theorem touch_hi_le {d : MGateDriver} {off len : UInt64} {n : ℕ} (hd : d.dirty_hi_ ≤ n)
    (h : (off + len).toNat ≤ n) : (d.touch off len).dirty_hi_ ≤ n := by
  unfold touch
  split
  · exact h
  · simp only
    omega

@[simp] theorem touch_out (d : MGateDriver) (off len : UInt64) : (d.touch off len).out_ = d.out_ := by
  unfold touch
  split <;> rfl

@[simp] theorem touch_cfg (d : MGateDriver) (off len : UInt64) : (d.touch off len).cfg_ = d.cfg_ := by
  unfold touch
  split <;> rfl

theorem touch_others (d : MGateDriver) (off len : UInt64) :
    (d.touch off len).tags_ = d.tags_ ∧ (d.touch off len).in_ = d.in_ ∧
      (d.touch off len).status_ = d.status_ := by
  unfold touch
  split
  · exact ⟨rfl, rfl, rfl⟩
  · exact ⟨rfl, rfl, rfl⟩

/-- A registered tag lies inside its area. -/
def Fits (d : MGateDriver) (t : Tag) : Prop :=
  (t.byte_offset + t.size_bytes).toNat ≤ if t.area = .Input then d.in_.size else d.out_.size

theorem add_tag_spec {d d' : MGateDriver} {t : Tag} (h : d.add_tag t = .ok d') :
    d' = { d with tags_ := d.tags_ ++ [t] } ∧ d.Fits t := by
  unfold add_tag at h
  unfold Fits
  dsimp only at h
  generalize (if t.area = .Input then d.in_.size else d.out_.size) = area_size at h ⊢
  by_cases hzero : t.size_bytes = 0
  · rw [if_pos hzero] at h
    cases h
  rw [if_neg hzero] at h
  by_cases hfit : area_size < (t.byte_offset + t.size_bytes).toNat
  · rw [if_pos hfit] at h
    cases h
  rw [if_neg hfit] at h
  by_cases hdup : (d.find_tag t.name).isSome = true
  · rw [if_pos hdup] at h
    cases h
  rw [if_neg hdup] at h
  cases h
  exact ⟨rfl, not_lt.mp hfit⟩

/-- **`add_tags`** registers all tags in order, or throws. -/
theorem add_tags_spec {tags : List Tag} : ∀ {d d' : MGateDriver}, d.add_tags tags = .ok d' →
    d' = { d with tags_ := d.tags_ ++ tags } ∧ ∀ t ∈ tags, d.Fits t := by
  induction tags with
  | nil =>
      intro d d' h
      cases h
      exact ⟨by simp, by simp⟩
  | cons t tags ih =>
      intro d d' h
      obtain ⟨d₁, h₁, h₂⟩ := ProcessImage.bind_eq_ok.mp h
      obtain ⟨rfl, hfit⟩ := add_tag_spec h₁
      obtain ⟨rfl, hfits⟩ := ih h₂
      refine ⟨by simp, ?_⟩
      rintro u hu
      rcases List.mem_cons.mp hu with rfl | hu
      · exact hfit
      · exact hfits u hu

/-- A setter with a tag's footprint, staged, is `Staged` on that footprint. The
area is smaller than the address space, so the 64-bit end of the tag is its
true end. -/
theorem stage_spec {d d' : MGateDriver} {t : Tag} {set : ProcessImage → Except Exn ProcessImage}
    (hset : ∀ img img', set img = .ok img' → ProcessImage.Frame img img' t.lo t.hi)
    (hsize : d.out_.size < 2 ^ 64) (h : d.stage t set = .ok d') : Staged d d' t.lo t.hi := by
  obtain ⟨img, himg, h⟩ := ProcessImage.bind_eq_ok.mp h
  cases h
  have hf := hset _ _ himg
  have hend : (t.byte_offset + t.size_bytes).toNat = t.hi := by
    have hin := hf.inside
    unfold Tag.hi at hin ⊢
    rw [UInt64.toNat_add, Nat.mod_eq_of_lt (by omega)]
  refine ⟨by simp, touch_others _ _ _, by simpa using hf, ?_, ?_, ?_⟩
  · intro i hi
    exact touch_grows (d := { d with out_ := img }) hi
  · intro i hlo hhi
    exact touch_covers hlo (by omega)
  · intro hle
    exact touch_hi_le (d := { d with out_ := img }) hle (by rw [hend]; exact hf.inside)

/-- One of the four ways an application thread stages outputs. -/
inductive WriteCall where
  | write (name : String) (engineering_value : ℚ)
  | write_int (name : String) (raw : ℤ)
  | write_bool (name : String) (v : Bool)
  | write_raw (name : String) (bytes : List UInt8)

def WriteCall.apply (F : FloatCast) (d : MGateDriver) : WriteCall → Except Exn MGateDriver
  | .write name x => d.write F name x
  | .write_int name raw => d.write_int F name raw
  | .write_bool name v => d.write_bool F name v
  | .write_raw name bytes => d.write_raw name bytes

/-- **Every write call** stages inside the bytes of one tag. -/
theorem WriteCall.apply_spec {F : FloatCast} {d d' : MGateDriver} {w : WriteCall}
    (hsize : d.out_.size < 2 ^ 64) (h : w.apply F d = .ok d') : ∃ lo hi, Staged d d' lo hi := by
  cases w with
  | write name x =>
      obtain ⟨t, -, h⟩ := ProcessImage.bind_eq_ok.mp h
      exact ⟨t.lo, t.hi, stage_spec (fun _ _ => ProcessImage.set_scaled_frame) hsize h⟩
  | write_int name raw =>
      obtain ⟨t, -, h⟩ := ProcessImage.bind_eq_ok.mp h
      exact ⟨t.lo, t.hi, stage_spec (fun _ _ => ProcessImage.set_int_frame) hsize h⟩
  | write_bool name v =>
      obtain ⟨t, -, h⟩ := ProcessImage.bind_eq_ok.mp h
      exact ⟨t.lo, t.hi, stage_spec (fun _ _ => ProcessImage.set_bool_frame) hsize h⟩
  | write_raw name bytes =>
      obtain ⟨t, -, h⟩ := ProcessImage.bind_eq_ok.mp h
      split at h
      · cases h
      · rename_i hlen
        refine ⟨t.lo, t.hi, stage_spec (fun img img' himg => ?_) hsize h⟩
        have hf := ProcessImage.set_raw_frame himg
        unfold Tag.hi Tag.lo
        rwa [not_not.mp hlen] at hf

/-! ## What a flush sends -/

theorem flush_span_none {d : MGateDriver} (h : d.flush_span = none)
    (hle : d.dirty_hi_ ≤ d.out_.size) (i : ℕ) : ¬ d.Dirty i := by
  rintro ⟨h1, h2⟩
  unfold flush_span at h
  split at h
  · rename_i hempty
    have : d.out_.size = 0 := by simpa [ProcessImage.empty, ProcessImage.size] using hempty
    omega
  · split at h
    · split at h
      · omega
      · cases h
    · cases h

/-- The span to send covers the dirty one. -/
theorem flush_span_some {d : MGateDriver} {lo hi : ℕ} (h : d.flush_span = some (lo, hi))
    (hle : d.dirty_hi_ ≤ d.out_.size) :
    lo < hi ∧ hi ≤ d.out_.size ∧ lo ≤ d.dirty_lo_ ∧ d.dirty_hi_ ≤ hi := by
  unfold flush_span at h
  split at h
  · cases h
  · rename_i hempty
    have hpos : d.out_.size ≠ 0 := by simpa [ProcessImage.empty, ProcessImage.size] using hempty
    split at h
    · split at h
      · cases h
      · cases h
        exact ⟨by omega, hle, le_refl _, le_refl _⟩
    · cases h
      exact ⟨by omega, le_refl _, Nat.zero_le _, hle⟩

/-- The registers of the span are copied from inside the image, byte by byte. -/
theorem flush_copy_spec {d : MGateDriver} {lo hi : ℕ} (hlt : lo < hi) (hle : hi ≤ d.out_.size)
    (heven : d.out_.size % 2 = 0) :
    ∃ regs, d.flush_copy lo hi = .ok regs ∧ regs.length = word_count lo hi ∧
      ∀ i, i < 2 * word_count lo hi → byte_of regs i = d.out_.buf_[first_word lo * 2 + i]? :=
  ProcessImage.store_to_registers_spec (by unfold first_word word_count; omega)

end MGateDriver

end Mgate
