/-
The tag registry: what `add_tag` accepts, and which registered tags can be
accessed.

The check at registration and the checks of an access are different code. Both
add the offset and the size in 64 bits, so a tag whose end wraps passes both,
and the access behind them lies outside the image; and only the access looks at
a bit index. `accessible_iff` says that nothing else goes wrong: of the tags that
any sequence of `add_tag` calls leaves in the registry, exactly those whose end
does not wrap and whose bit index is a bit of a byte complete every access that
fits their type.
-/
import Wavemakers.TagAccess
import Wavemakers.MGateDriver

set_option autoImplicit false

namespace Mgate

namespace ProcessImage

/-! ## When an access completes

The other half of the footprint lemmas: an access completes exactly when the
tag is inside the image. -/

/-- The call returns. -/
def Completes {α : Type} (x : Except Exn α) : Prop := ∃ a, x = .ok a

theorem completes_bind {α β : Type} {x : Except Exn α} {f : α → Except Exn β} :
    Completes (x >>= f) ↔ ∃ a, x = .ok a ∧ Completes (f a) := by
  constructor
  · rintro ⟨b, hb⟩
    obtain ⟨a, ha, hfa⟩ := bind_eq_ok.mp hb
    exact ⟨a, ha, b, hfa⟩
  · rintro ⟨a, ha, b, hfa⟩
    exact ⟨b, bind_eq_ok.mpr ⟨a, ha, hfa⟩⟩

theorem completes_map {α β : Type} (f : α → β) (x : Except Exn α) :
    Completes (f <$> x) ↔ Completes x := by
  cases x with
  | error e => simp [Completes, Functor.map, Except.map]
  | ok a => simp [Completes, Functor.map, Except.map]

theorem completes_bind_pure {α β : Type} (x : Except Exn α) (f : α → β) :
    Completes (x >>= fun a => pure (f a)) ↔ Completes x := completes_map f x

variable {img : ProcessImage} {off : UInt64}

theorem peek_completes {o n : ℕ} : Completes (img.peek o n) ↔ o + n ≤ img.size := by
  unfold peek
  split
  · rename_i h
    exact ⟨fun _ => h, fun _ => ⟨_, rfl⟩⟩
  · rename_i h
    constructor
    · rintro ⟨_, ⟨⟩⟩
    · exact fun h' => absurd h' h

theorem get_be_completes {n : ℕ} {o : ByteOrder} :
    Completes (img.get_be off n o) ↔ off.toNat + n ≤ img.size := by
  unfold get_be
  rw [completes_bind]
  constructor
  · rintro ⟨_, -, h⟩
    obtain ⟨_, hpeek, -⟩ := completes_bind.mp h
    exact peek_completes.mp ⟨_, hpeek⟩
  · intro h
    obtain ⟨tmp, htmp⟩ := peek_completes.mpr h
    exact ⟨(), check_eq_ok h, completes_bind.mpr ⟨tmp, htmp, _, rfl⟩⟩

theorem get_bit_completes {bit : UInt8} :
    Completes (img.get_bit off bit) ↔ off.toNat + 1 ≤ img.size ∧ bit ≤ 7 := by
  unfold get_bit
  rw [completes_bind]
  constructor
  · rintro ⟨_, -, h⟩
    split at h
    · obtain ⟨_, ⟨⟩⟩ := h
    · rename_i hbit
      obtain ⟨_, hpeek, -⟩ := completes_bind.mp h
      exact ⟨peek_completes.mp ⟨_, hpeek⟩, by simpa using hbit⟩
  · rintro ⟨hin, hbit⟩
    obtain ⟨tmp, htmp⟩ := peek_completes.mpr hin
    refine ⟨(), check_eq_ok hin, ?_⟩
    rw [if_neg (by simpa using hbit)]
    exact completes_bind.mpr ⟨tmp, htmp, _, rfl⟩

theorem get_raw_completes {len : UInt64} :
    Completes (img.get_raw off len) ↔ off.toNat + len.toNat ≤ img.size := by
  unfold get_raw
  rw [completes_bind]
  constructor
  · rintro ⟨_, -, h⟩
    exact peek_completes.mp h
  · intro h
    refine ⟨(), ?_, peek_completes.mpr h⟩
    have hcheck := check_eq_ok h
    rwa [UInt64.ofNat_toNat] at hcheck

theorem set_raw_completes {src : List UInt8} :
    Completes (img.set_raw off src) ↔ off.toNat + src.length ≤ img.size := by
  constructor
  · rintro ⟨img', h⟩
    exact (set_raw_frame h).inside
  · intro h
    exact ⟨_, bind_eq_ok.mpr ⟨(), check_eq_ok h, poke_eq_ok.mpr ⟨h, rfl⟩⟩⟩

section Tag

variable (F : FloatCast) {t : Tag}

theorem inside_bit (htype : t.type = .Bit) :
    t.Inside img ↔ t.byte_offset.toNat + 1 ≤ img.size ∧ t.bit ≤ 7 := by
  have hhi : t.hi = t.byte_offset.toNat + 1 := by
    unfold Tag.hi Tag.size_bytes
    rw [htype]
    rfl
  constructor
  · intro h
    exact ⟨hhi ▸ h.bytes, h.bit htype⟩
  · rintro ⟨hbytes, hbit⟩
    exact ⟨hhi ▸ hbytes, fun _ => hbit⟩

theorem inside_bytes (htype : t.type ≠ .Bit) : t.Inside img ↔ t.hi ≤ img.size :=
  ⟨fun h => h.bytes, fun h => ⟨h, fun hbit => absurd hbit htype⟩⟩

/-- **`get_int`** completes exactly inside the image. -/
theorem get_int_completes (hraw : t.type ≠ .Raw) :
    Completes (img.get_int F t) ↔ t.Inside img := by
  by_cases hbit : t.type = .Bit
  · rw [inside_bit hbit, get_int, hbit]
    simp only [completes_map]
    exact get_bit_completes
  · rw [inside_bytes hbit]
    unfold Tag.hi Tag.size_bytes get_int
    cases htype : t.type
    case Bit => exact absurd htype hbit
    case Raw => exact absurd htype hraw
    all_goals
      simp only [completes_map, completes_bind_pure, get_u8, get_u16, get_u32, get_f32, get_f64]
      exact get_be_completes

theorem get_scaled_completes (hraw : t.type ≠ .Raw) :
    Completes (img.get_scaled F t) ↔ t.Inside img := by
  rw [← get_int_completes F hraw]
  -- the floats are read as such, everything else as an integer
  unfold get_scaled get_int
  cases t.type <;> simp only [completes_map, completes_bind_pure]

theorem get_bool_completes (hraw : t.type ≠ .Raw) :
    Completes (img.get_bool F t) ↔ t.Inside img := by
  unfold get_bool
  split
  · rename_i htype
    rw [inside_bit htype]
    exact get_bit_completes
  · rw [completes_map]
    exact get_int_completes F hraw

/-- **Every typed write** completes exactly inside the image. -/
theorem write_completes {w : Write} (hw : w.Fits t.type) :
    Completes (img.write F t w) ↔ t.Inside img := by
  constructor
  · rintro ⟨img', h⟩
    refine ⟨(write_frame hw h).inside, ?_⟩
    intro htype
    rcases write_eq F t w hw with ⟨-, v, heq⟩ | ⟨hne, -⟩
    · rw [heq] at h
      obtain ⟨-, -, h⟩ := bind_eq_ok.mp h
      split at h
      · cases h
      · rename_i hbit
        simpa using hbit
    · exact absurd htype hne
  · intro hin
    obtain ⟨c, hc⟩ := write_bits F t w hw
    obtain ⟨img', h, -⟩ := hc img hin
    exact ⟨img', h⟩

end Tag

end ProcessImage

/-! ## Registration -/

namespace MGateDriver

open ProcessImage

/-- A sequence of `add_tag` calls. One that throws leaves the registry as it was. -/
def register (d : MGateDriver) (calls : List Tag) : MGateDriver :=
  calls.foldl (fun d t => (d.add_tag t).toOption.getD d) d

/-- What the checks of `add_tag` guarantee. -/
structure Registry (d : MGateDriver) : Prop where
  unique : d.tags_.Pairwise fun t u => t.name ≠ u.name
  fits : ∀ t ∈ d.tags_, d.Fits t

theorem add_tag_fresh {d d' : MGateDriver} {t : Tag} (h : d.add_tag t = .ok d') :
    ∀ u ∈ d.tags_, u.name ≠ t.name := by
  intro u hu heq
  have hfound : (d.find_tag t.name).isSome = true := by
    rw [find_tag, List.find?_isSome]
    exact ⟨u, hu, beq_iff_eq.mpr heq⟩
  -- whatever check comes first, the call throws
  unfold add_tag at h
  dsimp only at h
  by_cases hzero : t.size_bytes = 0
  · rw [if_pos hzero] at h
    cases h
  · rw [if_neg hzero, if_pos hfound] at h
    generalize (if t.area = .Input then d.in_.size else d.out_.size) = area_size at h
    by_cases hfit : area_size < (t.byte_offset + t.size_bytes).toNat
    · rw [if_pos hfit] at h
      cases h
    · rw [if_neg hfit] at h
      cases h

theorem add_tag_registry {d d' : MGateDriver} {t : Tag} (hd : d.Registry)
    (h : d.add_tag t = .ok d') : d'.Registry := by
  have hfresh := add_tag_fresh h
  obtain ⟨rfl, hfit⟩ := add_tag_spec h
  refine ⟨?_, ?_⟩
  · refine List.pairwise_append.mpr ⟨hd.unique, List.pairwise_singleton _ _, ?_⟩
    intro u hu v hv
    rw [List.mem_singleton.mp hv]
    exact hfresh u hu
  · intro u hu
    rcases List.mem_append.mp hu with hu | hu
    · exact hd.fits u hu
    · rw [List.mem_singleton.mp hu]
      exact hfit

/-- `d` later on: the images have changed, the registry and the areas' sizes have not. -/
structure Later (d₀ d : MGateDriver) : Prop where
  tags : d.tags_ = d₀.tags_
  in_size : d.in_.size = d₀.in_.size
  out_size : d.out_.size = d₀.out_.size

theorem Later.registry {d₀ d : MGateDriver} (h : Later d₀ d) (hd : d₀.Registry) : d.Registry := by
  refine ⟨by rw [h.tags]; exact hd.unique, ?_⟩
  intro t ht
  rw [h.tags] at ht
  have hfit := hd.fits t ht
  unfold Fits at hfit ⊢
  rwa [h.in_size, h.out_size]

theorem register_cons (d : MGateDriver) (t : Tag) (calls : List Tag) :
    d.register (t :: calls) = ((d.add_tag t).toOption.getD d).register calls := rfl

/-- **Registration.** After any sequence of calls the names are unique and every tag
has passed the check of its end; the images are those of the start. -/
theorem register_spec (calls : List Tag) {d : MGateDriver} (hd : d.Registry) :
    (d.register calls).Registry ∧ (d.register calls).in_ = d.in_ ∧
      (d.register calls).out_ = d.out_ := by
  induction calls generalizing d with
  | nil => exact ⟨hd, rfl, rfl⟩
  | cons t calls ih =>
      rw [register_cons]
      cases hadd : d.add_tag t with
      | error e => exact ih hd
      | ok d' =>
          obtain ⟨hreg, hin, hout⟩ := ih (add_tag_registry hd hadd)
          obtain ⟨rfl, -⟩ := add_tag_spec hadd
          exact ⟨hreg, hin, hout⟩

theorem create_registry (cfg : GatewayConfig) : (create cfg).Registry := by
  refine ⟨List.Pairwise.nil, ?_⟩
  intro t ht
  cases ht

/-- Every registered tag is found under its own name, in its area only. -/
theorem Registry.tag_checked {d : MGateDriver} (hd : d.Registry) {t : Tag} (ht : t ∈ d.tags_) :
    d.tag_checked t.name t.area = .ok t := by
  have hfind : ∀ {l : List Tag}, l.Pairwise (fun t u => t.name ≠ u.name) → t ∈ l →
      l.find? (fun u => u.name == t.name) = some t := by
    intro l
    induction l with
    | nil =>
        intro _ hmem
        cases hmem
    | cons u l ih =>
        intro hunique hmem
        obtain ⟨hfirst, hrest⟩ := List.pairwise_cons.mp hunique
        rcases List.mem_cons.mp hmem with rfl | hmem
        · simp
        · rw [List.find?_cons, beq_false_of_ne (hfirst t hmem)]
          exact ih hrest hmem
  have htag : d.tag t.name = .ok t := by
    unfold tag find_tag
    rw [hfind hd.unique ht]
  unfold MGateDriver.tag_checked
  rw [htag]
  simp only [bind, Except.bind, ne_eq, not_true_eq_false, if_false]

/-! ## Access -/

def area (d : MGateDriver) : Area → ProcessImage
  | .Input => d.in_
  | .Output => d.out_

/-- The write returns, and has changed nothing but the tag's bytes. -/
def WritesInside (d : MGateDriver) (t : Tag) (x : Except Exn MGateDriver) : Prop :=
  ∃ d', x = .ok d' ∧ Staged d d' t.lo t.hi

/-- The functions that fit the tag's area and type complete. -/
def Accessible (F : FloatCast) (d : MGateDriver) (t : Tag) : Prop :=
  match t.area with
  | .Input =>
      if t.type = .Raw then Completes (d.read_raw t.name)
      else Completes (d.read F t.name) ∧ Completes (d.read_int F t.name) ∧
        Completes (d.read_bool F t.name)
  | .Output =>
      if t.type = .Raw then ∀ bytes, bytes.length = t.size_bytes.toNat →
        d.WritesInside t (d.write_raw t.name bytes)
      else (∀ x, d.WritesInside t (d.write F t.name x)) ∧
        (∀ raw, d.WritesInside t (d.write_int F t.name raw)) ∧
        (∀ v, d.WritesInside t (d.write_bool F t.name v)) ∧
        Completes (d.read_output F t.name) ∧ Completes (d.read_output_int F t.name) ∧
        Completes (d.read_output_bool F t.name)

/-- A write of the driver returns when the write of the image does. -/
theorem writesInside_stage {d : MGateDriver} {t : Tag}
    {set : ProcessImage → Except Exn ProcessImage}
    (hset : ∀ img img', set img = .ok img' → Frame img img' t.lo t.hi)
    (hsize : d.out_.size < 2 ^ 64) : d.WritesInside t (d.stage t set) ↔ Completes (set d.out_) := by
  constructor
  · rintro ⟨d', h, -⟩
    obtain ⟨img, himg, -⟩ := bind_eq_ok.mp h
    exact ⟨img, himg⟩
  · rintro ⟨img, himg⟩
    have hstage : d.stage t set = .ok ({ d with out_ := img }.touch t.byte_offset t.size_bytes) :=
      bind_eq_ok.mpr ⟨img, himg, rfl⟩
    exact ⟨_, hstage, stage_spec hset hsize hstage⟩

/-- **Access.** A registered tag is accessible exactly when it is inside its area. -/
theorem accessible_iff_inside (F : FloatCast) {d : MGateDriver} (hd : d.Registry)
    (hsize : d.out_.size < 2 ^ 64) {t : Tag} (ht : t ∈ d.tags_) :
    d.Accessible F t ↔ t.Inside (d.area t.area) := by
  have hchecked := hd.tag_checked ht
  unfold Accessible
  cases harea : t.area with
  | Input =>
      rw [harea] at hchecked
      simp only [area, read, read_int, read_bool, read_raw, hchecked, bind, Except.bind]
      by_cases hraw : t.type = .Raw
      · rw [if_pos hraw, get_raw_completes, inside_bytes (by rw [hraw]; exact nofun)]
        rfl
      · rw [if_neg hraw, get_scaled_completes F hraw, get_int_completes F hraw,
          get_bool_completes F hraw, and_self, and_self]
  | Output =>
      rw [harea] at hchecked
      simp only [area, write, write_int, write_bool, write_raw, read_output, read_output_int,
        read_output_bool, hchecked, bind, Except.bind]
      by_cases hraw : t.type = .Raw
      · rw [if_pos hraw, inside_bytes (by rw [hraw]; exact nofun)]
        have hframe : ∀ bytes : List UInt8, bytes.length = t.size_bytes.toNat →
            ∀ img img', ProcessImage.set_raw img t.byte_offset bytes = .ok img' →
              Frame img img' t.lo t.hi := by
          intro bytes hlen img img' h
          have hf := set_raw_frame h
          rwa [hlen] at hf
        constructor
        · intro h
          -- any bytes of the right length show it
          have hzeros := h (List.replicate t.size_bytes.toNat 0) List.length_replicate
          rw [if_neg (by simp), writesInside_stage (hframe _ List.length_replicate) hsize,
            set_raw_completes, List.length_replicate] at hzeros
          exact hzeros
        · intro hin bytes hlen
          rw [if_neg (not_not.mpr hlen), writesInside_stage (hframe bytes hlen) hsize,
            set_raw_completes, hlen]
          exact hin
      · rw [if_neg hraw]
        simp only [writesInside_stage (fun _ _ => set_scaled_frame) hsize,
          writesInside_stage (fun _ _ => set_int_frame) hsize,
          writesInside_stage (fun _ _ => set_bool_frame) hsize,
          get_scaled_completes F hraw, get_int_completes F hraw, get_bool_completes F hraw]
        have hwrite : ∀ w : Write, w.Fits t.type →
            (Completes (d.out_.write F t w) ↔ t.Inside d.out_) :=
          fun w hw => write_completes F hw
        constructor
        · rintro ⟨-, -, -, hin, -, -⟩
          exact hin
        · intro hin
          exact ⟨fun x => (hwrite (.scaled x) hraw).mpr hin, fun raw => (hwrite (.int raw) hraw).mpr hin,
            fun v => (hwrite (.bool v) hraw).mpr hin, hin, hin, hin⟩

theorem fits_area {d : MGateDriver} {t : Tag} :
    d.Fits t ↔ (t.byte_offset + t.size_bytes).toNat ≤ (d.area t.area).size := by
  unfold Fits
  cases t.area with
  | Input => rfl
  | Output => rfl

/-- **What registration misses.** In a registry that any sequence of `add_tag` calls has
built, at any later state of the images, the accessible tags are those whose end does not
wrap and whose bit index is in range; these are accessed inside their area. -/
theorem accessible_iff (F : FloatCast) (cfg : GatewayConfig) (calls : List Tag) {d : MGateDriver}
    (hd : Later ((create cfg).register calls) d) {t : Tag} (ht : t ∈ d.tags_) :
    (d.Accessible F t ↔ t.byte_offset.toNat + t.size_bytes.toNat < 2 ^ 64 ∧
      (t.type = .Bit → t.bit ≤ 7)) ∧
    (d.Accessible F t → t.byte_offset.toNat + t.size_bytes.toNat ≤ (d.area t.area).size) := by
  obtain ⟨hreg₀, hin₀, hout₀⟩ := register_spec calls (create_registry cfg)
  have hreg := hd.registry hreg₀
  have hin : d.in_.size = cfg.input_word_count.toNat * 2 := by
    rw [hd.in_size, hin₀]
    exact List.length_replicate
  have hout : d.out_.size = cfg.output_word_count.toNat * 2 := by
    rw [hd.out_size, hout₀]
    exact List.length_replicate
  have hincount := cfg.input_word_count.toNat_lt
  have houtcount := cfg.output_word_count.toNat_lt
  have hsmall : (d.area t.area).size < 2 ^ 64 := by
    cases t.area with
    | Input => simp only [area]; omega
    | Output => simp only [area]; omega
  rw [accessible_iff_inside F hreg (by omega) ht]
  have hfit := fits_area.mp (hreg.fits t ht)
  rw [UInt64.toNat_add] at hfit
  refine ⟨⟨fun h => ⟨?_, h.bit⟩, fun ⟨hwrap, hbit⟩ => ⟨?_, hbit⟩⟩, fun h => h.bytes⟩
  · exact lt_of_le_of_lt h.bytes hsmall
  · -- the 64-bit end is the true one, and it has been checked
    rwa [Nat.mod_eq_of_lt hwrap] at hfit

/-! ## On a gateway with seven registers -/

def position : Tag := { name := "Drv.Position", type := .I32, byte_offset := 2 }

/-- Two bytes in front of the end of the address space: the tag's end wraps to 2. -/
def wrapping : Tag := { name := "wrapping", type := .I32, byte_offset := 18446744073709551614 }

def ninth_bit : Tag := { name := "ninth bit", type := .Bit, bit := 8 }

/-- The three tags are registered. -/
def three_tags : MGateDriver :=
  (create { input_word_count := 7 }).register [position, wrapping, ninth_bit]

theorem three_tags_registered : three_tags.tags_ = [position, wrapping, ninth_bit] := rfl

theorem accessible_position : three_tags.Accessible no_floats position := by
  have hmem : position ∈ three_tags.tags_ := by
    rw [three_tags_registered]
    exact List.mem_cons_self
  exact (accessible_iff no_floats { input_word_count := 7 } [position, wrapping, ninth_bit]
    ⟨rfl, rfl, rfl⟩ hmem).1.mpr ⟨by decide, by rintro ⟨⟩⟩

/-- Both are registered, and reading them fails: one outside the image, one with an
exception. -/
theorem registered_tags_fail :
    three_tags.read_int no_floats "wrapping" = .error .undefined ∧
    three_tags.read_bool no_floats "ninth bit" =
      .error (.out_of_range "mgate: bit index must be 0..7") ∧
    ¬ ∀ (cfg : GatewayConfig) (calls : List Tag) (t : Tag),
      t ∈ ((create cfg).register calls).tags_ →
        ((create cfg).register calls).Accessible no_floats t := by
  have hwrapping : three_tags.read_int no_floats "wrapping" = .error .undefined := by
    decide +kernel
  refine ⟨hwrapping, by decide +kernel, ?_⟩
  intro hall
  have hmem : wrapping ∈ three_tags.tags_ := by
    rw [three_tags_registered]
    exact List.mem_cons_of_mem _ List.mem_cons_self
  obtain ⟨-, ⟨i, hi⟩, -⟩ := hall { input_word_count := 7 } _ wrapping hmem
  cases hwrapping.symm.trans hi

end MGateDriver

end Mgate
