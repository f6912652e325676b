/-
The dirty span under concurrency: application threads stage outputs while the
poll thread is somewhere between the three critical sections of
`flush_outputs`.

With `write_only_dirty` the driver sends only the bytes inside
`[dirty_lo_, dirty_hi_)`, so an output that differs from what the gateway holds
and lies outside the span is never sent again. `NothingLost` says there is no
such output. It is kept by everything the two sides do except one step: the
third critical section of `flush_outputs` decides from the two ends of the
span alone what it may drop. A byte staged inside the span after the registers
were copied, or below it in a flush during which the span also grew upwards,
is dropped unsent. `ClearLosesNothing` is the exact condition under which that
step drops nothing that is still to be sent; `clear_spec` proves it both ways.
-/
import Wavemakers.Interleave
import Wavemakers.MGateDriver

set_option autoImplicit false

namespace Mgate.DirtySpan

open Interleave Splice MGateDriver

/-! ## The threads -/

/-- Where the poll thread is inside `flush_outputs`. -/
inductive Flush where
  | idle
  /-- the span is read, the registers are not copied yet -/
  | span (lo hi : ℕ)
  /-- `sent` of the copied registers are acknowledged -/
  | sending (lo hi : ℕ) (regs : List UInt16) (sent : ℕ)

structure State where
  d : MGateDriver
  /-- the gateway's output registers -/
  gw : List UInt16
  flush : Flush
  connected : Bool

/-- How a write request ends. A request that is not acknowledged may or may not
have reached the registers; a broken one also drops the connection. -/
inductive Outcome where
  | acked
  | failed (applied : Bool)
  | broken (applied : Bool)

inductive Event where
  /-- an application thread stages an output -/
  | stage (w : WriteCall)
  | mark_outputs_dirty
  /-- the three critical sections, and the requests between the last two -/
  | flush_span
  | flush_copy
  | send (o : Outcome)
  | flush_clear
  /-- `ensure_connected` -/
  | connect
  /-- the gateway changes its outputs while the link is down -/
  | gateway (regs : List UInt16)

/-- The gateway's registers after a request for `regs` from `sent` on. -/
def store (s : State) (lo : ℕ) (regs : List UInt16) (sent : ℕ) : List UInt16 :=
  splice s.gw (first_word lo + sent) (chunk regs sent)

def step (F : FloatCast) (s : State) : Event → Option State
  | .stage w =>
      match w.apply F s.d with
      | .ok d => some { s with d := d }
      | .error .undefined => none
      -- an exception leaves the image and the span as they were
      | .error _ => some s
  | .mark_outputs_dirty => some { s with d := s.d.mark_outputs_dirty }
  | .flush_span =>
      match s.flush, s.connected with
      | .idle, true =>
          match s.d.flush_span with
          | none => some s
          | some (lo, hi) => some { s with flush := .span lo hi }
      | _, _ => none
  | .flush_copy =>
      match s.flush with
      | .span lo hi =>
          match s.d.flush_copy lo hi with
          | .ok regs => some { s with flush := .sending lo hi regs 0 }
          | .error _ => none
      | _ => none
  | .send o =>
      match s.flush with
      | .sending lo hi regs sent =>
          if sent < regs.length then
            match o with
            | .acked =>
                some { s with gw := store s lo regs sent,
                              flush := .sending lo hi regs (sent + (chunk regs sent).length) }
            | .failed applied =>
                some { s with gw := if applied then store s lo regs sent else s.gw,
                              flush := .idle }
            | .broken applied =>
                some { s with gw := if applied then store s lo regs sent else s.gw,
                              flush := .idle, connected := false }
          else none
      | _ => none
  | .flush_clear =>
      match s.flush with
      | .sending lo hi regs sent =>
          if sent = regs.length then some { s with d := s.d.flush_clear lo hi, flush := .idle }
          else none
      | _ => none
  | .connect =>
      if s.connected then none else some { s with d := s.d.mark_outputs_dirty, connected := true }
  | .gateway regs =>
      if s.connected = false ∧ regs.length = s.gw.length then some { s with gw := regs } else none

/-- A constructed driver with any tags, not yet connected, over any registers. -/
def Init (s : State) : Prop :=
  ∃ cfg tags, cfg.write_only_dirty = true ∧ s.d = { MGateDriver.create cfg with tags_ := tags } ∧
    s.gw.length = cfg.output_word_count.toNat ∧ s.flush = .idle ∧ s.connected = false

/-! ## The property -/

/-- Every output byte that differs from what the gateway holds is still dirty. -/
def NothingLost (s : State) : Prop :=
  ∀ i, i < s.d.out_.size → s.d.out_.buf_[i]? ≠ byte_of s.gw i → s.d.Dirty i

/-- Byte `i` of the output area as it was copied for the running flush. -/
def copied (lo : ℕ) (regs : List UInt16) (i : ℕ) : Option UInt8 :=
  byte_of regs (i - 2 * first_word lo)

/-- Dropping bytes from the span loses none that is still to be sent: either
nothing is dropped, or the bytes of the span are still the ones copied and,
when the span has grown upwards, no byte below it differs from the gateway. -/
def ClearLosesNothing (s : State) (lo hi : ℕ) (regs : List UInt16) : Prop :=
  (s.d.dirty_lo_ < lo ∧ s.d.dirty_hi_ ≤ hi) ∨
    ((∀ i, lo ≤ i → i < hi → s.d.out_.buf_[i]? = copied lo regs i) ∧
      (s.d.dirty_hi_ ≤ hi ∨
        ∀ i, s.d.dirty_lo_ ≤ i → i < lo → s.d.out_.buf_[i]? = byte_of s.gw i))

instance (s : State) (lo hi : ℕ) (regs : List UInt16) : Decidable (ClearLosesNothing s lo hi regs) :=
  inferInstanceAs (Decidable (_ ∨ _))

/-- The condition on a step: the third critical section loses nothing. -/
def StepOk (s : State) (e : Event) : Prop :=
  match e, s.flush with
  | .flush_clear, .sending lo hi regs _ => ClearLosesNothing s lo hi regs
  | _, _ => True

instance (s : State) (e : Event) : Decidable (StepOk s e) := by
  unfold StepOk
  split <;> infer_instance

/-! ## The invariant -/

/-- What holds of the registers copied for a flush: they are inside the area,
the span they were copied for is still dirty, so is whatever was staged over
them since, and the acknowledged ones are in the gateway. -/
structure SendingInv (s : State) (lo hi : ℕ) (regs : List UInt16) (sent : ℕ) : Prop where
  lt : lo < hi
  le : hi ≤ s.d.out_.size
  dirty : ∀ i, lo ≤ i → i < hi → s.d.Dirty i
  length : regs.length = word_count lo hi
  sent_le : sent ≤ regs.length
  restaged : ∀ i, 2 * first_word lo ≤ i → i < 2 * (first_word lo + regs.length) →
    s.d.out_.buf_[i]? ≠ copied lo regs i → s.d.Dirty i
  delivered : ∀ i, 2 * first_word lo ≤ i → i < 2 * (first_word lo + sent) →
    byte_of s.gw i = copied lo regs i

structure Inv (s : State) : Prop where
  only_dirty : s.d.cfg_.write_only_dirty = true
  size : s.d.out_.size = 2 * s.gw.length
  small : s.gw.length < 2 ^ 16
  hi_le : s.d.dirty_hi_ ≤ s.d.out_.size
  lost : s.connected = true → NothingLost s
  linked : s.flush ≠ .idle → s.connected = true
  span : ∀ lo hi, s.flush = .span lo hi →
    lo < hi ∧ hi ≤ s.d.out_.size ∧ ∀ i, lo ≤ i → i < hi → s.d.Dirty i
  sending : ∀ lo hi regs sent, s.flush = .sending lo hi regs sent → SendingInv s lo hi regs sent

/-! ## The requests -/

theorem length_chunk_le {regs : List UInt16} {sent : ℕ} (h : sent ≤ regs.length) :
    (chunk regs sent).length ≤ regs.length - sent := by
  rw [length_chunk h]
  exact Nat.min_le_right _ _

theorem byte_of_chunk {regs : List UInt16} {sent i : ℕ} (hi : i < 2 * (chunk regs sent).length) :
    byte_of (chunk regs sent) i = byte_of regs (i + 2 * sent) := by
  unfold chunk at hi ⊢
  rw [List.length_take] at hi
  exact byte_of_take_drop (by omega)

section Store

variable {s : State} {lo hi : ℕ} {regs : List UInt16} {sent : ℕ}

/-- The registers of a flush lie inside the gateway's area. -/
theorem SendingInv.fits (h : SendingInv s lo hi regs sent) (hsize : s.d.out_.size = 2 * s.gw.length) :
    first_word lo + regs.length ≤ s.gw.length := by
  have hlen := h.length
  have hle := h.le
  have hlt := h.lt
  unfold word_count at hlen
  unfold first_word
  omega

/-- A request puts the copied bytes where they belong... -/
theorem byte_of_store_mid (h : SendingInv s lo hi regs sent)
    (hsize : s.d.out_.size = 2 * s.gw.length) {i : ℕ} (hlo : 2 * (first_word lo + sent) ≤ i)
    (hhi : i < 2 * (first_word lo + sent + (chunk regs sent).length)) :
    byte_of (store s lo regs sent) i = copied lo regs i := by
  have hfit := h.fits hsize
  have hch := length_chunk_le h.sent_le
  have hsent := h.sent_le
  unfold store
  rw [byte_of_splice_mid (by omega) hlo hhi, byte_of_chunk (by omega)]
  unfold copied
  congr 1
  omega

/-- ... and changes no other byte. -/
theorem byte_of_store_out (h : SendingInv s lo hi regs sent)
    (hsize : s.d.out_.size = 2 * s.gw.length) {i : ℕ}
    (hi : i < 2 * (first_word lo + sent) ∨
      2 * (first_word lo + sent + (chunk regs sent).length) ≤ i) :
    byte_of (store s lo regs sent) i = byte_of s.gw i := by
  have hfit := h.fits hsize
  have hch := length_chunk_le h.sent_le
  have hsent := h.sent_le
  unfold store
  exact byte_of_splice_out (by omega) hi

theorem length_store (h : SendingInv s lo hi regs sent)
    (hsize : s.d.out_.size = 2 * s.gw.length) :
    (store s lo regs sent).length = s.gw.length := by
  have hfit := h.fits hsize
  have hch := length_chunk_le h.sent_le
  have hsent := h.sent_le
  exact length_splice (by omega)

/-- A request that reaches the registers keeps `NothingLost`: a byte it changes
now differs from the image only if it was staged again since the copy. -/
theorem nothingLost_store (h : SendingInv s lo hi regs sent)
    (hsize : s.d.out_.size = 2 * s.gw.length) (hlost : NothingLost s) :
    NothingLost { s with gw := store s lo regs sent } := by
  have hch := length_chunk_le h.sent_le
  have hsent := h.sent_le
  intro i hi hne
  simp only at hi hne
  by_cases hin : 2 * (first_word lo + sent) ≤ i ∧
      i < 2 * (first_word lo + sent + (chunk regs sent).length)
  · rw [byte_of_store_mid h hsize hin.1 hin.2] at hne
    exact h.restaged i (by omega) (by omega) hne
  · rw [byte_of_store_out h hsize (by omega)] at hne
    exact hlost i hi hne

end Store

/-! ## One step -/

/-- Staging keeps the invariant: what changes is dirty, what was dirty stays. -/
theorem inv_staged {s : State} {d : MGateDriver} {lo hi : ℕ} (h : Inv s)
    (hst : Staged s.d d lo hi) : Inv { s with d := d } := by
  have hkeep : ∀ i, ¬ d.Dirty i → d.out_.buf_[i]? = s.d.out_.buf_[i]? := by
    intro i hi
    refine hst.frame.outside i ?_
    by_contra hin
    exact hi (hst.covers i (by omega) (by omega))
  refine ⟨by rw [← h.only_dirty, hst.cfg], by rw [← h.size, ← hst.frame.size_eq], h.small, ?_, ?_,
    h.linked, ?_, ?_⟩
  · simp only [hst.frame.size_eq]
    exact hst.hi_le h.hi_le
  · intro hc i hi hne
    simp only [hst.frame.size_eq] at hi hne ⊢
    by_contra hnd
    rw [hkeep i hnd] at hne
    exact hnd (hst.grows i (h.lost hc i hi hne))
  · intro lo' hi' hf
    obtain ⟨hlt, hle, hd⟩ := h.span lo' hi' hf
    exact ⟨hlt, by simp only [hst.frame.size_eq]; exact hle,
      fun i hlo hhi => hst.grows i (hd i hlo hhi)⟩
  · intro lo' hi' regs sent hf
    have hs := h.sending lo' hi' regs sent hf
    refine ⟨hs.lt, by simp only [hst.frame.size_eq]; exact hs.le,
      fun i hlo hhi => hst.grows i (hs.dirty i hlo hhi), hs.length, hs.sent_le, ?_, hs.delivered⟩
    intro i hlo hhi hne
    simp only at hne ⊢
    by_contra hnd
    rw [hkeep i hnd] at hne
    exact hnd (hst.grows i (hs.restaged i hlo hhi hne))

/-- Marking the whole area dirty is staging nothing, everywhere. -/
theorem staged_mark {d : MGateDriver} (h : d.dirty_hi_ ≤ d.out_.size) :
    Staged d d.mark_outputs_dirty 0 d.out_.size := by
  refine ⟨rfl, ⟨rfl, rfl, rfl⟩, ⟨rfl, le_refl _, fun i _ => rfl⟩, ?_, fun i hlo hhi => ⟨hlo, hhi⟩,
    fun _ => le_refl _⟩
  intro i hi
  exact ⟨Nat.zero_le i, lt_of_lt_of_le hi.2 h⟩

/-- Reading the span moves the poll thread only. -/
theorem inv_span {s : State} {lo hi : ℕ} (h : Inv s) (hc : s.connected = true)
    (hsp : s.d.flush_span = some (lo, hi)) : Inv { s with flush := .span lo hi } := by
  have hr : lo < hi ∧ hi ≤ s.d.out_.size ∧ ∀ i, lo ≤ i → i < hi → s.d.Dirty i := by
    unfold MGateDriver.flush_span at hsp
    split at hsp
    · cases hsp
    · rw [if_pos h.only_dirty] at hsp
      split at hsp
      · cases hsp
      · cases hsp
        exact ⟨by omega, h.hi_le, fun i hlo hhi => ⟨hlo, hhi⟩⟩
  refine ⟨h.only_dirty, h.size, h.small, h.hi_le, h.lost, fun _ => hc, ?_, ?_⟩
  · intro lo' hi' hf
    cases hf
    exact hr
  · intro lo' hi' regs sent hf
    cases hf

/-- The copied registers are the image's bytes, so nothing is restaged yet. -/
theorem inv_copy {s : State} {lo hi : ℕ} {regs : List UInt16} (h : Inv s)
    (hf : s.flush = .span lo hi) (hcp : s.d.flush_copy lo hi = .ok regs) :
    Inv { s with flush := .sending lo hi regs 0 } := by
  obtain ⟨hlt, hle, hdirty⟩ := h.span lo hi hf
  have hsz := h.size
  obtain ⟨regs', hok, hlen, hbytes⟩ := flush_copy_spec hlt hle (by omega)
  have hregs : regs' = regs := by
    rw [hok] at hcp
    cases hcp
    rfl
  subst hregs
  refine ⟨h.only_dirty, h.size, h.small, h.hi_le, h.lost,
    fun _ => h.linked (by rw [hf]; nofun), ?_, ?_⟩
  · intro lo' hi' hf'
    cases hf'
  · intro lo' hi' regs sent hf'
    cases hf'
    refine ⟨hlt, hle, hdirty, hlen, Nat.zero_le _, ?_, ?_⟩
    · intro i hlo hhi hne
      -- byte `i` of the image is byte `i - 2 * first_word lo` of the copy
      refine absurd ?_ hne
      unfold copied
      rw [hbytes _ (by omega)]
      congr 1
      omega
    · intro i hlo hhi
      omega

/-- An acknowledged request delivers its registers. -/
theorem inv_acked {s : State} {lo hi : ℕ} {regs : List UInt16} {sent : ℕ} (h : Inv s)
    (hf : s.flush = .sending lo hi regs sent) :
    Inv { s with gw := store s lo regs sent,
                 flush := .sending lo hi regs (sent + (chunk regs sent).length) } := by
  have hs := h.sending lo hi regs sent hf
  have hch := length_chunk_le hs.sent_le
  have hsent := hs.sent_le
  have hlink := h.linked (by rw [hf]; nofun)
  refine ⟨h.only_dirty, by simp only [length_store hs h.size]; exact h.size,
    by simp only [length_store hs h.size]; exact h.small, h.hi_le,
    fun _ => nothingLost_store hs h.size (h.lost hlink), fun _ => hlink, ?_, ?_⟩
  · intro lo' hi' hf'
    cases hf'
  · intro lo' hi' regs' sent' hf'
    cases hf'
    refine ⟨hs.lt, hs.le, hs.dirty, hs.length, by omega, hs.restaged, ?_⟩
    intro i hlo hhi
    simp only
    by_cases hnew : 2 * (first_word lo + sent) ≤ i
    · exact byte_of_store_mid hs h.size hnew (by omega)
    · rw [byte_of_store_out hs h.size (by omega)]
      exact hs.delivered i hlo (by omega)

/-- A request that fails ends the flush with the span untouched, whether or not
it reached the registers. -/
theorem inv_failed {s : State} {lo hi : ℕ} {regs : List UInt16} {sent : ℕ} {applied c : Bool}
    (h : Inv s) (hf : s.flush = .sending lo hi regs sent) :
    Inv { s with gw := if applied then store s lo regs sent else s.gw,
                 flush := .idle, connected := c } := by
  have hs := h.sending lo hi regs sent hf
  have hlost := h.lost (h.linked (by rw [hf]; nofun))
  have hlen : (if applied then store s lo regs sent else s.gw).length = s.gw.length := by
    split
    · exact length_store hs h.size
    · rfl
  refine ⟨h.only_dirty, by simp only [hlen]; exact h.size, by simp only [hlen]; exact h.small,
    h.hi_le, ?_, fun hne => absurd rfl hne, nofun, nofun⟩
  intro _
  cases applied with
  | true => exact nothingLost_store hs h.size hlost
  | false => exact hlost

/-- **The third critical section, exactly.** When every copied register is
acknowledged, clearing the span loses nothing if and only if
`ClearLosesNothing`. -/
theorem clear_spec {s : State} {lo hi : ℕ} {regs : List UInt16} (h : Inv s)
    (hf : s.flush = .sending lo hi regs regs.length) :
    NothingLost { s with d := s.d.flush_clear lo hi, flush := .idle } ↔
      ClearLosesNothing s lo hi regs := by
  have hs := h.sending lo hi regs regs.length hf
  have hlost := h.lost (h.linked (by rw [hf]; nofun))
  have hlt := hs.lt
  have hlen := hs.length
  have hfirst := hs.dirty lo (le_refl _) hlt
  have hlast := hs.dirty (hi - 1) (by omega) (by omega)
  unfold word_count at hlen
  unfold Dirty at hfirst hlast
  have hdel : ∀ i, lo ≤ i → i < hi → byte_of s.gw i = copied lo regs i := by
    intro i hlo hhi
    exact hs.delivered i (by unfold first_word; omega) (by unfold first_word; omega)
  unfold MGateDriver.flush_clear ClearLosesNothing
  by_cases hall : s.d.dirty_lo_ ≥ lo ∧ s.d.dirty_hi_ ≤ hi
  · -- the whole span is dropped
    rw [if_pos hall]
    constructor
    · intro hn
      refine .inr ⟨fun i hlo hhi => ?_, .inl hall.2⟩
      by_contra hne
      rw [← hdel i hlo hhi] at hne
      have hd := hn i (by have := hs.le; simp only; omega) hne
      unfold Dirty at hd
      simp only at hd
      omega
    · rintro (hcond | ⟨hcond, -⟩) i hi hne
      · omega
      · obtain ⟨h1, h2⟩ := hlost i hi hne
        refine absurd ?_ hne
        simp only
        rw [hcond i (by omega) (by omega), hdel i (by omega) (by omega)]
  · rw [if_neg hall]
    by_cases hup : s.d.dirty_lo_ < hi ∧ s.d.dirty_hi_ > hi
    · -- only the part above the span is kept
      rw [if_pos hup]
      constructor
      · intro hn
        refine .inr ⟨fun i hlo hhi => ?_, .inr fun i hlo hhi => ?_⟩
        · by_contra hne
          rw [← hdel i hlo hhi] at hne
          have hd := hn i (by have := hs.le; simp only; omega) hne
          unfold Dirty at hd
          simp only at hd
          omega
        · by_contra hne
          have hd := hn i (by have := hs.le; simp only; omega) hne
          unfold Dirty at hd
          simp only at hd
          omega
      · rintro (hcond | ⟨hcond, hbelow⟩) i hin hne
        · omega
        · obtain ⟨h1, h2⟩ := hlost i hin hne
          by_cases hge : hi ≤ i
          · exact ⟨hge, h2⟩
          · refine absurd ?_ hne
            simp only
            by_cases hlo : lo ≤ i
            · rw [hcond i hlo (by omega), hdel i hlo (by omega)]
            · rcases hbelow with hbelow | hbelow
              · omega
              · exact hbelow i h1 (by omega)
    · -- the span has grown downwards only: nothing is dropped
      rw [if_neg hup]
      constructor
      · intro _
        exact .inl (by omega)
      · intro _
        exact hlost

theorem flush_clear_hi_le {d : MGateDriver} {lo hi : ℕ} (h : d.dirty_hi_ ≤ d.out_.size) :
    (d.flush_clear lo hi).dirty_hi_ ≤ d.out_.size := by
  unfold MGateDriver.flush_clear
  split
  · exact Nat.zero_le _
  · split
    · exact h
    · exact h

theorem flush_clear_cfg_out (d : MGateDriver) (lo hi : ℕ) :
    (d.flush_clear lo hi).cfg_ = d.cfg_ ∧ (d.flush_clear lo hi).out_ = d.out_ := by
  unfold MGateDriver.flush_clear
  split
  · exact ⟨rfl, rfl⟩
  · split
    · exact ⟨rfl, rfl⟩
    · exact ⟨rfl, rfl⟩

theorem inv_clear {s : State} {lo hi : ℕ} {regs : List UInt16} (h : Inv s)
    (hf : s.flush = .sending lo hi regs regs.length) (hok : ClearLosesNothing s lo hi regs) :
    Inv { s with d := s.d.flush_clear lo hi, flush := .idle } := by
  obtain ⟨hcfg, hout⟩ := flush_clear_cfg_out s.d lo hi
  refine ⟨by simp only [hcfg]; exact h.only_dirty, by simp only [hout]; exact h.size, h.small, ?_,
    fun _ => (clear_spec h hf).mpr hok, fun hne => absurd rfl hne, nofun, nofun⟩
  simp only [hout]
  exact flush_clear_hi_le h.hi_le

theorem inv_connect {s : State} (h : Inv s) (hc : s.connected = false) :
    Inv { s with d := s.d.mark_outputs_dirty, connected := true } := by
  have hidle : s.flush = .idle := by
    by_contra hne
    rw [h.linked hne] at hc
    cases hc
  refine ⟨h.only_dirty, h.size, h.small, le_refl _, ?_, fun _ => rfl, ?_, ?_⟩
  · intro _ i hi _
    exact ⟨Nat.zero_le i, hi⟩
  · intro lo hi hf
    simp only [hidle] at hf
    cases hf
  · intro lo hi regs sent hf
    simp only [hidle] at hf
    cases hf

/-- **The step lemma.** Every event keeps the invariant, the clearing ones under
their condition. -/
theorem step_inv {F : FloatCast} {s t : State} {e : Event} (h : Inv s) (hok : StepOk s e)
    (hst : step F s e = some t) : Inv t := by
  have hsmall : s.d.out_.size < 2 ^ 64 := by
    have h1 := h.size
    have h2 := h.small
    omega
  cases e with
  | stage w =>
      simp only [step] at hst
      split at hst
      · rename_i d hw
        cases hst
        obtain ⟨lo, hi, hs⟩ := WriteCall.apply_spec hsmall hw
        exact inv_staged h hs
      · cases hst
      · cases hst
        exact h
  | mark_outputs_dirty =>
      cases hst
      exact inv_staged h (staged_mark h.hi_le)
  | flush_span =>
      simp only [step] at hst
      split at hst
      · rename_i hf hc
        split at hst
        · cases hst
          exact h
        · rename_i lo hi hsp
          cases hst
          exact inv_span h hc hsp
      · cases hst
  | flush_copy =>
      simp only [step] at hst
      split at hst
      · rename_i lo hi hf
        split at hst
        · rename_i regs hcp
          cases hst
          exact inv_copy h hf hcp
        · cases hst
      · cases hst
  | send o =>
      simp only [step] at hst
      split at hst
      · rename_i lo hi regs sent hf
        split at hst
        · cases o with
          | acked => cases hst; exact inv_acked h hf
          | failed applied => cases hst; exact inv_failed h hf
          | broken applied => cases hst; exact inv_failed h hf
        · cases hst
      · cases hst
  | flush_clear =>
      simp only [step] at hst
      split at hst
      · rename_i lo hi regs sent hf
        split at hst
        · rename_i hall
          cases hst
          subst hall
          -- the one step that needs the condition
          refine inv_clear h hf ?_
          unfold StepOk at hok
          simpa only [hf] using hok
        · cases hst
      · cases hst
  | connect =>
      simp only [step] at hst
      split at hst
      · cases hst
      · rename_i hc
        cases hst
        exact inv_connect h (by simpa using hc)
  | gateway regs =>
      simp only [step] at hst
      split at hst
      · rename_i hc
        cases hst
        -- the registers change only while the link is down, and then no flush is under way
        have hidle : s.flush = .idle := by
          by_contra hne
          rw [h.linked hne] at hc
          cases hc.1
        refine ⟨h.only_dirty, by simp only [hc.2]; exact h.size, by simp only [hc.2]; exact h.small,
          h.hi_le, ?_, fun hne => absurd hidle hne, ?_, ?_⟩
        · intro hc'
          simp only [hc.1] at hc'
          cases hc'
        · intro lo hi hf
          simp only [hidle] at hf
          cases hf
        · intro lo hi regs' sent hf
          simp only [hidle] at hf
          cases hf
      · cases hst

theorem init_inv {s : State} (h : Init s) : Inv s := by
  obtain ⟨cfg, tags, hdirty, hd, hgw, hf, hc⟩ := h
  have hsize : s.d.out_.size = 2 * s.gw.length := by
    rw [hd, hgw]
    simp only [MGateDriver.create, ProcessImage.resize, ProcessImage.size, List.length_replicate]
    omega
  refine ⟨by rw [hd]; exact hdirty, hsize, by rw [hgw]; exact cfg.output_word_count.toNat_lt,
    by rw [hd]; exact Nat.zero_le _, ?_, ?_, ?_, ?_⟩
  · intro hc'
    rw [hc] at hc'
    cases hc'
  · intro hne
    exact absurd hf hne
  · intro lo hi hf'
    rw [hf] at hf'
    cases hf'
  · intro lo hi regs sent hf'
    rw [hf] at hf'
    cases hf'

theorem reach_inv {F : FloatCast} {s : State} (h : Reach (step F) StepOk Init s) : Inv s :=
  h.invariant (fun _ => init_inv) (fun _ _ _ hinv hok hst => step_inv hinv hok hst)

/-! ## Whole runs -/

/-- **No staged output is lost as long as no clear drops an unsent one.** Over
every interleaving of the write calls with the sections of `flush_outputs`, the
failures and the reconnects: whenever the link is up and no flush is running,
an output byte that differs from the gateway's is inside the dirty span. The
condition is exact: a clear that does not meet it loses a byte on the spot. -/
theorem no_staged_output_lost (F : FloatCast) {s : State} (h : Reach (step F) StepOk Init s) :
    (s.flush = .idle → s.connected = true → NothingLost s) ∧
      ∀ t, step F s .flush_clear = some t → (NothingLost t ↔ StepOk s .flush_clear) := by
  have hinv := reach_inv h
  refine ⟨fun _ hc => hinv.lost hc, ?_⟩
  intro t ht
  simp only [step] at ht
  split at ht
  · rename_i lo hi regs sent hf
    split at ht
    · rename_i hall
      cases ht
      subst hall
      rw [clear_spec hinv hf]
      unfold StepOk
      simp only [hf]
    · cases ht
  · cases ht

/-! ### A two-register area with one control word -/

def control_word_only : State where
  d := { MGateDriver.create { output_word_count := 2 } with
    tags_ := [{ name := "ControlWord", area := .Output, type := .U16 }] }
  gw := [0, 0]
  flush := .idle
  connected := false

theorem init_control_word_only : Init control_word_only :=
  ⟨{ output_word_count := 2 }, [{ name := "ControlWord", area := .Output, type := .U16 }],
    rfl, rfl, rfl, rfl, rfl⟩

/-- Connect, then one undisturbed flush of the whole area. -/
def full_retransmission : List Event :=
  [.connect, .flush_span, .flush_copy, .send .acked, .flush_clear]

/-- The off command `0x0002` lands after the registers of the run command
`0x8002` were copied. -/
def off_behind_the_copy : List Event :=
  [.stage (.write_int "ControlWord" 0x8002), .flush_span, .flush_copy,
    .stage (.write_int "ControlWord" 0x0002), .send .acked, .flush_clear]

/-- After a full retransmission over a link that stays up, the staged off
command is not dirty and the gateway holds the run command. -/
theorem off_behind_the_copy_lost :
    Init control_word_only ∧
      ∃ s₁ s₂, run (step no_floats) control_word_only full_retransmission = some s₁ ∧
        run (step no_floats) s₁ off_behind_the_copy = some s₂ ∧ s₂.flush = .idle ∧
        s₂.connected = true ∧ s₂.gw = [0x8002, 0] ∧ s₂.d.out_.buf_ = [0x00, 0x02, 0, 0] ∧
        ¬ NothingLost s₂ := by
  refine ⟨init_control_word_only, _, _, rfl, rfl, rfl, rfl, by decide, by decide, ?_⟩
  intro hn
  have hd := hn 0 (by decide) (by decide)
  exact absurd hd.2 (by decide)

/-- The same commands without the race: the off command is staged once the
flush of the run command is over. -/
def off_behind_the_flush : List Event :=
  full_retransmission ++ [.stage (.write_int "ControlWord" 0x8002), .flush_span, .flush_copy,
    .send .acked, .flush_clear, .stage (.write_int "ControlWord" 0x0002)]

theorem off_behind_the_flush_dirty :
    ∃ s, run (guarded (step no_floats) StepOk) control_word_only off_behind_the_flush = some s ∧
      s.flush = .idle ∧ s.connected = true ∧ NothingLost s := by
  refine ⟨_, rfl, rfl, rfl, ?_⟩
  exact (no_staged_output_lost no_floats
    (.guarded_run off_behind_the_flush (.init init_control_word_only) rfl)).1 rfl rfl

end Mgate.DirtySpan
