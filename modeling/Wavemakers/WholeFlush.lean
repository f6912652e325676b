/-
Flushes of the whole output area.

With `write_only_dirty` off every cycle sends all of the output area, in requests of at
most 123 registers. The drive's outputs are the first six registers, so they travel in
the first request: a copy takes them at one moment (`Flow.copied`) and the gateway
takes them over at one moment (`Flow.reached`). `poll_flow` says that no other step of
the poll thread has to do with them.
-/
import Wavemakers.CommandValues

set_option autoImplicit false

namespace Mgate.Threads

open MGateDriver Splice Interleave

/-! ## Registers as an image -/

def image (regs : List UInt16) : ProcessImage := ⟨regs.flatMap fun r => [hi r, lo r]⟩

theorem image_byte (regs : List UInt16) (i : ℕ) : (image regs).buf_[i]? = byte_of regs i :=
  getElem?_flatMap_bytes regs i

/-- The drive's outputs are the same in both. -/
def Agree (img img' : ProcessImage) : Prop := ∀ i, i < 12 → img.buf_[i]? = img'.buf_[i]?

section Agree

variable {img img' : ProcessImage}

theorem Agree.raw32 (h : Agree img img') {off : ℕ} (hoff : off + 4 ≤ 12) :
    raw32 img off = raw32 img' off := raw32_congr fun i _ hi => h i (by omega)

theorem Agree.target (h : Agree img img') : target img = target img' := h.raw32 (by decide)

theorem Agree.velocity (h : Agree img img') : velocity img = velocity img' := h.raw32 (by decide)

theorem Agree.control (h : Agree img img') : control img = control img' := by
  unfold Threads.control
  simp only [List.getD_eq_getElem?_getD, h 0 (by decide), h 1 (by decide)]

end Agree

/-! ## What a step of the poll thread does with them -/

/-- The registers whose first request is due. -/
def first : Poll → Option (List UInt16)
  | .send _ _ regs sent => if sent = 0 then some regs else none
  | _ => none

inductive Flow where
  /-- the outputs are copied for a request -/
  | copied
  /-- the request with them has reached the registers -/
  | reached
  | none
  deriving DecidableEq, Repr

def flow (s : State) (i : Input) : Flow :=
  match s.poll, i with
  | .copy _ _, _ => .copied
  | .send _ _ regs sent, .write r applied =>
      if sent = 0 ∧ 0 < regs.length ∧ (r.ok = true ∨ applied = true) then .reached else .none
  | _, _ => .none

def flushing : Poll → Bool
  | .copy _ _ | .send _ _ _ _ => true
  | _ => false

/-- The poll thread flushes the whole area. -/
structure Whole (s : State) : Prop where
  all : s.drv.cfg_.write_only_dirty = false
  copy : ∀ lo hi, s.poll = .copy lo hi → lo = 0 ∧ hi = s.drv.out_.size
  send : ∀ lo hi regs sent, s.poll = .send lo hi regs sent →
    lo = 0 ∧ hi = s.drv.out_.size ∧ (sent = 0 ∨ 6 ≤ sent)

section Steps

variable {F : FloatCast} {s t : State}

/-- Away from a flush only the setting counts. -/
theorem Whole.of_idle (h : Whole s) (hcfg : t.drv.cfg_ = s.drv.cfg_)
    (hidle : flushing t.poll = false) : Whole t := by
  refine ⟨by rw [hcfg]; exact h.all, fun lo hi hp => ?_, fun lo hi regs sent hp => ?_⟩
  · rw [hp] at hidle
    cases hidle
  · rw [hp] at hidle
    cases hidle

theorem first_of_idle {p : Poll} (h : flushing p = false) : first p = none := by
  cases p <;> first
    | rfl
    | cases h

theorem exec_whole {o : Op} {r : Resp o} (hw : Wired s) (h : Whole s)
    (hx : exec F s o = some (t, r)) :
    Whole t ∧ t.gw = s.gw ∧ (first t.poll = first s.poll ∨ first t.poll = none) := by
  have hex := exec_spec hw hx
  rcases hex.poll with hp | ⟨-, hp⟩ | ⟨-, hp⟩
  · refine ⟨⟨by rw [hex.shape.cfg]; exact h.all, ?_, ?_⟩, hex.gw, .inl (by rw [hp])⟩
    · rw [hp, hex.shape.size]
      exact h.copy
    · rw [hp, hex.shape.size]
      exact h.send
  · have hidle : flushing t.poll = false := by rw [hp]; rfl
    exact ⟨h.of_idle hex.shape.cfg hidle, hex.gw, .inr (first_of_idle hidle)⟩
  · have hidle : flushing t.poll = false := by rw [hp]; rfl
    exact ⟨h.of_idle hex.shape.cfg hidle, hex.gw, .inr (first_of_idle hidle)⟩

/-- What a step with this flow does. -/
def Flowed (s t : State) : Flow → Prop
  | .copied => ∃ regs, first t.poll = some regs ∧ Agree (image regs) s.drv.out_ ∧ t.gw = s.gw
  | .reached => ∃ regs, first s.poll = some regs ∧ first t.poll = none ∧
      Agree (image t.gw) (image regs)
  | .none => first t.poll = none ∧ Agree (image t.gw) (image s.gw)

theorem Agree.refl (img : ProcessImage) : Agree img img := fun _ _ => rfl

section Requests

variable {hi sent : ℕ} {regs : List UInt16}

/-- The registers of a whole flush are those of the area. -/
theorem length_whole (hw : Wired s) (h : Whole s) {lo : ℕ} (hp : s.poll = .send lo hi regs sent) :
    lo = 0 ∧ regs.length = s.gw.length ∧ 6 ≤ regs.length := by
  have hfits := hw.fits
  rw [hp] at hfits
  obtain ⟨-, -, hlen, -⟩ := hfits
  obtain ⟨rfl, rfl, -⟩ := h.send _ _ _ _ hp
  have hsize := hw.out_size
  have hgw := hw.gw_length
  have hroom := hw.room
  unfold word_count at hlen
  exact ⟨rfl, by omega, by omega⟩

/-- The first request brings the drive's outputs. -/
theorem acknowledge_first (hw : Wired s) (h : Whole s) (hp : s.poll = .send 0 hi regs 0) :
    Agree (image (acknowledge s 0 regs 0)) (image regs) := by
  obtain ⟨-, hlen, hroom⟩ := length_whole hw h hp
  have hchunk : (chunk regs 0).length = write_chunk (regs.length - 0) := length_chunk (Nat.zero_le _)
  unfold write_chunk kMaxWriteRegs at hchunk
  intro i hi
  rw [image_byte, image_byte, acknowledge, first_word, Nat.zero_div, Nat.zero_add,
    byte_of_splice_mid (by omega) (Nat.zero_le _) (by omega)]
  unfold byte_of
  rw [getElem?_chunk (by omega), Nat.mul_zero, Nat.sub_zero, Nat.zero_add]

/-- The others do not. -/
theorem acknowledge_later (hw : Wired s) (h : Whole s) (hp : s.poll = .send 0 hi regs sent)
    (hmore : sent < regs.length) (hsent : 6 ≤ sent) :
    Agree (image (acknowledge s 0 regs sent)) (image s.gw) := by
  obtain ⟨-, hlen, -⟩ := length_whole hw h hp
  have hchunk : (chunk regs sent).length = write_chunk (regs.length - sent) := length_chunk hmore.le
  unfold write_chunk at hchunk
  intro i hi
  rw [image_byte, image_byte, acknowledge, first_word, Nat.zero_div, Nat.zero_add,
    byte_of_splice_out (by omega) (.inl (by omega))]

end Requests

/-- A request of a flush. -/
theorem send_flow {i : Input} {lo hi sent : ℕ} {regs : List UInt16} (hw : Wired s) (h : Whole s)
    (hp : s.poll = .send lo hi regs sent)
    (hx : (if sent < regs.length then
      match i with
      | .write r applied =>
          if r.ok then
            some { s with gw := acknowledge s lo regs sent,
                          poll := .send lo hi regs (sent + (chunk regs sent).length) }
          else
            some { s with gw := if applied then acknowledge s lo regs sent else s.gw,
                          connected := s.connected && !broken r,
                          poll := .write_failed r }
      | _ => none
    else some { s with drv := s.drv.flush_clear lo hi, poll := .inputs }) = some t) :
    Whole t ∧ Flowed s t (flow s i) := by
  obtain ⟨rfl, hlen, hroom⟩ := length_whole hw h hp
  obtain ⟨-, rfl, hcut⟩ := h.send _ _ _ _ hp
  by_cases hmore : sent < regs.length
  · rw [if_pos hmore] at hx
    have hchunk : (chunk regs sent).length = write_chunk (regs.length - sent) := length_chunk hmore.le
    unfold write_chunk kMaxWriteRegs at hchunk
    split at hx
    · rename_i r applied
      -- a request that succeeds is followed by the next one
      have hnext : ∀ u : State, u.drv = s.drv →
          u.poll = .send 0 s.drv.out_.size regs (sent + (chunk regs sent).length) →
          Whole u ∧ first u.poll = none := by
        intro u hu hup
        refine ⟨⟨by rw [hu]; exact h.all, ?_, ?_⟩, ?_⟩
        · rw [hup]
          nofun
        · rw [hup, hu]
          rintro _ _ _ _ ⟨⟩
          exact ⟨rfl, rfl, .inr (by omega)⟩
        · rw [hup]
          exact if_neg (by omega)
      by_cases hzero : sent = 0
      · subst hzero
        have hack := acknowledge_first hw h hp
        have hfirst : first s.poll = some regs := by rw [hp]; rfl
        have hflow : flow s (.write r applied) =
            if r.ok = true ∨ applied = true then .reached else .none := by
          simp only [flow, hp, hmore, true_and]
        by_cases hok : r.ok = true
        · rw [if_pos hok] at hx
          have heq := Option.some.inj hx
          obtain ⟨hwhole, hnone⟩ := hnext t (by rw [← heq]) (by rw [← heq])
          have hgw : t.gw = acknowledge s 0 regs 0 := by rw [← heq]
          rw [hflow, if_pos (.inl hok)]
          exact ⟨hwhole, regs, hfirst, hnone, by rw [hgw]; exact hack⟩
        · rw [if_neg hok] at hx
          have heq := Option.some.inj hx
          have hidle : flushing t.poll = false := by rw [← heq]; rfl
          have hwhole : Whole t := h.of_idle (by rw [← heq]) hidle
          by_cases happ : applied = true
          · have hgw : t.gw = acknowledge s 0 regs 0 := by rw [← heq]; exact if_pos happ
            rw [hflow, if_pos (.inr happ)]
            exact ⟨hwhole, regs, hfirst, first_of_idle hidle, by rw [hgw]; exact hack⟩
          · have hgw : t.gw = s.gw := by rw [← heq]; exact if_neg happ
            rw [hflow, if_neg (not_or.mpr ⟨hok, happ⟩)]
            exact ⟨hwhole, first_of_idle hidle, by rw [hgw]; exact .refl _⟩
      · have hack := acknowledge_later hw h hp hmore (hcut.resolve_left hzero)
        have hflow : flow s (.write r applied) = .none := by
          simp only [flow, hp, hzero, false_and, if_false]
        rw [hflow]
        by_cases hok : r.ok = true
        · rw [if_pos hok] at hx
          have heq := Option.some.inj hx
          obtain ⟨hwhole, hnone⟩ := hnext t (by rw [← heq]) (by rw [← heq])
          exact ⟨hwhole, hnone, by rw [← heq]; exact hack⟩
        · rw [if_neg hok] at hx
          cases hx
          refine ⟨h.of_idle rfl rfl, rfl, ?_⟩
          simp only
          split
          · exact hack
          · exact .refl _
    · cases hx
  · rw [if_neg hmore] at hx
    cases hx
    have hsent : sent ≠ 0 := by omega
    have hflow : flow s i = .none := by
      unfold flow
      rw [hp]
      cases i <;> simp only [hsent, false_and, if_false]
    rw [hflow]
    exact ⟨h.of_idle (sameShape_clear _ _ _).cfg rfl, rfl, .refl _⟩

/-- **The drive's outputs on their way.** They are copied at once and arrive at once. -/
theorem poll_flow {i : Input} (hw : Wired s) (h : Whole s) (hx : poll_step F s i = some t) :
    Whole t ∧ Flowed s t (flow s i) := by
  have hpolled := poll_spec hw hx
  -- most steps are away from a flush before and after
  have quiet : t.gw = s.gw → flushing t.poll = false → flow s i = .none →
      Whole t ∧ Flowed s t (flow s i) := by
    intro hgw hidle hflow
    refine ⟨h.of_idle hpolled.shape.cfg hidle, ?_⟩
    rw [hflow]
    refine ⟨first_of_idle hidle, ?_⟩
    rw [hgw]
    exact .refl _
  unfold poll_step at hx
  cases hp : s.poll <;> simp only [hp] at hx
  case span =>
    have hflow : flow s i = .none := by
      unfold flow
      rw [hp]
    split at hx
    · cases hx
      exact quiet rfl rfl hflow
    · rename_i lo hi hspan
      cases hx
      -- all of the area, since nothing is skipped
      have hwhole : lo = 0 ∧ hi = s.drv.out_.size := by
        unfold flush_span at hspan
        rw [h.all] at hspan
        split at hspan
        · cases hspan
        · simp only [Bool.false_eq_true, if_false, Option.some.injEq, Prod.mk.injEq] at hspan
          exact ⟨hspan.1.symm, hspan.2.symm⟩
      refine ⟨⟨h.all, fun lo' hi' hp' => ?_, fun _ _ _ _ hp' => nomatch hp'⟩, ?_⟩
      · cases hp'
        exact hwhole
      · rw [hflow]
        exact ⟨rfl, .refl _⟩
  case copy lo hi =>
    obtain ⟨rfl, rfl⟩ := h.copy lo hi hp
    obtain ⟨regs, hregs, rfl⟩ := Option.map_eq_some_iff.mp hx
    have hfits := hw.fits
    rw [hp] at hfits
    have hsize := hw.out_size
    have hroom := hw.room
    obtain ⟨regs', hok, hlen, hbytes⟩ := flush_copy_spec hfits.1 hfits.2 (by omega)
    rw [hok] at hregs
    cases hregs
    refine ⟨⟨h.all, fun _ _ hp' => (nomatch hp'), fun _ _ _ _ hp' => ?_⟩, ?_⟩
    · cases hp'
      exact ⟨rfl, rfl, .inl rfl⟩
    · have hflow : flow s i = .copied := by
        unfold flow
        rw [hp]
      rw [hflow]
      refine ⟨regs, rfl, fun i hi => ?_, rfl⟩
      rw [image_byte, hbytes i (by unfold word_count; omega)]
      simp only [first_word, Nat.zero_div, Nat.zero_mul, Nat.zero_add]
  case send lo hi regs sent => exact send_flow hw h hp hx
  case zero | latch_zero =>
    obtain ⟨d, hd, -, -⟩ := set_control_spec F hw 0
    rw [hd, Option.map_some, Option.some.injEq] at hx
    cases hx
    refine quiet rfl rfl ?_
    unfold flow
    rw [hp]
  all_goals
    have hflow : flow s i = .none := by
      unfold flow
      rw [hp]
    -- what is left branches on an answer or on a flag, away from a flush
    repeat' split at hx
    all_goals
      first
      | cases hx
      | (obtain ⟨_, -, heq⟩ := Option.map_eq_some_iff.mp hx
         cases heq)
    all_goals
      refine quiet rfl ?_ hflow
      first
      | rfl
      | (simp only
         split
         · rfl
         · rfl)

theorem step_whole {e : Event} (hw : Wired s) (h : Whole s) (hs : step F s e = some t) :
    Whole t := by
  rcases step_cases hs with ⟨c, rounds, r, -, -, rfl⟩ | ⟨o, k, u, r, -, -, hx, rfl⟩ | ⟨i, -, hx⟩ |
    ⟨-, rfl⟩
  · exact ⟨h.all, h.copy, h.send⟩
  · obtain ⟨hu, -⟩ := exec_whole hw h hx
    exact ⟨hu.all, hu.copy, hu.send⟩
  · exact (poll_flow hw h hx).1
  · exact ⟨h.all, h.copy, h.send⟩

/-- The setting is fixed, and so every run flushes that way. -/
theorem reach_whole {C : State → Event → Prop} (h : Reach (step F) C Init s)
    (hall : s.drv.cfg_.write_only_dirty = false) : Whole s := by
  have hinit : ∀ s, Init s → Wired s ∧ (s.drv.cfg_.write_only_dirty = false → Whole s) := by
    intro s hi
    have hwired := init_wired hi
    obtain ⟨gateway, cfg, -, -, -, -, -, -, -, -, -, -, -, -, -, -, -, -, hpoll⟩ := hi
    refine ⟨hwired, fun hall => ⟨hall, fun lo hi hp => ?_, fun lo hi regs sent hp => ?_⟩⟩
    · rw [hpoll] at hp
      cases hp
    · rw [hpoll] at hp
      cases hp
  have hstep : ∀ s e t, (Wired s ∧ (s.drv.cfg_.write_only_dirty = false → Whole s)) → C s e →
      step F s e = some t → Wired t ∧ (t.drv.cfg_.write_only_dirty = false → Whole t) := by
    intro s e t hi _ hs
    refine ⟨step_wired hi.1 hs, fun hall => ?_⟩
    have hcfg : t.drv.cfg_ = s.drv.cfg_ := by
      rcases step_cases hs with ⟨c, rounds, r, -, -, rfl⟩ | ⟨o, k, u, r, -, -, hx, rfl⟩ |
        ⟨i, -, hx⟩ | ⟨-, rfl⟩
      · rfl
      · exact (exec_spec hi.1 hx).shape.cfg
      · exact (poll_spec hi.1 hx).shape.cfg
      · rfl
    rw [hcfg] at hall
    exact step_whole hi.1 (hi.2 hall) hs
  exact (h.invariant hinit hstep).2 hall

end Steps

end Mgate.Threads
