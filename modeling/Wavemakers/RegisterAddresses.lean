/-
The register addresses of the driver's three loops.

`flush_outputs`, `read_inputs` and `read_status` cut an area into requests of at
most 123 or 125 registers and address each by base plus offset, cast to 16 bits.
`requests` is that arithmetic before the cast, `send_chunks_eq` and
`read_chunks_eq` say that the loops of `Exchange.lean` make exactly these
requests. The constructor of the actuator checks base and count of an area one
by one and not their sum; `addresses_iff` is the check it would have needed.
-/
import Wavemakers.Exchange
import Wavemakers.IndraDrive
import Wavemakers.NodeConfig
import Wavemakers.TravelLimits

set_option autoImplicit false

namespace Mgate.Exchange

open MGateDriver

/-! ## The requests of a loop -/

/-- One iteration: the first register, before the cast, and the number of registers. -/
structure Request where
  addr : ℕ
  count : ℕ
  deriving DecidableEq, Repr

/-- The iterations over `words` registers from `base` on, at most `most` at a time,
when `got` of them are behind it. -/
def requests (most base words : ℕ) : ℕ → ℕ → List Request
  | 0, _ => []
  | fuel + 1, got =>
      if got < words then
        ⟨base + got, min most (words - got)⟩ ::
          requests most base words fuel (got + min most (words - got))
      else []

/-- Every request is for registers of the area. -/
theorem requests_inside {most base words : ℕ} (hmost : 0 < most) : ∀ {fuel got : ℕ} {q : Request},
    q ∈ requests most base words fuel got →
    0 < q.count ∧ base ≤ q.addr ∧ q.addr + q.count ≤ base + words := by
  intro fuel
  induction fuel with
  | zero =>
      intro got q hq
      cases hq
  | succ fuel ih =>
      intro got q hq
      unfold requests at hq
      split at hq
      · rcases List.mem_cons.mp hq with rfl | hq
        · refine ⟨?_, ?_, ?_⟩
          · simp only
            omega
          · exact Nat.le_add_right _ _
          · simp only
            omega
        · exact ih hq
      · cases hq

/-- Every register that is left of the area is in one of the requests. -/
theorem requests_cover {most base words : ℕ} (hmost : 0 < most) : ∀ {fuel got k : ℕ},
    words - got ≤ fuel → got ≤ k → k < words →
    ∃ q ∈ requests most base words fuel got, q.addr ≤ base + k ∧ base + k < q.addr + q.count := by
  intro fuel
  induction fuel with
  | zero =>
      intro got k hfuel hgot hk
      omega
  | succ fuel ih =>
      intro got k hfuel hgot hk
      unfold requests
      rw [if_pos (by omega)]
      by_cases hfirst : k < got + min most (words - got)
      · exact ⟨_, List.mem_cons_self, by simp only; omega, by simp only; omega⟩
      · obtain ⟨q, hq, hin⟩ := ih (by omega) (not_lt.mp hfirst) hk
        exact ⟨q, List.mem_cons_of_mem _ hq, hin⟩

/-! ## The loops make these requests -/

/-- A row of read requests, up to the first that fails. -/
def run_reads (cfg : GatewayConfig) (fc : UInt8) : List Request → World →
    World × Result × List UInt16
  | [], w => (w, {}, [])
  | q :: qs, w =>
      let r := w.request cfg (read_pdu fc (UInt16.ofNat q.addr) (UInt16.ofNat q.count)) fun c io =>
        read_registers c io fc (UInt16.ofNat q.addr) (UInt16.ofNat q.count)
      if r.2.1.ok then
        let rest := run_reads cfg fc qs r.1
        (rest.1, rest.2.1, r.2.2 ++ rest.2.2)
      else (r.1.failed r.2.1, r.2.1, [])

/-- **`read_inputs` and `read_status`**: their loop. -/
theorem read_chunks_eq (cfg : GatewayConfig) (fc : UInt8) (base : UInt16) (words : ℕ) :
    ∀ (fuel got : ℕ) (w : World), read_chunks cfg fc base words fuel got w =
      run_reads cfg fc (requests kMaxReadRegs base.toNat words fuel got) w := by
  intro fuel
  induction fuel with
  | zero =>
      intro got w
      rfl
  | succ fuel ih =>
      intro got w
      unfold read_chunks requests
      by_cases hmore : got < words
      · rw [if_pos hmore, if_pos hmore, run_reads]
        simp only [ih]
      · rw [if_neg hmore, if_neg hmore]
        rfl

/-- A row of write requests with the registers of the span, which begins at the unbounded
address `first`, up to the first that fails. -/
def run_writes (cfg : GatewayConfig) (first : ℕ) (regs : List UInt16) : List Request → World →
    World × Result
  | [], w => (w, {})
  | q :: qs, w =>
      let r := write_registers cfg w (UInt16.ofNat q.addr)
        ((regs.drop (q.addr - first)).take q.count)
      if r.2.1.ok then run_writes cfg first regs qs r.1 else (r.1.failed r.2.1, r.2.1)

/-- **`flush_outputs`**: its loop. -/
theorem send_chunks_eq (cfg : GatewayConfig) (first_word : ℕ) (regs : List UInt16) :
    ∀ (fuel sent : ℕ) (w : World), send_chunks cfg first_word regs fuel sent w =
      run_writes cfg (cfg.output_base_reg.toNat + first_word) regs
        (requests kMaxWriteRegs (cfg.output_base_reg.toNat + first_word) regs.length fuel sent)
        w := by
  intro fuel
  induction fuel with
  | zero =>
      intro sent w
      rfl
  | succ fuel ih =>
      intro sent w
      unfold send_chunks requests
      by_cases hmore : sent < regs.length
      · rw [if_pos hmore, if_pos hmore, run_writes]
        simp only [Nat.add_sub_cancel_left, length_chunk hmore.le, ih]
        rfl
      · rw [if_neg hmore, if_neg hmore]
        rfl

/-! ## The three areas -/

/-- The requests of `flush_outputs` for the span `[lo, hi)`. -/
def write_requests (cfg : GatewayConfig) (lo hi : ℕ) : List Request :=
  requests kMaxWriteRegs (cfg.output_base_reg.toNat + first_word lo) (word_count lo hi)
    (word_count lo hi) 0

def input_requests (cfg : GatewayConfig) : List Request :=
  requests kMaxReadRegs cfg.input_base_reg.toNat cfg.input_word_count.toNat
    cfg.input_word_count.toNat 0

def status_requests (cfg : GatewayConfig) : List Request :=
  requests kMaxReadRegs cfg.status_base_reg.toNat cfg.status_word_count.toNat
    cfg.status_word_count.toNat 0

/-- A flush makes these requests, in this order, until one fails. -/
theorem flush_outputs_requests {d : MGateDriver} {lo hi : ℕ} {regs : List UInt16}
    (hspan : d.flush_span = some (lo, hi)) (hcopy : d.flush_copy lo hi = .ok regs)
    (hlen : regs.length = word_count lo hi) (w : World) :
    flush_outputs d w =
      let r := run_writes d.cfg_ (d.cfg_.output_base_reg.toNat + first_word lo) regs
        (write_requests d.cfg_ lo hi) w
      if r.2.ok then .ok (d.flush_clear lo hi, r.1, {}) else .ok (d, r.1, r.2) := by
  unfold flush_outputs write_requests
  rw [hspan]
  simp only [hcopy, bind, Except.bind, send_chunks_eq, hlen]

theorem read_inputs_requests (cfg : GatewayConfig) (fc : UInt8) (w : World) :
    read_chunks cfg fc cfg.input_base_reg cfg.input_word_count.toNat cfg.input_word_count.toNat 0 w =
      run_reads cfg fc (input_requests cfg) w := read_chunks_eq cfg fc _ _ _ _ w

theorem read_status_requests (cfg : GatewayConfig) (fc : UInt8) (w : World) :
    read_chunks cfg fc cfg.status_base_reg cfg.status_word_count.toNat
        cfg.status_word_count.toNat 0 w =
      run_reads cfg fc (status_requests cfg) w := read_chunks_eq cfg fc _ _ _ _ w

/-! ## Addresses beyond the last register -/

/-- No register of the request is beyond the last address, the cast keeps the first one,
and all of them belong to the area of `count` registers from `base` on. -/
def Request.Stays (q : Request) (base count : ℕ) : Prop :=
  (UInt16.ofNat q.addr).toNat = q.addr ∧
    ∀ j, j < q.count → q.addr + j ≤ 65535 ∧ base ≤ q.addr + j ∧ q.addr + j < base + count

/-- Requests for a part of an area that ends within the address space stay. -/
theorem stays_of_le {most base words base' count : ℕ} (hmost : 0 < most)
    (hpart : base' ≤ base ∧ base + words ≤ base' + count) (hend : base' + count ≤ 65536)
    {q : Request} (hq : q ∈ requests most base words words 0) : q.Stays base' count := by
  obtain ⟨hpos, hlo, hhi⟩ := requests_inside hmost hq
  refine ⟨?_, fun j hj => ⟨by omega, by omega, by omega⟩⟩
  rw [UInt16.toNat_ofNat', Nat.mod_eq_of_lt (by omega)]

/-- If all requests for an area stay, its last register has an address. -/
theorem le_of_stays {most base words : ℕ} (hmost : 0 < most) (hwords : 0 < words)
    (h : ∀ q ∈ requests most base words words 0, q.Stays base words) : base + words ≤ 65536 := by
  have hcover : ∃ q ∈ requests most base words words 0,
      q.addr ≤ base + (words - 1) ∧ base + (words - 1) < q.addr + q.count :=
    requests_cover hmost (by omega) (Nat.zero_le _) (by omega)
  obtain ⟨q, hq, hle, hlt⟩ := hcover
  have hlast := ((h q hq).2 (base + (words - 1) - q.addr) (by omega)).1
  omega

theorem area_stays_iff {most base words : ℕ} (hmost : 0 < most) :
    (∀ q ∈ requests most base words words 0, q.Stays base words) ↔
      words = 0 ∨ base + words ≤ 65536 := by
  constructor
  · intro h
    rcases Nat.eq_zero_or_pos words with hzero | hpos
    · exact .inl hzero
    · exact .inr (le_of_stays hmost hpos h)
  · rintro (rfl | hend) q hq
    · cases hq
    · exact stays_of_le hmost ⟨le_rfl, le_rfl⟩ hend hq

/-- The outputs, whatever span is dirty. -/
theorem outputs_stay_iff {cfg : GatewayConfig} (hcount : 0 < cfg.output_word_count.toNat) :
    (∀ lo hi, lo < hi → hi ≤ 2 * cfg.output_word_count.toNat → ∀ q ∈ write_requests cfg lo hi,
        q.Stays cfg.output_base_reg.toNat cfg.output_word_count.toNat) ↔
      cfg.output_base_reg.toNat + cfg.output_word_count.toNat ≤ 65536 := by
  constructor
  · intro h
    -- the whole area is one of the spans
    have hall := h 0 (2 * cfg.output_word_count.toNat) (by omega) le_rfl
    have hwords : word_count 0 (2 * cfg.output_word_count.toNat) = cfg.output_word_count.toNat := by
      unfold word_count
      omega
    have hfirst : first_word 0 = 0 := rfl
    unfold write_requests at hall
    rw [hwords, hfirst, Nat.add_zero] at hall
    exact le_of_stays (by decide) hcount hall
  · intro hend lo hi hlt hle q hq
    refine stays_of_le (by decide) ⟨Nat.le_add_right _ _, ?_⟩ hend hq
    unfold first_word word_count
    omega

end Mgate.Exchange

namespace WavemakerController

open Mgate Mgate.Exchange Numeric

variable {F : Type} [Zero F] [LT F] [LE F] [DecidableLT F] [DecidableLE F]

/-! ## The constructor's checks -/

/-- No request of a cycle has a register beyond the last address or outside its area. -/
def AddressesStay (cfg : GatewayConfig) : Prop :=
  (∀ lo hi, lo < hi → hi ≤ 2 * cfg.output_word_count.toNat → ∀ q ∈ write_requests cfg lo hi,
    q.Stays cfg.output_base_reg.toNat cfg.output_word_count.toNat) ∧
  (∀ q ∈ input_requests cfg, q.Stays cfg.input_base_reg.toNat cfg.input_word_count.toNat) ∧
  (∀ q ∈ status_requests cfg, q.Stays cfg.status_base_reg.toNat cfg.status_word_count.toNat)

theorem toNat_checked {x : ℤ} (h : 0 ≤ x ∧ x ≤ 65535) : ((UInt16.ofInt x).toNat : ℤ) = x := by
  unfold UInt16.ofInt
  rw [UInt16.toNat_ofNat']
  omega

/-- **The constructor keeps the registers it has checked.** -/
theorem construct_gateway {p : Params F} {a : IndraDriveActuator F}
    (h : IndraDriveActuator.construct p = some a) :
    valid_connection p ∧ a.gateway = gateway_config p := by
  simp only [IndraDriveActuator.construct, Option.bind_eq_bind, Option.bind_eq_some_iff,
    Option.guard_eq_some', Option.pure_def, Option.some.injEq, exists_const] at h
  obtain ⟨-, -, -, hvalid, -, -, -, -, rfl⟩ := h
  exact ⟨hvalid, rfl⟩

/-- **When no address wraps.** For every configuration the constructor accepts: exactly
when the last register of each area has an address, which is not what it checks. -/
theorem addresses_iff {p : Params F} {a : IndraDriveActuator F}
    (h : IndraDriveActuator.construct p = some a) :
    AddressesStay a.gateway ↔
      to_int p.output_base_reg + to_int p.output_word_count ≤ 65536 ∧
      to_int p.input_base_reg + to_int p.input_word_count ≤ 65536 ∧
      (to_int p.status_word_count = 0 ∨
        to_int p.status_base_reg + to_int p.status_word_count ≤ 65536) := by
  obtain ⟨⟨-, -, hib, hic, hob, hoc, hsb, hsc⟩, heq⟩ := construct_gateway h
  have e1 : (a.gateway.output_base_reg.toNat : ℤ) = to_int p.output_base_reg := by
    rw [heq]; exact toNat_checked hob
  have e2 : (a.gateway.output_word_count.toNat : ℤ) = to_int p.output_word_count := by
    rw [heq]; exact toNat_checked ⟨hoc.1.le, hoc.2⟩
  have e3 : (a.gateway.input_base_reg.toNat : ℤ) = to_int p.input_base_reg := by
    rw [heq]; exact toNat_checked hib
  have e4 : (a.gateway.input_word_count.toNat : ℤ) = to_int p.input_word_count := by
    rw [heq]; exact toNat_checked ⟨hic.1.le, hic.2⟩
  have e5 : (a.gateway.status_base_reg.toNat : ℤ) = to_int p.status_base_reg := by
    rw [heq]; exact toNat_checked hsb
  have e6 : (a.gateway.status_word_count.toNat : ℤ) = to_int p.status_word_count := by
    rw [heq]; exact toNat_checked hsc
  unfold AddressesStay
  rw [outputs_stay_iff (by omega), input_requests, status_requests, area_stays_iff (by decide),
    area_stays_iff (by decide)]
  omega

/-- The bench's eight registers per area. -/
theorem addresses_bench : ∃ a, IndraDriveActuator.construct (bench .linear 1) = some a ∧
    AddressesStay a.gateway := by
  have hsome : (IndraDriveActuator.construct (bench .linear 1)).isSome = true := by decide +kernel
  obtain ⟨a, ha⟩ := Option.isSome_iff_exists.mp hsome
  exact ⟨a, ha, (addresses_iff ha).mpr (by decide)⟩

/-- Two hundred output registers, 36 registers in front of the last address. -/
def far_outputs : Params ℚ :=
  { bench .linear 1 with output_base_reg := 65500, output_word_count := 200 }

/-- The configuration is accepted and the drive's tags fit. The second request of a flush
is for register 65623; register 87 is what goes out. -/
theorem far_outputs_wrap : ∃ a, IndraDriveActuator.construct far_outputs = some a ∧
    (∃ d, (MGateDriver.create a.gateway).add_tags ({} : IndraDriveConfig).tags = .ok d) ∧
    ⟨65623, 77⟩ ∈ write_requests a.gateway 0 400 ∧ (UInt16.ofNat 65623).toNat = 87 ∧
    ¬ AddressesStay a.gateway := by
  have hsome : (IndraDriveActuator.construct far_outputs).isSome = true := by decide +kernel
  obtain ⟨a, ha⟩ := Option.isSome_iff_exists.mp hsome
  have hgateway := (construct_gateway ha).2
  have htags : ((MGateDriver.create (gateway_config far_outputs)).add_tags
      ({} : IndraDriveConfig).tags).toOption.isSome = true := by
    decide +kernel
  obtain ⟨d, hd⟩ := Option.isSome_iff_exists.mp htags
  have hmem : ⟨65623, 77⟩ ∈ write_requests (gateway_config far_outputs) 0 400 := by decide +kernel
  refine ⟨a, ha, ?_⟩
  rw [hgateway]
  refine ⟨⟨d, ProcessImage.toOption_eq_some hd⟩, hmem, rfl, ?_⟩
  intro hstay
  have hfirst := (hstay.1 0 400 (by decide) (by decide +kernel) ⟨65623, 77⟩ hmem).1
  revert hfirst
  decide

end WavemakerController
