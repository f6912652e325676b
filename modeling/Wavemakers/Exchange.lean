/-
`exchange()` as a register-memory copy: whatever happened before, an exchange
that returns `Ok` leaves the gateway's output registers equal to the output
image and the input and status images equal to the registers the gateway
served.

The driver's three loops are run against the server of `ModbusServer.lean`, one
turn of the environment per request: the gateway's process may change any
register but the outputs, and decides how the request ends. Between exchanges
application threads stage outputs, the link fails and comes back, and while it
is down the gateway may change its outputs as well.

The copy is correct because of one invariant, `Inv`: on a live connection, an
output byte that differs from the gateway's is inside the dirty span. A chunk
that fails half-way leaves the span as it was, so it does not matter whether the
request reached the registers (`send_chunks_spec`).
-/
import Wavemakers.MGateDriver
import Wavemakers.ModbusServer

set_option autoImplicit false

namespace Mgate.Exchange

open Interleave Splice MGateDriver

/-! ## The world of one exchange -/

/-- What the gateway does around one request: the registers its own process
writes before it, and how the request ends. -/
structure Turn where
  input : UInt16 → UInt16
  holding : UInt16 → UInt16
  outcome : Outcome

/-- Register `a` belongs to the output area. -/
def is_output (cfg : GatewayConfig) (a : UInt16) : Bool :=
  (a - cfg.output_base_reg).toNat < cfg.output_word_count.toNat

/-- The gateway's own process changes anything but the outputs. -/
def Turn.settle (cfg : GatewayConfig) (t : Turn) (sv : Server) : Server :=
  { sv with input := t.input,
            holding := fun a => if is_output cfg a then sv.holding a else t.holding a }

structure World where
  server : Server
  client : Client
  turns : List Turn

/-- The next turn. When they have run out the server stays silent. -/
def World.next (cfg : GatewayConfig) (w : World) : Server × Outcome × List Turn :=
  match w.turns with
  | [] => (w.server, .lost false, [])
  | t :: ts => (t.settle cfg w.server, t.outcome, ts)

/-- A client call whose request is `pdu`, answered by the server's next turn.
Nothing goes out of a client that is not connected. -/
def World.request {α : Type} (cfg : GatewayConfig) (w : World) (pdu : List UInt8)
    (call : Client → Io → Transact × α) : World × Result × α :=
  let n := if w.client.connected then w.next cfg else (w.server, .lost false, w.turns)
  let a := n.1.attempt (w.client.frame pdu) n.2.1
  let r := call w.client a.2
  (⟨a.1, r.1.client, n.2.2⟩, r.1.result, r.2)

/-- The driver's error handling. -/
def World.failed (w : World) (r : Result) : World :=
  if r.status = .SocketError ∨ r.status = .ProtocolError then { w with client := w.client.drop }
  else w

/-! ## `flush_outputs` -/

/-- One request of the flush: a single register has a function code of its own. -/
def write_registers (cfg : GatewayConfig) (w : World) (addr : UInt16) (src : List UInt16) :
    World × Result × Unit :=
  if src.length = 1 then
    w.request cfg (write_single_pdu addr (src.getD 0 0)) fun c io =>
      (write_single_register c io addr (src.getD 0 0), ())
  else
    w.request cfg (write_multiple_pdu addr src) fun c io =>
      (write_multiple_registers c io addr src, ())

/-- The sending loop. `fuel` is the number of iterations left. -/
def send_chunks (cfg : GatewayConfig) (first_word : ℕ) (regs : List UInt16) :
    ℕ → ℕ → World → World × Result
  | 0, _, w => (w, {})
  | fuel + 1, sent, w =>
      if sent < regs.length then
        let addr := UInt16.ofNat (cfg.output_base_reg.toNat + first_word + sent)
        let r := write_registers cfg w addr (chunk regs sent)
        if r.2.1.ok then
          send_chunks cfg first_word regs fuel (sent + (chunk regs sent).length) r.1
        else (r.1.failed r.2.1, r.2.1)
      else (w, {})

def flush_outputs (d : MGateDriver) (w : World) : Except Exn (MGateDriver × World × Result) :=
  match d.flush_span with
  | none => .ok (d, w, {})
  | some (lo, hi) => do
      let regs ← d.flush_copy lo hi
      let r := send_chunks d.cfg_ (first_word lo) regs regs.length 0 w
      if r.2.ok then .ok (d.flush_clear lo hi, r.1, {}) else .ok (d, r.1, r.2)

/-! ## `read_inputs` and `read_status` -/

/-- The reading loop of both functions. -/
def read_chunks (cfg : GatewayConfig) (fc : UInt8) (base : UInt16) (words : ℕ) :
    ℕ → ℕ → World → World × Result × List UInt16
  | 0, _, w => (w, {}, [])
  | fuel + 1, got, w =>
      if got < words then
        let chunk := min kMaxReadRegs (words - got)
        let addr := UInt16.ofNat (base.toNat + got)
        let count := UInt16.ofNat chunk
        let r := w.request cfg (read_pdu fc addr count) fun c io =>
          read_registers c io fc addr count
        if r.2.1.ok then
          let rest := read_chunks cfg fc base words fuel (got + chunk) r.1
          (rest.1, rest.2.1, r.2.2 ++ rest.2.2)
        else (r.1.failed r.2.1, r.2.1, [])
      else (w, {}, [])

/-- The function code a flag of the configuration selects. -/
def read_fc (uses_fc4 : Bool) : UInt8 := if uses_fc4 then 0x04 else 0x03

def read_inputs (d : MGateDriver) (w : World) : Except Exn (MGateDriver × World × Result) :=
  if d.in_.empty then .ok (d, w, {})
  else do
    let words := d.cfg_.input_word_count.toNat
    let r := read_chunks d.cfg_ (read_fc d.cfg_.input_uses_fc4) d.cfg_.input_base_reg words words
      0 w
    if r.2.1.ok then
      let img ← d.in_.load_from_registers r.2.2 0
      .ok ({ d with in_ := img }, r.1, {})
    else .ok (d, r.1, r.2.1)

def read_status (d : MGateDriver) (w : World) : MGateDriver × World × Result :=
  if d.cfg_.status_word_count = 0 then (d, w, {})
  else
    let words := d.cfg_.status_word_count.toNat
    let r := read_chunks d.cfg_ (read_fc d.cfg_.status_uses_fc4) d.cfg_.status_base_reg words words
      0 w
    if r.2.1.ok then ({ d with status_ := r.2.2 }, r.1, {}) else (d, r.1, r.2.1)

/-! ## `exchange` and the poll cycle -/

/-- An application thread stages an output. A call that throws stages nothing. -/
def stage_one (F : FloatCast) (d : MGateDriver) (w : WriteCall) : Except Exn MGateDriver :=
  match w.apply F d with
  | .ok d' => .ok d'
  | .error .undefined => .error .undefined
  | .error _ => .ok d

def stage_all (F : FloatCast) (d : MGateDriver) (ws : List WriteCall) : Except Exn MGateDriver :=
  ws.foldlM (stage_one F) d

/-- `exchange()`. The reading half touches the input and status images only, so
the outputs staged while it runs, `during`, can be put before it. -/
def exchange (F : FloatCast) (d : MGateDriver) (w : World) (during : List WriteCall) :
    Except Exn (MGateDriver × World × Result) := do
  let f ← flush_outputs d w
  if f.2.2.ok = false then return f
  let d ← stage_all F f.1 during
  let i ← read_inputs d f.2.1
  if i.2.2.ok = false then return i
  return read_status i.1 i.2.1

structure State where
  d : MGateDriver
  client : Client
  server : Server

/-- `ensure_connected()`, given what `connect` returns. -/
def ensure_connected (s : State) (connect : Result) : State × Result :=
  if s.client.connected then (s, {})
  else if connect.ok then
    ({ s with d := s.d.mark_outputs_dirty,
              client := { s.client with connected := true, unread := [],
                                        unit_id_ := s.d.cfg_.unit_id } }, {})
  else (s, connect)

/-- The driver's part of one turn of `poll_loop`. -/
def cycle (F : FloatCast) (s : State) (connect : Result) (turns : List Turn)
    (during : List WriteCall) : Except Exn (State × Result) :=
  let c := ensure_connected s connect
  if c.2.ok = false then .ok c
  else do
    let x ← exchange F c.1.d ⟨c.1.server, c.1.client, turns⟩ during
    return (⟨x.1, x.2.1.client, x.2.1.server⟩, x.2.2)

/-! ## Runs -/

inductive Event where
  | stage (w : WriteCall)
  | mark_outputs_dirty
  | cycle (connect : Result) (turns : List Turn) (during : List WriteCall)
  /-- the gateway changes its registers while the link is down -/
  | gateway (holding input : UInt16 → UInt16)

def step (F : FloatCast) (s : State) : Event → Option State
  | .stage w => (stage_one F s.d w).toOption.map fun d => { s with d := d }
  | .mark_outputs_dirty => some { s with d := s.d.mark_outputs_dirty }
  | .cycle connect turns during => (cycle F s connect turns during).toOption.map Prod.fst
  | .gateway holding input =>
      if s.client.connected then none
      else some { s with server := { s.server with holding := holding, input := input } }

/-- A constructed driver with any tags, not yet connected, and any registers. -/
def Init (s : State) : Prop :=
  ∃ cfg tags, s.d = { MGateDriver.create cfg with tags_ := tags } ∧ s.client = {}

/-! ## The output registers -/

/-- The gateway's output area. -/
def outputs (cfg : GatewayConfig) (sv : Server) : List UInt16 :=
  fetch sv.holding cfg.output_base_reg cfg.output_word_count.toNat

theorem length_outputs (cfg : GatewayConfig) (sv : Server) :
    (outputs cfg sv).length = cfg.output_word_count.toNat := length_fetch _ _ _

theorem getElem?_fetch {table : UInt16 → UInt16} {base : UInt16} {n k : ℕ} (hk : k < n) :
    (fetch table base n)[k]? = some (table (base + UInt16.ofNat k)) := by
  rw [fetch, List.getElem?_map, List.getElem?_range hk]
  rfl

/-- The index of a register of an area. -/
theorem toNat_offset (base : UInt16) {k : ℕ} (hk : k < 65536) :
    (base + UInt16.ofNat k - base).toNat = k := by
  have hb := base.toNat_lt
  rw [UInt16.toNat_sub, UInt16.toNat_add, UInt16.toNat_ofNat']
  omega

/-- The 16-bit register address of the `k`-th register of an area. -/
theorem ofNat_base_add (base : UInt16) (k : ℕ) :
    UInt16.ofNat (base.toNat + k) = base + UInt16.ofNat k := by
  rw [UInt16.ofNat_add, UInt16.ofNat_toNat]

theorem outputs_settle (cfg : GatewayConfig) (t : Turn) (sv : Server) :
    outputs cfg (t.settle cfg sv) = outputs cfg sv := by
  refine List.map_congr_left fun i hi => ?_
  have hlt := List.mem_range.mp hi
  have hn := cfg.output_word_count.toNat_lt
  have hout : is_output cfg (cfg.output_base_reg + UInt16.ofNat i) = true := by
    unfold is_output
    rw [toNat_offset _ (by omega), decide_eq_true_eq]
    exact hlt
  simp only [Turn.settle, hout, if_true]

/-- Storing a stretch of the area splices it into the area. -/
theorem fetch_store_registers {table : UInt16 → UInt16} {base : UInt16} {n off : ℕ}
    {vs : List UInt16} (hn : n < 65536) (h : off + vs.length ≤ n) :
    fetch (store_registers table (base + UInt16.ofNat off) vs) base n =
      splice (fetch table base n) off vs := by
  have hlen := length_fetch table base n
  refine List.ext_getElem? fun k => ?_
  by_cases hk : k < n
  · rw [getElem?_fetch hk]
    unfold store_registers
    have hidx : (base + UInt16.ofNat k - (base + UInt16.ofNat off)).toNat =
        (65536 - off + k) % 65536 := by
      have hb := base.toNat_lt
      rw [UInt16.toNat_sub, UInt16.toNat_add, UInt16.toNat_add, UInt16.toNat_ofNat',
        UInt16.toNat_ofNat']
      omega
    by_cases hin : off ≤ k ∧ k < off + vs.length
    · rw [getElem?_splice_mid (by omega) hin.1 hin.2, List.getD_eq_getElem?_getD, hidx,
        show (65536 - off + k) % 65536 = k - off by omega,
        List.getElem?_eq_getElem (by omega : k - off < vs.length), Option.getD_some]
    · rw [getElem?_splice_out (by omega) (by omega), getElem?_fetch hk,
        List.getD_eq_default _ _ (by rw [hidx]; omega)]
  · rw [List.getElem?_eq_none (by rw [length_fetch]; omega),
      List.getElem?_eq_none (by rw [length_splice (by omega), length_fetch]; omega)]

theorem next_spec (cfg : GatewayConfig) (w : World) :
    outputs cfg (w.next cfg).1 = outputs cfg w.server ∧ (w.next cfg).1.log = w.server.log := by
  unfold World.next
  split
  · exact ⟨rfl, rfl⟩
  · exact ⟨outputs_settle _ _ _, rfl⟩

/-! ## The sending loop -/

/-- A live client has nothing unread between two requests. -/
def Synced (w : World) : Prop := w.client.connected = true ∧ w.client.unread = []

theorem request_connected {α : Type} (cfg : GatewayConfig) {w : World} (pdu : List UInt8)
    (call : Client → Io → Transact × α) (hc : w.client.connected = true) :
    w.request cfg pdu call =
      (⟨((w.next cfg).1.attempt (w.client.frame pdu) (w.next cfg).2.1).1,
        (call w.client ((w.next cfg).1.attempt (w.client.frame pdu) (w.next cfg).2.1).2).1.client,
        (w.next cfg).2.2⟩,
        (call w.client ((w.next cfg).1.attempt (w.client.frame pdu) (w.next cfg).2.1).2).1.result,
        (call w.client ((w.next cfg).1.attempt (w.client.frame pdu) (w.next cfg).2.1).2).2) := by
  unfold World.request
  rw [if_pos hc]

/-- One request of the flush, however it ends: the registers it is for are
stored or the area is as it was, and after `Ok` they are stored. -/
theorem write_registers_spec {cfg : GatewayConfig} {w : World} {off : ℕ} {src : List UInt16}
    (hw : Synced w) (hpos : 0 < src.length) (hle : src.length ≤ 123)
    (hfit : off + src.length ≤ cfg.output_word_count.toNat) :
    let r := write_registers cfg w (cfg.output_base_reg + UInt16.ofNat off) src
    (r.1.client.connected = true → r.1.client.unread = []) ∧ r.1.server.log = w.server.log ∧
      (outputs cfg r.1.server = outputs cfg w.server ∨
        outputs cfg r.1.server = splice (outputs cfg w.server) off src) ∧
      (r.2.1.ok = true → Synced r.1 ∧
        outputs cfg r.1.server = splice (outputs cfg w.server) off src) := by
  obtain ⟨hc, hu⟩ := hw
  obtain ⟨hout, hlog⟩ := next_spec cfg w
  have hn := cfg.output_word_count.toNat_lt
  -- both kinds of request end in the same specification
  have key : ∀ (sv' : Server) (t : Transact), Wrote (w.next cfg).1 sv'
      (cfg.output_base_reg + UInt16.ofNat off) src t →
      (t.client.connected = true → t.client.unread = []) ∧ sv'.log = w.server.log ∧
        (outputs cfg sv' = outputs cfg w.server ∨
          outputs cfg sv' = splice (outputs cfg w.server) off src) ∧
        (t.result.ok = true → (t.client.connected = true ∧ t.client.unread = []) ∧
          outputs cfg sv' = splice (outputs cfg w.server) off src) := by
    intro sv' t h
    have hstored : outputs cfg { (w.next cfg).1 with
        holding := store_registers (w.next cfg).1.holding
          (cfg.output_base_reg + UInt16.ofNat off) src } =
        splice (outputs cfg w.server) off src := by
      rw [← hout]
      exact fetch_store_registers (by omega) hfit
    refine ⟨h.unread, ?_, ?_, fun hok => ?_⟩
    · rcases h.effect with he | he
      · rw [he, hlog]
      · rw [he]
        exact hlog
    · rcases h.effect with he | he
      · rw [he, hout]
        exact .inl rfl
      · rw [he, hstored]
        exact .inr rfl
    · obtain ⟨hcon, he⟩ := h.ok (by simpa [Result.ok] using hok)
      rw [he, hstored]
      exact ⟨⟨hcon, h.unread hcon⟩, rfl⟩
  intro r
  by_cases hone : src.length = 1
  · obtain ⟨v, rfl⟩ := List.length_eq_one_iff.mp hone
    simp only [r, write_registers, if_pos hone, request_connected _ _ _ hc]
    exact key _ _ (write_single_register_spec _ _ _ _ hc hu)
  · simp only [r, write_registers, if_neg hone, request_connected _ _ _ hc]
    exact key _ _ (write_multiple_registers_spec _ _ _ hpos hle hc hu)

theorem chunk_bounds {regs : List UInt16} {sent : ℕ} (h : sent < regs.length) :
    0 < (chunk regs sent).length ∧ (chunk regs sent).length ≤ 123 ∧
      sent + (chunk regs sent).length ≤ regs.length := by
  rw [length_chunk (le_of_lt h)]
  unfold write_chunk kMaxWriteRegs
  omega

theorem failed_unread {w : World} {r : Result}
    (h : w.client.connected = true → w.client.unread = []) :
    (w.failed r).client.connected = true → (w.failed r).client.unread = [] := by
  unfold World.failed
  split
  · nofun
  · exact h

theorem failed_server (w : World) (r : Result) : (w.failed r).server = w.server := by
  unfold World.failed
  split
  · rfl
  · rfl

/-- **The sending loop**, from `sent` on. Whatever happens, a register of the
area is as it was or holds its new value; after `Ok` all of them hold theirs. -/
theorem send_chunks_spec {cfg : GatewayConfig} {first : ℕ} {regs : List UInt16}
    (hfit : first + regs.length ≤ cfg.output_word_count.toNat) :
    ∀ (fuel sent : ℕ) (w : World), Synced w → regs.length - sent ≤ fuel →
      let r := send_chunks cfg first regs fuel sent w
      (r.1.client.connected = true → r.1.client.unread = []) ∧ r.1.server.log = w.server.log ∧
        (∀ k, (outputs cfg r.1.server)[k]? = (outputs cfg w.server)[k]? ∨
          first + sent ≤ k ∧ k < first + regs.length ∧
            (outputs cfg r.1.server)[k]? = regs[k - first]?) ∧
        (r.2.ok = true → Synced r.1 ∧ ∀ k, first + sent ≤ k → k < first + regs.length →
          (outputs cfg r.1.server)[k]? = regs[k - first]?) := by
  intro fuel
  induction fuel with
  | zero =>
      intro sent w hw hfuel
      exact ⟨fun _ => hw.2, rfl, fun k => .inl rfl,
        fun _ => ⟨hw, fun k hlo hhi => by omega⟩⟩
  | succ fuel ih =>
      intro sent w hw hfuel
      simp only [send_chunks]
      by_cases hmore : sent < regs.length
      · obtain ⟨hpos, hle, hin⟩ := chunk_bounds hmore
        have haddr : UInt16.ofNat (cfg.output_base_reg.toNat + first + sent) =
            cfg.output_base_reg + UInt16.ofNat (first + sent) := by
          rw [Nat.add_assoc, ofNat_base_add]
        have hlen := length_outputs cfg w.server
        rw [if_pos hmore, haddr]
        obtain ⟨hun, hlog, heff, hok⟩ := @write_registers_spec cfg w (first + sent)
          (chunk regs sent) hw hpos hle (by omega)
        -- a register of the area after the request
        have hspliced : ∀ k, (splice (outputs cfg w.server) (first + sent) (chunk regs sent))[k]? =
              (outputs cfg w.server)[k]? ∨
            first + sent ≤ k ∧ k < first + sent + (chunk regs sent).length ∧
              (splice (outputs cfg w.server) (first + sent) (chunk regs sent))[k]? =
                regs[k - first]? := by
          intro k
          by_cases hk : first + sent ≤ k ∧ k < first + sent + (chunk regs sent).length
          · refine .inr ⟨hk.1, hk.2, ?_⟩
            rw [getElem?_splice_mid (by omega) hk.1 hk.2, getElem?_chunk (by omega)]
            congr 1
            omega
          · exact .inl (getElem?_splice_out (by omega) (by omega))
        by_cases hr : (write_registers cfg w (cfg.output_base_reg + UInt16.ofNat (first + sent))
            (chunk regs sent)).2.1.ok = true
        · rw [if_pos hr]
          obtain ⟨hw', hout⟩ := hok hr
          obtain ⟨hun', hlog', hkeep', hok'⟩ := ih (sent + (chunk regs sent).length) _ hw' (by omega)
          rw [hlog] at hlog'
          rw [hout] at hkeep'
          refine ⟨hun', hlog', fun k => ?_, fun h => ⟨(hok' h).1, fun k hlo hhi => ?_⟩⟩
          · rcases hkeep' k with hk | ⟨hlo, hhi, hk⟩
            · rw [hk]
              rcases hspliced k with hk' | ⟨hlo, hhi, hk'⟩
              · exact .inl hk'
              · exact .inr ⟨hlo, by omega, hk'⟩
            · exact .inr ⟨by omega, hhi, hk⟩
          · by_cases hnew : first + (sent + (chunk regs sent).length) ≤ k
            · exact (hok' h).2 k hnew hhi
            · rcases hkeep' k with hk | ⟨hlo', _, _⟩
              · rw [hk, getElem?_splice_mid (by omega) hlo (by omega), getElem?_chunk (by omega)]
                congr 1
                omega
              · omega
        · rw [if_neg hr]
          refine ⟨failed_unread hun, by rw [failed_server]; exact hlog, fun k => ?_,
            fun h => absurd h hr⟩
          rw [failed_server]
          rcases heff with he | he
          · rw [he]
            exact .inl rfl
          · rw [he]
            rcases hspliced k with hk' | ⟨hlo, hhi, hk'⟩
            · exact .inl hk'
            · exact .inr ⟨hlo, by omega, hk'⟩
      · rw [if_neg hmore]
        exact ⟨fun _ => hw.2, rfl, fun k => .inl rfl,
          fun _ => ⟨hw, fun k hlo hhi => by omega⟩⟩

/-! ## The invariant -/

/-- Sizes that never change, and the two facts about a live connection: the
client has nothing unread, and an output byte that differs from the gateway's
is dirty. -/
structure Inv (s : State) : Prop where
  out_size : s.d.out_.size = 2 * s.d.cfg_.output_word_count.toNat
  in_size : s.d.in_.size = 2 * s.d.cfg_.input_word_count.toNat
  status_length : s.d.status_.length = s.d.cfg_.status_word_count.toNat
  hi_le : s.d.dirty_hi_ ≤ s.d.out_.size
  unread : s.client.connected = true → s.client.unread = []
  held : s.client.connected = true → ∀ i, i < s.d.out_.size →
    s.d.out_.buf_[i]? ≠ byte_of (outputs s.d.cfg_ s.server) i → s.d.Dirty i

/-! ## One flush -/

theorem byte_of_congr {regs regs' : List UInt16} {i j : ℕ}
    (h : regs[i / 2]? = regs'[j / 2]?) (hpar : i % 2 = j % 2) :
    byte_of regs i = byte_of regs' j := by
  unfold byte_of
  rw [h, hpar]

/-- **`flush_outputs`** never throws and keeps the invariant; after `Ok` nothing
is dirty any more. -/
theorem flush_outputs_spec {d : MGateDriver} {w : World} (h : Inv ⟨d, w.client, w.server⟩)
    (hw : Synced w) :
    ∃ d' w' r, flush_outputs d w = .ok (d', w', r) ∧ d'.cfg_ = d.cfg_ ∧
      Inv ⟨d', w'.client, w'.server⟩ ∧ w'.server.log = w.server.log ∧
      (r.ok = true → Synced w' ∧ ∀ i, ¬ d'.Dirty i) := by
  have hsize : d.out_.size = 2 * d.cfg_.output_word_count.toNat := h.out_size
  have hle : d.dirty_hi_ ≤ d.out_.size := h.hi_le
  have hheld : ∀ i, i < d.out_.size →
      d.out_.buf_[i]? ≠ byte_of (outputs d.cfg_ w.server) i → d.Dirty i := h.held hw.1
  cases hspan : d.flush_span with
  | none =>
      exact ⟨d, w, {}, by rw [flush_outputs, hspan], rfl, h, rfl,
        fun _ => ⟨hw, flush_span_none hspan hle⟩⟩
  | some span =>
      obtain ⟨lo, hi⟩ := span
      obtain ⟨hlt, hhi, hlod, hhid⟩ := flush_span_some hspan hle
      obtain ⟨regs, hcopy, hlen, hbytes⟩ := flush_copy_spec hlt hhi (by omega)
      obtain ⟨hun, hlog, hkeep, hok⟩ := @send_chunks_spec d.cfg_ (first_word lo) regs
        (by rw [hlen]; unfold first_word word_count; omega) regs.length 0 w hw (by omega)
      -- a byte of the area afterwards is what it was, or the image's
      have hbyte : ∀ i, byte_of (outputs d.cfg_ (send_chunks d.cfg_ (first_word lo) regs
            regs.length 0 w).1.server) i = byte_of (outputs d.cfg_ w.server) i ∨
          byte_of (outputs d.cfg_ (send_chunks d.cfg_ (first_word lo) regs
            regs.length 0 w).1.server) i = d.out_.buf_[i]? := by
        intro i
        rcases hkeep (i / 2) with hk | ⟨hlo', hhi', hk⟩
        · exact .inl (byte_of_congr hk rfl)
        · right
          rw [byte_of_congr (j := i - first_word lo * 2)
              (by rw [hk]; congr 1; omega) (by omega), hbytes _ (by omega)]
          congr 1
          omega
      have hflush : flush_outputs d w =
          if (send_chunks d.cfg_ (first_word lo) regs regs.length 0 w).2.ok then
            .ok (d.flush_clear lo hi,
              (send_chunks d.cfg_ (first_word lo) regs regs.length 0 w).1, {})
          else .ok (d, (send_chunks d.cfg_ (first_word lo) regs regs.length 0 w).1,
            (send_chunks d.cfg_ (first_word lo) regs regs.length 0 w).2) := by
        unfold flush_outputs
        rw [hspan]
        simp only [hcopy]
        rfl
      by_cases hr : (send_chunks d.cfg_ (first_word lo) regs regs.length 0 w).2.ok = true
      · rw [if_pos hr] at hflush
        obtain ⟨hsync, hall⟩ := hok hr
        have hclear : d.flush_clear lo hi = { d with dirty_lo_ := 0, dirty_hi_ := 0 } := by
          unfold flush_clear
          rw [if_pos ⟨hlod, hhid⟩]
        rw [hclear] at hflush
        refine ⟨_, _, _, hflush, rfl, ⟨h.out_size, h.in_size, h.status_length, Nat.zero_le _,
          fun _ => hsync.2, fun _ i hi' hne => ?_⟩, hlog, fun _ => ⟨hsync, fun i hd => ?_⟩⟩
        · refine absurd ?_ hne
          simp only at hi' ⊢
          rcases hbyte i with hb | hb
          · by_cases hin : lo ≤ i ∧ i < hi
            · -- inside the span the register was delivered
              have hk := hall (i / 2) (by unfold first_word; omega)
                (by rw [hlen]; unfold first_word word_count; omega)
              rw [byte_of_congr (j := i - first_word lo * 2)
                (by rw [hk]; congr 1; unfold first_word; omega) (by unfold first_word; omega),
                hbytes _ (by unfold first_word word_count; omega)]
              congr 1
              unfold first_word
              omega
            · rw [hb]
              by_contra hne'
              obtain ⟨h1, h2⟩ := hheld i hi' hne'
              omega
          · exact hb.symm
        · exact absurd hd.2 (Nat.not_lt_zero i)
      · rw [if_neg hr] at hflush
        refine ⟨_, _, _, hflush, rfl, ⟨h.out_size, h.in_size, h.status_length, h.hi_le, hun,
          fun _ i hi' hne => ?_⟩, hlog, fun hr' => absurd hr' hr⟩
        simp only at hi' hne ⊢
        rcases hbyte i with hb | hb
        · rw [hb] at hne
          exact hheld i hi' hne
        · exact absurd hb.symm hne

/-! ## The reading loop -/

theorem served_append (fc : UInt8) (addr : UInt16) (vs vs' : List UInt16) :
    served fc addr (vs ++ vs') =
      served fc addr vs ++ served fc (addr + UInt16.ofNat vs.length) vs' := by
  unfold served
  rw [List.mapIdx_append]
  congr 1
  refine List.mapIdx_eq_mapIdx_iff.mpr fun i hi => ?_
  rw [Nat.add_comm i, UInt16.ofNat_add, UInt16.add_assoc]

/-- One request of a reading loop, however it ends. -/
theorem read_request_spec {cfg : GatewayConfig} {w : World} {fc : UInt8} (addr : UInt16) {n : ℕ}
    (hw : Synced w) (hfc : fc = 0x03 ∨ fc = 0x04) (hpos : 0 < n) (hle : n ≤ 125) :
    let r := w.request cfg (read_pdu fc addr (UInt16.ofNat n)) fun c io =>
      read_registers c io fc addr (UInt16.ofNat n)
    (r.1.client.connected = true → r.1.client.unread = []) ∧
      outputs cfg r.1.server = outputs cfg w.server ∧
      (r.2.1.ok = true → Synced r.1 ∧ r.2.2.length = n ∧
        r.1.server.log = w.server.log ++ served fc addr r.2.2) := by
  obtain ⟨hc, hu⟩ := hw
  obtain ⟨hout, hlog⟩ := next_spec cfg w
  have hn : (UInt16.ofNat n).toNat = n := by
    rw [UInt16.toNat_ofNat']
    omega
  have hcount : ¬(UInt16.ofNat n = 0 ∨ UInt16.ofNat n > 125) := by
    have h0 : (0 : UInt16).toNat = 0 := rfl
    have h125 : (125 : UInt16).toNat = 125 := rfl
    rw [← UInt16.toNat_inj, gt_iff_lt, UInt16.lt_iff_toNat_lt, hn]
    omega
  have h := read_registers_spec (w.next cfg).1 (w.next cfg).2.1 addr hfc hcount hc hu
  rw [request_connected _ _ _ hc]
  refine ⟨h.unread, ?_, fun hok => ?_⟩
  · rw [← hout]
    unfold outputs
    simp only [h.holding]
  · obtain ⟨hcon, hregs, hlog'⟩ := h.ok (by simpa [Result.ok] using hok)
    refine ⟨⟨hcon, h.unread hcon⟩, ?_, ?_⟩
    · simp only [hregs, length_fetch, hn]
    · simp only [hlog', hlog]

/-- **The reading loop**, from `got` on. It leaves the outputs alone, and after
`Ok` its registers are the ones the server has read out for it, in order. -/
theorem read_chunks_spec {cfg : GatewayConfig} {fc : UInt8} (base : UInt16) (words : ℕ)
    (hfc : fc = 0x03 ∨ fc = 0x04) :
    ∀ (fuel got : ℕ) (w : World), Synced w → words - got ≤ fuel →
      let r := read_chunks cfg fc base words fuel got w
      (r.1.client.connected = true → r.1.client.unread = []) ∧
        outputs cfg r.1.server = outputs cfg w.server ∧
        (r.2.1.ok = true → Synced r.1 ∧ r.2.2.length = words - got ∧
          r.1.server.log = w.server.log ++ served fc (base + UInt16.ofNat got) r.2.2) := by
  -- on the fuel, which is at least what is left to read
  intro fuel
  induction fuel with
  | zero =>
      intro got w hw hfuel
      exact ⟨fun _ => hw.2, rfl, fun _ => ⟨hw, by simp only [read_chunks, List.length_nil]; omega,
        by simp [read_chunks, served]⟩⟩
  | succ fuel ih =>
      intro got w hw hfuel
      simp only [read_chunks]
      by_cases hmore : got < words
      · rw [if_pos hmore, ofNat_base_add]
        obtain ⟨hun, hout, hok⟩ := @read_request_spec cfg w fc (base + UInt16.ofNat got)
          (min kMaxReadRegs (words - got)) hw hfc (by unfold kMaxReadRegs; omega)
          (by unfold kMaxReadRegs; omega)
        by_cases hr : (w.request cfg (read_pdu fc (base + UInt16.ofNat got)
            (UInt16.ofNat (min kMaxReadRegs (words - got)))) fun c io => read_registers c io fc
              (base + UInt16.ofNat got) (UInt16.ofNat (min kMaxReadRegs (words - got)))).2.1.ok
                = true
        · rw [if_pos hr]
          obtain ⟨hw', hlen, hlog⟩ := hok hr
          -- this chunk was served; the rest follows it
          obtain ⟨hun', hout', hok'⟩ := ih (got + min kMaxReadRegs (words - got)) _ hw'
            (by unfold kMaxReadRegs; omega)
          refine ⟨hun', hout'.trans hout, fun h => ?_⟩
          obtain ⟨hsync, hlen', hlog'⟩ := hok' h
          refine ⟨hsync, ?_, ?_⟩
          · rw [List.length_append, hlen, hlen']
            omega
          · rw [hlog', hlog, served_append, hlen, List.append_assoc, UInt16.ofNat_add,
              UInt16.add_assoc]
        · rw [if_neg hr]
          refine ⟨failed_unread hun, ?_, fun h => absurd h hr⟩
          rw [failed_server]
          exact hout
      · rw [if_neg hmore]
        exact ⟨fun _ => hw.2, rfl, fun _ => ⟨hw, by simp only [List.length_nil]; omega,
          by simp [served]⟩⟩

/-! ## `read_inputs` and `read_status` -/

theorem read_fc_eq (b : Bool) : read_fc b = 0x03 ∨ read_fc b = 0x04 := by
  cases b with
  | false => exact .inl rfl
  | true => exact .inr rfl

/-- **`read_inputs`** never throws and keeps the invariant; after `Ok` the input
image holds the registers served for it. -/
theorem read_inputs_spec {d : MGateDriver} {w : World} (h : Inv ⟨d, w.client, w.server⟩)
    (hw : Synced w) :
    ∃ img w' r, read_inputs d w = .ok ({ d with in_ := img }, w', r) ∧
      Inv ⟨{ d with in_ := img }, w'.client, w'.server⟩ ∧
      (r.ok = true → Synced w' ∧ ∃ vs, vs.length = d.cfg_.input_word_count.toNat ∧
        w'.server.log = w.server.log ++
          served (read_fc d.cfg_.input_uses_fc4) d.cfg_.input_base_reg vs ∧
        ∀ i, img.buf_[i]? = byte_of vs i) := by
  have hsize : d.in_.size = 2 * d.cfg_.input_word_count.toNat := h.in_size
  by_cases hempty : d.in_.empty = true
  -- without inputs nothing is sent
  · have hnil : d.in_.buf_ = [] := by
      simpa [ProcessImage.empty] using hempty
    have hzero : d.cfg_.input_word_count.toNat = 0 := by
      rw [ProcessImage.size, hnil, List.length_nil] at hsize
      omega
    refine ⟨d.in_, w, {}, by rw [read_inputs, if_pos hempty], h, fun _ => ⟨hw, [], ?_, ?_, ?_⟩⟩
    · rw [hzero, List.length_nil]
    · simp [served]
    · intro i
      rw [hnil]
      rfl
  · obtain ⟨hun, hout, hok⟩ := @read_chunks_spec d.cfg_ _ d.cfg_.input_base_reg
      d.cfg_.input_word_count.toNat (read_fc_eq d.cfg_.input_uses_fc4)
      d.cfg_.input_word_count.toNat 0 w hw (by omega)
    unfold read_inputs
    rw [if_neg hempty]
    dsimp only
    generalize read_chunks d.cfg_ (read_fc d.cfg_.input_uses_fc4) d.cfg_.input_base_reg
      d.cfg_.input_word_count.toNat d.cfg_.input_word_count.toNat 0 w = rc at hun hout hok ⊢
    -- reading moves the stream and the server's log, never an output register
    have hinv : ∀ img : ProcessImage, img.size = d.in_.size →
        Inv ⟨{ d with in_ := img }, rc.1.client, rc.1.server⟩ := by
      intro img himg
      refine ⟨h.out_size, himg.trans hsize, h.status_length, h.hi_le, hun, fun _ i hi hne => ?_⟩
      simp only [hout] at hne
      exact h.held hw.1 i hi hne
    by_cases hr : rc.2.1.ok = true
    · obtain ⟨hsync, hlen, hlog⟩ := hok hr
      obtain ⟨img, hload, himg, hbytes⟩ := @ProcessImage.load_from_registers_spec d.in_ rc.2.2
        (by rw [hlen, hsize]; omega)
      refine ⟨img, rc.1, {}, ?_, hinv img himg, fun _ => ⟨hsync, rc.2.2, hlen, ?_, hbytes⟩⟩
      · simp only [hr, if_true, hload]
        rfl
      · rw [hlog]
        congr 2
        exact UInt16.add_zero _
    · refine ⟨d.in_, rc.1, rc.2.1, ?_, hinv d.in_ rfl, fun hr' => absurd hr' hr⟩
      simp only [hr]
      rfl

/-- **`read_status`** keeps the invariant; after `Ok` the status words are the
registers served for it. -/
theorem read_status_spec {d : MGateDriver} {w : World} (h : Inv ⟨d, w.client, w.server⟩)
    (hw : Synced w) :
    ∃ st w' r, read_status d w = ({ d with status_ := st }, w', r) ∧
      Inv ⟨{ d with status_ := st }, w'.client, w'.server⟩ ∧
      (r.ok = true → Synced w' ∧ st.length = d.cfg_.status_word_count.toNat ∧
        w'.server.log = w.server.log ++
          served (read_fc d.cfg_.status_uses_fc4) d.cfg_.status_base_reg st) := by
  have hlength : d.status_.length = d.cfg_.status_word_count.toNat := h.status_length
  by_cases hzero : d.cfg_.status_word_count = 0
  · have hnil : d.status_ = [] := by
      rw [hzero] at hlength
      exact List.eq_nil_of_length_eq_zero hlength
    refine ⟨d.status_, w, {}, by rw [read_status, if_pos hzero], h,
      fun _ => ⟨hw, hlength, ?_⟩⟩
    rw [hnil]
    simp [served]
  · obtain ⟨hun, hout, hok⟩ := @read_chunks_spec d.cfg_ _ d.cfg_.status_base_reg
      d.cfg_.status_word_count.toNat (read_fc_eq d.cfg_.status_uses_fc4)
      d.cfg_.status_word_count.toNat 0 w hw (by omega)
    unfold read_status
    rw [if_neg hzero]
    dsimp only
    generalize read_chunks d.cfg_ (read_fc d.cfg_.status_uses_fc4) d.cfg_.status_base_reg
      d.cfg_.status_word_count.toNat d.cfg_.status_word_count.toNat 0 w = rc at hun hout hok ⊢
    have hinv : ∀ st : List UInt16, st.length = d.status_.length →
        Inv ⟨{ d with status_ := st }, rc.1.client, rc.1.server⟩ := by
      intro st hst
      refine ⟨h.out_size, h.in_size, hst.trans hlength, h.hi_le, hun, fun _ i hi hne => ?_⟩
      simp only [hout] at hne
      exact h.held hw.1 i hi hne
    by_cases hr : rc.2.1.ok = true
    · obtain ⟨hsync, hlen, hlog⟩ := hok hr
      refine ⟨rc.2.2, rc.1, {}, by simp only [hr, if_true], hinv _ ?_,
        fun _ => ⟨hsync, hlen, ?_⟩⟩
      · rw [hlen, hlength]
        rfl
      · rw [hlog]
        congr 2
        exact UInt16.add_zero _
    · refine ⟨d.status_, rc.1, rc.2.1, ?_, hinv _ rfl, fun hr' => absurd hr' hr⟩
      simp only [hr]
      rfl

/-! ## One cycle -/

/-- Staging keeps the invariant: what changes is dirty, what was dirty stays. -/
theorem inv_staged {s : State} {d : MGateDriver} {lo hi : ℕ} (h : Inv s)
    (hst : Staged s.d d lo hi) : Inv { s with d := d } := by
  obtain ⟨-, hin, hstatus⟩ := hst.others
  refine ⟨?_, ?_, ?_, ?_, h.unread, ?_⟩
  · simp only [hst.frame.size_eq, hst.cfg]
    exact h.out_size
  · simp only [hin, hst.cfg]
    exact h.in_size
  · simp only [hstatus, hst.cfg]
    exact h.status_length
  · simp only [hst.frame.size_eq]
    exact hst.hi_le h.hi_le
  · intro hc i hi hne
    simp only [hst.frame.size_eq, hst.cfg] at hi hne ⊢
    by_contra hnd
    rw [hst.frame.outside i (by
      by_contra hin'
      exact hnd (hst.covers i (by omega) (by omega)))] at hne
    exact hnd (hst.grows i (h.held hc i hi hne))

theorem stage_one_spec {F : FloatCast} {s : State} {d : MGateDriver} {w : WriteCall}
    (h : Inv s) (hst : stage_one F s.d w = .ok d) :
    Inv { s with d := d } ∧ d.cfg_ = s.d.cfg_ := by
  have hsmall : s.d.out_.size < 2 ^ 64 := by
    have h1 := h.out_size
    have h2 := s.d.cfg_.output_word_count.toNat_lt
    omega
  unfold stage_one at hst
  split at hst
  · rename_i d' hw
    cases hst
    obtain ⟨lo, hi, hs⟩ := WriteCall.apply_spec hsmall hw
    exact ⟨inv_staged h hs, hs.cfg⟩
  · cases hst
  · cases hst
    exact ⟨h, rfl⟩

theorem stage_all_spec {F : FloatCast} {ws : List WriteCall} : ∀ {s : State} {d : MGateDriver},
    Inv s → stage_all F s.d ws = .ok d → Inv { s with d := d } ∧ d.cfg_ = s.d.cfg_ := by
  induction ws with
  | nil =>
      intro s d h hst
      cases hst
      exact ⟨h, rfl⟩
  | cons w ws ih =>
      intro s d h hst
      obtain ⟨d', hd', hrest⟩ := ProcessImage.bind_eq_ok.mp hst
      obtain ⟨h', hcfg⟩ := stage_one_spec h hd'
      obtain ⟨h'', hcfg'⟩ := @ih { s with d := d' } d h' hrest
      exact ⟨h'', hcfg'.trans hcfg⟩

/-- What the reading half of a successful exchange adds to the server's log, and
where the values are afterwards. -/
def ReadOutBy (log : List Served) (s : State) : Prop :=
  ∃ ins, ins.length = s.d.cfg_.input_word_count.toNat ∧
    s.d.status_.length = s.d.cfg_.status_word_count.toNat ∧
    s.server.log = log ++
      served (read_fc s.d.cfg_.input_uses_fc4) s.d.cfg_.input_base_reg ins ++
      served (read_fc s.d.cfg_.status_uses_fc4) s.d.cfg_.status_base_reg s.d.status_ ∧
    ∀ i, s.d.in_.buf_[i]? = byte_of ins i

/-- **`exchange`** keeps the invariant; after `Ok` only outputs staged while it
was reading are dirty. -/
theorem exchange_spec {F : FloatCast} {d : MGateDriver} {w : World} {during : List WriteCall}
    (h : Inv ⟨d, w.client, w.server⟩) (hw : Synced w) {d' : MGateDriver} {w' : World}
    {r : Result} (hx : exchange F d w during = .ok (d', w', r)) :
    d'.cfg_ = d.cfg_ ∧ Inv ⟨d', w'.client, w'.server⟩ ∧
      (r.ok = true → Synced w' ∧ (during = [] → ∀ i, ¬ d'.Dirty i) ∧
        ReadOutBy w.server.log ⟨d', w'.client, w'.server⟩) := by
  obtain ⟨df, wf, rf, hflush, hcfg, hinv, hlog, hfok⟩ := flush_outputs_spec h hw
  unfold exchange at hx
  simp only [hflush] at hx
  obtain ⟨f, hf, hx⟩ := ProcessImage.bind_eq_ok.mp hx
  cases hf
  -- each of the three parts ends the cycle when it fails
  by_cases hrf : rf.ok = false
  · rw [if_pos hrf] at hx
    cases hx
    refine ⟨hcfg, hinv, fun hr => ?_⟩
    rw [hrf] at hr
    cases hr
  rw [if_neg hrf] at hx
  obtain ⟨hwf, hclean⟩ := hfok (by simpa using hrf)
  obtain ⟨ds, hds, hx⟩ := ProcessImage.bind_eq_ok.mp hx
  obtain ⟨hinvs, hcfgs⟩ := @stage_all_spec F during ⟨df, wf.client, wf.server⟩ ds hinv hds
  obtain ⟨img, wi, ri, hread, hinvi, hiok⟩ := @read_inputs_spec ds wf hinvs hwf
  obtain ⟨i, hi, hx⟩ := ProcessImage.bind_eq_ok.mp hx
  rw [hread] at hi
  cases hi
  have hcfgi : ds.cfg_ = d.cfg_ := hcfgs.trans hcfg
  by_cases hri : ri.ok = false
  · rw [if_pos hri] at hx
    cases hx
    refine ⟨hcfgi, hinvi, fun hr => ?_⟩
    rw [hri] at hr
    cases hr
  rw [if_neg hri] at hx
  obtain ⟨hwi, ins, hlen, hlogi, hbytes⟩ := hiok (by simpa using hri)
  obtain ⟨st, wt, rt, hstatus, hinvt, htok⟩ := read_status_spec hinvi hwi
  rw [hstatus] at hx
  cases hx
  refine ⟨hcfgi, hinvt, fun hr => ?_⟩
  obtain ⟨hwt, hlent, hlogt⟩ := htok hr
  refine ⟨hwt, fun hnone => ?_, ins, hlen, hlent, ?_, hbytes⟩
  -- what the flush cleaned stays clean unless something was staged meanwhile
  · subst hnone
    cases hds
    exact hclean
  · rw [hlogt, hlogi, hlog]

/-- Without writes in between, `exchange` never throws. -/
theorem exchange_total {F : FloatCast} {d : MGateDriver} {w : World}
    (h : Inv ⟨d, w.client, w.server⟩) (hw : Synced w) : ∃ x, exchange F d w [] = .ok x := by
  obtain ⟨df, wf, rf, hflush, -, hinv, -, hfok⟩ := flush_outputs_spec h hw
  unfold exchange
  rw [hflush]
  by_cases hrf : rf.ok = false
  · exact ⟨(df, wf, rf), by simp [bind, Except.bind, hrf, pure, Except.pure]⟩
  · obtain ⟨hwf, -⟩ := hfok (by simpa using hrf)
    obtain ⟨img, wi, ri, hread, -, -⟩ := read_inputs_spec hinv hwf
    by_cases hri : ri.ok = false
    · exact ⟨_, by simp [bind, Except.bind, hrf, hri, hread, stage_all, pure, Except.pure]; rfl⟩
    · exact ⟨_, by simp [bind, Except.bind, hrf, hri, hread, stage_all, pure, Except.pure]; rfl⟩

theorem inv_mark {s : State} (h : Inv s) {c : Client} (hc : c.connected = true → c.unread = []) :
    Inv { s with d := s.d.mark_outputs_dirty, client := c } :=
  ⟨h.out_size, h.in_size, h.status_length, le_refl _, hc, fun _ i hi _ => ⟨Nat.zero_le i, hi⟩⟩

/-- `ensure_connected` marks everything dirty on a new connection. -/
theorem ensure_connected_spec {s : State} {connect : Result} (h : Inv s) :
    Inv (ensure_connected s connect).1 ∧ (ensure_connected s connect).1.server = s.server ∧
      ((ensure_connected s connect).2.ok = true →
        (ensure_connected s connect).1.client.connected = true) := by
  unfold ensure_connected
  by_cases hc : s.client.connected = true
  · rw [if_pos hc]
    exact ⟨h, rfl, fun _ => hc⟩
  · rw [if_neg hc]
    by_cases hr : connect.ok = true
    · rw [if_pos hr]
      exact ⟨inv_mark h fun _ => rfl, rfl, fun _ => rfl⟩
    · rw [if_neg hr]
      exact ⟨h, rfl, fun hr' => absurd hr' hr⟩

theorem cycle_spec {F : FloatCast} {s t : State} {connect r : Result} {turns : List Turn}
    {during : List WriteCall} (h : Inv s) (hx : cycle F s connect turns during = .ok (t, r)) :
    Inv t ∧ (r.ok = true → t.client.connected = true ∧ (during = [] → ∀ i, ¬ t.d.Dirty i) ∧
      ReadOutBy s.server.log t) := by
  obtain ⟨hinv, hserver, hcon⟩ := @ensure_connected_spec s connect h
  unfold cycle at hx
  simp only at hx
  by_cases hr : (ensure_connected s connect).2.ok = false
  · rw [if_pos hr] at hx
    have heq : ensure_connected s connect = (t, r) := Except.ok.inj hx
    rw [heq] at hinv hr
    refine ⟨hinv, fun hr' => ?_⟩
    rw [hr] at hr'
    cases hr'
  rw [if_neg hr] at hx
  have hc := hcon (by simpa using hr)
  obtain ⟨x, hx', hx⟩ := ProcessImage.bind_eq_ok.mp hx
  obtain ⟨d', w', r'⟩ := x
  cases hx
  obtain ⟨-, hinv', hok⟩ := @exchange_spec F _ ⟨(ensure_connected s connect).1.server,
    (ensure_connected s connect).1.client, turns⟩ during hinv ⟨hc, hinv.unread hc⟩ _ _ _ hx'
  refine ⟨hinv', fun hr' => ?_⟩
  obtain ⟨hsync, hclean, hread⟩ := hok hr'
  rw [hserver] at hread
  exact ⟨hsync.1, hclean, hread⟩

theorem cycle_total (F : FloatCast) {s : State} (h : Inv s) (connect : Result)
    (turns : List Turn) : ∃ x, cycle F s connect turns [] = .ok x := by
  obtain ⟨hinv, -, hcon⟩ := @ensure_connected_spec s connect h
  unfold cycle
  by_cases hr : (ensure_connected s connect).2.ok = false
  · exact ⟨_, if_pos hr⟩
  · have hc := hcon (by simpa using hr)
    obtain ⟨x, hx⟩ := @exchange_total F _ ⟨(ensure_connected s connect).1.server,
      (ensure_connected s connect).1.client, turns⟩ hinv ⟨hc, hinv.unread hc⟩
    refine ⟨(⟨x.1, x.2.1.client, x.2.1.server⟩, x.2.2), ?_⟩
    simp only [if_neg hr, hx]
    rfl

/-! ## Whole runs -/

theorem init_inv {s : State} (h : Init s) : Inv s := by
  obtain ⟨cfg, tags, hd, hclient⟩ := h
  refine ⟨?_, ?_, ?_, ?_, ?_, ?_⟩
  · rw [hd]
    simp only [MGateDriver.create, ProcessImage.resize, ProcessImage.size, List.length_replicate]
    omega
  · rw [hd]
    simp only [MGateDriver.create, ProcessImage.resize, ProcessImage.size, List.length_replicate]
    omega
  · rw [hd]
    exact List.length_replicate
  · rw [hd]
    exact Nat.zero_le _
  · intro hc
    rw [hclient] at hc
    cases hc
  · intro hc
    rw [hclient] at hc
    cases hc

/-- **The step lemma.** -/
theorem step_inv {F : FloatCast} {s t : State} {e : Event} (h : Inv s)
    (hst : step F s e = some t) : Inv t := by
  cases e with
  | stage w =>
      simp only [step, Option.map_eq_some_iff] at hst
      obtain ⟨d, hd, rfl⟩ := hst
      exact (stage_one_spec h (ProcessImage.toOption_eq_some hd)).1
  | mark_outputs_dirty =>
      cases hst
      exact inv_mark h h.unread
  | cycle connect turns during =>
      simp only [step, Option.map_eq_some_iff] at hst
      obtain ⟨x, hx, rfl⟩ := hst
      exact (cycle_spec h (ProcessImage.toOption_eq_some hx)).1
  | gateway holding input =>
      simp only [step] at hst
      split at hst
      · cases hst
      · rename_i hc
        cases hst
        exact ⟨h.out_size, h.in_size, h.status_length, h.hi_le, h.unread,
          fun hc' => absurd hc' hc⟩

theorem reach_inv {F : FloatCast} {s : State} (h : Reach (step F) Any Init s) : Inv s :=
  h.invariant (fun _ => init_inv) (fun _ _ _ hinv _ hst => step_inv hinv hst)

/-- Every output register holds the big-endian word of the output image. -/
def OutputsHeld (s : State) : Prop :=
  ∀ i, i < s.d.cfg_.output_word_count.toNat →
    s.d.out_.buf_[2 * i]? =
      some (hi (s.server.holding (s.d.cfg_.output_base_reg + UInt16.ofNat i))) ∧
    s.d.out_.buf_[2 * i + 1]? =
      some (lo (s.server.holding (s.d.cfg_.output_base_reg + UInt16.ofNat i)))

/-- The input image holds the registers of the server's log from `n` on, which
are the input registers in order, from the table the configuration selects. -/
def InputsServed (n : ℕ) (s : State) : Prop :=
  ∀ i, i < s.d.cfg_.input_word_count.toNat → ∃ v,
    s.server.log[n + i]? = some ⟨read_fc s.d.cfg_.input_uses_fc4,
      s.d.cfg_.input_base_reg + UInt16.ofNat i, v⟩ ∧
    s.d.in_.buf_[2 * i]? = some (hi v) ∧ s.d.in_.buf_[2 * i + 1]? = some (lo v)

/-- Likewise the status words. -/
def StatusServed (n : ℕ) (s : State) : Prop :=
  ∀ i, i < s.d.cfg_.status_word_count.toNat → ∃ v,
    s.server.log[n + i]? = some ⟨read_fc s.d.cfg_.status_uses_fc4,
      s.d.cfg_.status_base_reg + UInt16.ofNat i, v⟩ ∧ s.d.status_[i]? = some v

theorem outputsHeld_of_clean {s : State} (h : Inv s) (hc : s.client.connected = true)
    (hclean : ∀ i, ¬ s.d.Dirty i) : OutputsHeld s := by
  have hbyte : ∀ i, i < s.d.out_.size →
      s.d.out_.buf_[i]? = byte_of (outputs s.d.cfg_ s.server) i := by
    intro i hi
    by_contra hne
    exact hclean i (h.held hc i hi hne)
  have hsize := h.out_size
  intro i hi
  rw [hbyte _ (by omega), hbyte _ (by omega)]
  exact ⟨byte_of_even (getElem?_fetch hi), byte_of_odd (getElem?_fetch hi)⟩

theorem getElem?_served {fc : UInt8} {addr : UInt16} {vs : List UInt16} {i : ℕ} {v : UInt16}
    (h : vs[i]? = some v) : (served fc addr vs)[i]? = some ⟨fc, addr + UInt16.ofNat i, v⟩ := by
  unfold served
  rw [List.getElem?_mapIdx, h]
  rfl

theorem ReadOutBy.served {log : List Served} {s : State} (h : ReadOutBy log s) :
    InputsServed log.length s ∧
      StatusServed (log.length + s.d.cfg_.input_word_count.toNat) s := by
  obtain ⟨ins, hins, hst, hlog, hbytes⟩ := h
  have hlen : (Mgate.served (read_fc s.d.cfg_.input_uses_fc4) s.d.cfg_.input_base_reg ins).length =
      ins.length := List.length_mapIdx
  constructor
  · intro i hi
    obtain ⟨v, hv⟩ : ∃ v, ins[i]? = some v := ⟨_, List.getElem?_eq_getElem (by omega)⟩
    refine ⟨v, ?_, ?_, ?_⟩
    · rw [hlog, List.append_assoc, List.getElem?_append_right (by omega),
        List.getElem?_append_left (by omega), Nat.add_sub_cancel_left, getElem?_served hv]
    · rw [hbytes, byte_of_even hv]
    · rw [hbytes, byte_of_odd hv]
  · intro i hi
    obtain ⟨v, hv⟩ : ∃ v, s.d.status_[i]? = some v := ⟨_, List.getElem?_eq_getElem (by omega)⟩
    refine ⟨v, ?_, hv⟩
    rw [hlog, List.getElem?_append_right (by rw [List.length_append]; omega),
      List.length_append, hlen, hins, Nat.add_sub_cancel_left, getElem?_served hv]

/-- **A successful exchange is a register-memory copy.** In every run of staged
writes, exchanges, failures and reconnects, and for every configuration: a
cycle never throws, and when its exchange returns `Ok` the output registers
hold the output image, and the input and status images hold, in order, exactly
the registers the server served during it. Outputs staged while the exchange
was already reading are the only ones that may differ, and they are dirty. -/
theorem exchange_copies (F : FloatCast) {s : State} (h : Reach (step F) Any Init s)
    (connect : Result) (turns : List Turn) (during : List WriteCall) :
    (∃ x, cycle F s connect turns [] = .ok x) ∧
      ∀ t r, cycle F s connect turns during = .ok (t, r) → r.ok = true →
        (during = [] → OutputsHeld t) ∧
        (∀ i, i < t.d.out_.size → ¬ t.d.Dirty i →
          t.d.out_.buf_[i]? = byte_of (outputs t.d.cfg_ t.server) i) ∧
        InputsServed s.server.log.length t ∧
        StatusServed (s.server.log.length + t.d.cfg_.input_word_count.toNat) t := by
  have hinv := reach_inv h
  refine ⟨cycle_total F hinv connect turns, ?_⟩
  intro t r hx hr
  obtain ⟨hinvt, hok⟩ := cycle_spec hinv hx
  obtain ⟨hc, hclean, hread⟩ := hok hr
  refine ⟨fun hnone => outputsHeld_of_clean hinvt hc (hclean hnone), ?_, hread.served⟩
  intro i hi hnd
  by_contra hne
  exact hnd (hinvt.held hc i hi hne)

/-! ### A small area over a failing link -/

/-- Three output registers at the default base, two holding registers as
inputs, one status word. -/
def small_area : GatewayConfig where
  input_base_reg := 0x0010
  input_word_count := 2
  output_word_count := 3
  input_uses_fc4 := false
  status_word_count := 1

def small_state : State where
  d := { MGateDriver.create small_area with
    tags_ := [{ name := "ControlWord", area := .Output, type := .U16 }] }
  client := {}
  server := ⟨fun a => a + 7, fun a => a + 1, []⟩

def quiet_turn (o : Outcome) : Turn := ⟨fun a => a + 1, fun a => a + 7, o⟩

/-- The run command is staged; the first cycle connects and loses its write
request after it took effect; the second cycle loses the connection. -/
def failing_link : List Event :=
  [.stage (.write_int "ControlWord" 0x8002), .cycle {} [quiet_turn (.lost true)] [],
    .cycle {} [quiet_turn (.answered [3]), quiet_turn (.closed true false)] []]

def answered_turns : List Turn :=
  [quiet_turn (.answered [3]), quiet_turn (.answered []), quiet_turn (.answered [100])]

/-- The next cycle brings everything back in step. -/
theorem failing_link_recovers :
    ∃ s t r, run (step no_floats) small_state failing_link = some s ∧
      cycle no_floats s {} answered_turns [] = .ok (t, r) ∧ r.ok = true ∧
      t.server.holding 0x0800 = 0x8002 ∧ t.d.in_.buf_ = [0x00, 0x17, 0x00, 0x18] ∧
      OutputsHeld t ∧ InputsServed s.server.log.length t ∧
      StatusServed (s.server.log.length + t.d.cfg_.input_word_count.toNat) t := by
  have hinit : Init small_state :=
    ⟨small_area, [{ name := "ControlWord", area := .Output, type := .U16 }], rfl, rfl⟩
  have heval : ((run (step no_floats) small_state failing_link).bind fun s =>
      (cycle no_floats s {} answered_turns []).toOption.map fun x =>
        (x.2.ok, x.1.server.holding 0x0800, x.1.d.in_.buf_)) =
      some (true, 0x8002, [0x00, 0x17, 0x00, 0x18]) := by
    decide +kernel
  obtain ⟨s, hrun, hcycle⟩ := Option.bind_eq_some_iff.mp heval
  obtain ⟨⟨t, r⟩, hx, hval⟩ := Option.map_eq_some_iff.mp hcycle
  obtain ⟨hr, hreg, hbuf⟩ : r.ok = true ∧ t.server.holding 0x0800 = 0x8002 ∧
      t.d.in_.buf_ = [0x00, 0x17, 0x00, 0x18] := by
    simpa using hval
  have hx := ProcessImage.toOption_eq_some hx
  obtain ⟨-, hcopy⟩ := exchange_copies no_floats (Reach.run (.init hinit) hrun) {}
    answered_turns []
  obtain ⟨hout, -, hin, hst⟩ := hcopy t r hx hr
  exact ⟨s, t, r, hrun, hx, hr, hreg, hbuf, hout rfl, hin, hst⟩

end Mgate.Exchange
