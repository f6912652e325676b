/-
A Modbus/TCP server by the specification, and what one request of the client
achieves against it.

The server keeps a holding and an input register table and serves FC3, FC4,
FC6 and FC16: the request is parsed from the bytes of its frame, an illegal
quantity or address is answered with an exception, and a legal one reads or
writes the table. `log` records, in order, the registers it has read out and
the values they had at that moment.

A request is answered in time, answered with an exception, lost, or ends the
connection; a lost one may or may not have reached the tables. The results are
one specification per kind of request, `write_single_register_spec`,
`write_multiple_registers_spec` and `read_registers_spec`.
-/
import Wavemakers.ModbusFraming

set_option autoImplicit false

namespace Mgate

/-! ## The tables -/

/-- A register read out by FC3 or FC4, with the value it had. -/
structure Served where
  fc : UInt8
  addr : UInt16
  value : UInt16
  deriving DecidableEq, Repr

structure Server where
  holding : UInt16 → UInt16
  input : UInt16 → UInt16
  log : List Served

/-- `n` registers from `addr` on. -/
def fetch (table : UInt16 → UInt16) (addr : UInt16) (n : ℕ) : List UInt16 :=
  (List.range n).map fun i => table (addr + UInt16.ofNat i)

/-- The table with the registers from `addr` on replaced by `vs`. -/
def store_registers (table : UInt16 → UInt16) (addr : UInt16) (vs : List UInt16) :
    UInt16 → UInt16 :=
  fun a => vs.getD (a - addr).toNat (table a)

/-- Values read out at consecutive addresses. -/
def served (fc : UInt8) (addr : UInt16) (vs : List UInt16) : List Served :=
  vs.mapIdx fun i v => ⟨fc, addr + UInt16.ofNat i, v⟩

/-! ## The requests -/

namespace Server

def exception_pdu (fc code : UInt8) : List UInt8 := [fc ||| 0x80, code]

/-- FC3 and FC4. -/
def serve_read (sv : Server) (fc : UInt8) (table : UInt16 → UInt16) (addr count : UInt16) :
    Server × List UInt8 :=
  if count = 0 ∨ count > 125 then (sv, exception_pdu fc 0x03)
  else if addr.toNat + count.toNat > 65536 then (sv, exception_pdu fc 0x02)
  else
    let vs := fetch table addr count.toNat
    ({ sv with log := sv.log ++ served fc addr vs },
      fc :: UInt8.ofNat (2 * count.toNat) :: vs.flatMap fun r => [hi r, lo r])

/-- FC16 -/
def serve_write (sv : Server) (addr count : UInt16) (byte_count : UInt8) (data : List UInt8) :
    Server × List UInt8 :=
  if count = 0 ∨ count > 123 ∨ byte_count.toNat ≠ 2 * count.toNat ∨
      data.length ≠ 2 * count.toNat then (sv, exception_pdu 0x10 0x03)
  else if addr.toNat + count.toNat > 65536 then (sv, exception_pdu 0x10 0x02)
  else
    let vs := (List.range count.toNat).map fun i => word (data.getD (2 * i) 0) (data.getD (2 * i + 1) 0)
    ({ sv with holding := store_registers sv.holding addr vs },
      [0x10, hi addr, lo addr, hi count, lo count])

/-- Serve one request PDU. -/
def serve (sv : Server) (pdu : List UInt8) : Server × List UInt8 :=
  let fc := pdu.getD 0 0
  let addr := word (pdu.getD 1 0) (pdu.getD 2 0)
  let arg := word (pdu.getD 3 0) (pdu.getD 4 0)
  if fc = 0x03 then sv.serve_read 0x03 sv.holding addr arg
  else if fc = 0x04 then sv.serve_read 0x04 sv.input addr arg
  else if fc = 0x06 then ({ sv with holding := store_registers sv.holding addr [arg] }, pdu.take 5)
  else if fc = 0x10 then sv.serve_write addr arg (pdu.getD 5 0) (pdu.drop 6)
  else (sv, exception_pdu fc 0x01)

/-- The reply to a frame: its transaction id and unit id around a response PDU. -/
def reply (frame : List UInt8) (pdu : List UInt8) : List UInt8 :=
  mbap (word (frame.getD 0 0) (frame.getD 1 0)) (frame.getD 6 0) pdu

theorem reply_mbap (tid : UInt16) (unit_id : UInt8) (pdu resp : List UInt8) :
    reply (mbap tid unit_id pdu) resp = mbap tid unit_id resp := by
  simp [reply, mbap]

theorem drop_mbap (tid : UInt16) (unit_id : UInt8) (pdu : List UInt8) :
    (mbap tid unit_id pdu).drop 7 = pdu := by
  simp [mbap]

end Server

/-! ## How a request ends -/

inductive Outcome where
  /-- answered in time, the reply split as the network likes -/
  | answered (segments : List ℕ)
  /-- answered with an exception, without effect -/
  | exception (code : UInt8) (segments : List ℕ)
  /-- never answered -/
  | lost (applied : Bool)
  /-- the connection ends, before or after the request went out -/
  | closed (send_ok applied : Bool)
  deriving DecidableEq, Repr

/-- Segments of any size, then what is left byte by byte: all `n` bytes are
there before the timeout. -/
def in_time (segments : List ℕ) (n : ℕ) : List Recv :=
  segments.map (fun k => .data (k + 1)) ++ List.replicate n (.data 1)

/-- The server's side of a request: the tables afterwards, and what the client's
socket meets. -/
def Server.attempt (sv : Server) (frame : List UInt8) : Outcome → Server × Io
  | .answered segments =>
      let r := sv.serve (frame.drop 7)
      (r.1, ⟨true, reply frame r.2, in_time segments (reply frame r.2).length⟩)
  | .exception code segments =>
      let pdu := exception_pdu ((frame.drop 7).getD 0 0) code
      (sv, ⟨true, reply frame pdu, in_time segments (reply frame pdu).length⟩)
  | .lost applied => (if applied then (sv.serve (frame.drop 7)).1 else sv, ⟨true, [], []⟩)
  | .closed send_ok applied =>
      (if applied then (sv.serve (frame.drop 7)).1 else sv, ⟨send_ok, [], [.closed]⟩)

/-- The frame the client sends for a PDU. -/
def Client.frame (c : Client) (pdu : List UInt8) : List UInt8 := mbap (c.tid_ + 1) c.unit_id_ pdu

/-! ## The client against a reply that arrives in time -/

/-- At least `n` more bytes can be received before a timeout. -/
def Arriving (script : List Recv) (n : ℕ) : Prop :=
  (∀ r ∈ script, ∃ k, r = .data (k + 1)) ∧ n ≤ script.length

theorem arriving_in_time (segments : List ℕ) (n : ℕ) : Arriving (in_time segments n) n := by
  refine ⟨fun r hr => ?_, by simp [in_time]⟩
  rcases List.mem_append.mp hr with hr | hr
  · obtain ⟨k, -, rfl⟩ := List.mem_map.mp hr
    exact ⟨k, rfl⟩
  · exact ⟨0, List.eq_of_mem_replicate hr⟩

/-- **`recv_exact` makes progress**: bytes that arrive in time are received. -/
theorem recv_exact_arriving (script : List Recv) : ∀ (n m : ℕ) (unread : List UInt8),
    Arriving script (n + m) → n ≤ unread.length →
      (recv_exact script n unread).status = .full ∧
        Arriving (recv_exact script n unread).script m := by
  induction script with
  | nil =>
      intro n m unread ha hn
      have hlen := ha.2
      simp only [List.length_nil] at hlen
      obtain rfl : n = 0 := by omega
      exact ⟨rfl, ha.1, by simpa [recv_exact] using hlen⟩
  | cons r script ih =>
      intro n m unread ha hn
      rcases n with _ | n
      · rw [recv_exact]
        exact ⟨rfl, ha.1, by simpa using ha.2⟩
      · obtain ⟨k, rfl⟩ := ha.1 r (by simp)
        have hlen := ha.2
        rw [List.length_cons] at hlen
        have hpos : ¬ min (k + 1) (min (n + 1) unread.length) = 0 := by omega
        simp only [recv_exact]
        rw [if_neg hpos]
        -- every receive takes at least one byte and one entry of the script
        refine ih _ m _ ⟨fun r hr => ha.1 r (by simp [hr]), by omega⟩ ?_
        rw [List.length_drop]
        omega

open Framing in
/-- A reply that arrives in time is received whole, whatever its segments. -/
theorem receive_in_time {tid : UInt16} {fc : UInt8} {resp_cap attempts : ℕ} {c : Client}
    {unit_id : UInt8} {resp : List UInt8} {segments : List ℕ} (hpos : 0 < resp.length)
    (hle : resp.length ≤ 253) (hu : c.unread = mbap tid unit_id resp) :
    receive tid fc resp_cap (attempts + 1) c
        (in_time segments (mbap tid unit_id resp).length) =
      if resp.getD 0 0 = fc ||| 0x80 then
        ⟨{ c with unread := [] },
          { status := .ModbusException,
            mb_exception := if UInt16.ofNat (resp.length + 1) ≥ 3 then resp.getD 1 0 else 0 },
          [], 1⟩
      else if resp.getD 0 0 ≠ fc then
        ⟨Client.drop { c with unread := [] }, { status := .ProtocolError }, [], 1⟩
      else if resp_cap < (UInt16.ofNat (resp.length + 1)).toNat - 2 then
        ⟨Client.drop { c with unread := [] }, { status := .ProtocolError }, [], 1⟩
      else ⟨{ c with unread := [] }, {}, resp.drop 1, 1⟩ := by
  let a : Adu := ⟨tid.toNat, ⟨unit_id, resp, hpos, hle⟩⟩
  have hflat : mbap tid unit_id resp = flat [a] := by
    simp [flat, Adu.bytes, a]
  have hlen : (mbap tid unit_id resp).length = 7 + resp.length := by
    simp [mbap]
    omega
  -- the reply is one frame; its header arrives, then its body
  have harr := arriving_in_time segments (mbap tid unit_id resp).length
  rw [hlen] at harr
  obtain ⟨hh, hrest⟩ := recv_exact_arriving _ 7 resp.length (flat [a]) harr
    (by rw [← hflat, hlen]; omega)
  obtain ⟨a', fs', hcons, hid, hproto, hrlen, hunread⟩ := header_full hh
  obtain ⟨rfl, rfl⟩ : a = a' ∧ [] = fs' := by
    simpa using hcons
  have hbody : (UInt16.ofNat (a.answer.pdu.length + 1)).toNat - 1 = resp.length := by
    rw [toNat_length]
    rfl
  obtain ⟨hb, -⟩ := recv_exact_arriving _ ((UInt16.ofNat (a.answer.pdu.length + 1)).toNat - 1) 0
    (a.answer.pdu ++ flat []) (by rw [hbody]; exact hrest)
    (by rw [hbody, List.length_append]; exact Nat.le_add_right _ _)
  obtain ⟨hbytes, hempty⟩ := body_full hb
  rw [hlen]
  simp only [receive, hu, hflat, hh, hid, hproto, hrlen, hunread, hb, hbytes, hempty]
  rw [if_neg (length_field_ok a.answer), if_neg (by simp [a])]
  rfl

/-! ## One request -/

theorem length_fetch (table : UInt16 → UInt16) (addr : UInt16) (n : ℕ) :
    (fetch table addr n).length = n := by
  simp [fetch]

/-- Every response fits a frame. -/
theorem length_serve (sv : Server) {pdu : List UInt8} (hpdu : 0 < pdu.length) :
    0 < (sv.serve pdu).2.length ∧ (sv.serve pdu).2.length ≤ 253 := by
  have hread : ∀ (fc : UInt8) (table : UInt16 → UInt16) (addr count : UInt16),
      0 < (sv.serve_read fc table addr count).2.length ∧
        (sv.serve_read fc table addr count).2.length ≤ 253 := by
    intro fc table addr count
    unfold Server.serve_read
    split_ifs with hcount hrange
    · simp [Server.exception_pdu]
    · simp [Server.exception_pdu]
    · rw [not_or, gt_iff_lt, UInt16.lt_iff_toNat_lt] at hcount
      have : ¬ 125 < count.toNat := hcount.2
      simp only [List.length_cons, length_flatMap_bytes, length_fetch]
      omega
  unfold Server.serve
  simp only
  split_ifs
  · exact hread _ _ _ _
  · exact hread _ _ _ _
  · rw [List.length_take]
    omega
  · unfold Server.serve_write
    split_ifs
    · simp [Server.exception_pdu]
    · simp [Server.exception_pdu]
    · simp
  · simp [Server.exception_pdu]

/-- What one transaction against the server leaves behind. -/
structure Attempted (sv sv' : Server) (pdu : List UInt8) (t : Transact) : Prop where
  unread : t.client.connected = true → t.client.unread = []
  effect : sv' = sv ∨ sv' = (sv.serve pdu).1
  ok : t.result.status = .Ok → t.client.connected = true ∧ sv' = (sv.serve pdu).1 ∧
    (sv.serve pdu).2 = pdu.getD 0 0 :: t.resp

/-- A reply in time is either the answer to the request or an error. -/
theorem transact_in_time {c : Client} {pdu resp : List UInt8} {fc : UInt8} {resp_cap : ℕ}
    {segments : List ℕ} (hc : c.connected = true) (hu : c.unread = []) (hpdu : 0 < pdu.length)
    (hle : pdu.length ≤ 253) (hpos : 0 < resp.length) (hresp : resp.length ≤ 253) :
    let reply := mbap (c.tid_ + 1) c.unit_id_ resp
    let t := transact c ⟨true, reply, in_time segments reply.length⟩ pdu fc resp_cap
    (t.client.connected = true → t.client.unread = []) ∧
      (t.result.status = .Ok → t.client.connected = true ∧ resp.getD 0 0 ≠ fc ||| 0x80 ∧
        resp = fc :: t.resp) := by
  intro reply t
  have ht : t = receive (c.tid_ + 1) fc resp_cap (3 + 1)
      { c with tid_ := c.tid_ + 1, unread := reply } (in_time segments reply.length) := by
    simp only [t, transact, hc, hu, List.nil_append]
    rw [if_neg (by simp), if_neg (by omega), if_neg (by simp)]
  rw [receive_in_time hpos hresp rfl] at ht
  rw [ht]
  -- the checks of `receive` one after the other; only the last way out is `Ok`
  by_cases hexc : resp.getD 0 0 = fc ||| 0x80
  · rw [if_pos hexc]
    exact ⟨fun _ => rfl, fun h => by cases h⟩
  rw [if_neg hexc]
  by_cases hfc : resp.getD 0 0 ≠ fc
  · rw [if_pos hfc]
    exact ⟨fun _ => rfl, fun h => by cases h⟩
  rw [if_neg hfc]
  by_cases hcap : resp_cap < (UInt16.ofNat (resp.length + 1)).toNat - 2
  · rw [if_pos hcap]
    exact ⟨fun _ => rfl, fun h => by cases h⟩
  rw [if_neg hcap]
  refine ⟨fun _ => rfl, fun _ => ⟨hc, hexc, ?_⟩⟩
  rw [not_not] at hfc
  rw [← hfc]
  cases resp with
  | nil => simp at hpos
  | cons b rest => rfl

/-- **One request**, however it ends. -/
theorem transact_attempt (sv : Server) (o : Outcome) {c : Client} {pdu : List UInt8}
    {resp_cap : ℕ} (hc : c.connected = true) (hu : c.unread = []) (hpdu : 0 < pdu.length)
    (hle : pdu.length ≤ 253) :
    Attempted sv (sv.attempt (c.frame pdu) o).1 pdu
      (transact c (sv.attempt (c.frame pdu) o).2 pdu (pdu.getD 0 0) resp_cap) := by
  cases o with
  | answered segments =>
      obtain ⟨hpos, hresp⟩ := length_serve sv hpdu
      simp only [Server.attempt, Client.frame, Server.drop_mbap, Server.reply_mbap]
      obtain ⟨hun, hok⟩ := @transact_in_time c pdu (sv.serve pdu).2 (pdu.getD 0 0) resp_cap
        segments hc hu hpdu hle hpos hresp
      exact ⟨hun, .inr rfl, fun h => ⟨(hok h).1, rfl, (hok h).2.2⟩⟩
  | exception code segments =>
      simp only [Server.attempt, Client.frame, Server.drop_mbap, Server.reply_mbap]
      obtain ⟨hun, hok⟩ := @transact_in_time c pdu (Server.exception_pdu (pdu.getD 0 0) code)
        (pdu.getD 0 0) resp_cap segments hc hu hpdu hle (by simp [Server.exception_pdu])
        (by simp [Server.exception_pdu])
      -- the exception bit keeps the reply from being taken for the answer
      exact ⟨hun, .inl rfl, fun h => absurd rfl (hok h).2.1⟩
  | lost applied =>
      have ht : transact c ⟨true, [], []⟩ pdu (pdu.getD 0 0) resp_cap =
          ⟨{ c with tid_ := c.tid_ + 1, unread := [] }, { status := .Timeout }, [], 0⟩ := by
        simp only [transact, hc, hu, List.append_nil]
        rw [if_neg (by simp), if_neg (by omega), if_neg (by simp)]
        rfl
      simp only [Server.attempt, Client.frame, Server.drop_mbap]
      rw [ht]
      refine ⟨fun _ => rfl, ?_, nofun⟩
      cases applied with
      | true => exact .inr rfl
      | false => exact .inl rfl
  | closed send_ok applied =>
      have ht : (transact c ⟨send_ok, [], [.closed]⟩ pdu (pdu.getD 0 0) resp_cap).client.connected
            = false ∧
          (transact c ⟨send_ok, [], [.closed]⟩ pdu (pdu.getD 0 0) resp_cap).result.status =
            .SocketError := by
        simp only [transact, hc, hu, List.append_nil]
        rw [if_neg (by simp), if_neg (by omega)]
        cases send_ok with
        | true => exact ⟨rfl, rfl⟩
        | false => exact ⟨rfl, rfl⟩
      simp only [Server.attempt, Client.frame, Server.drop_mbap]
      refine ⟨fun h => ?_, ?_, fun h => ?_⟩
      · rw [ht.1] at h
        cases h
      · cases applied with
        | true => exact .inr rfl
        | false => exact .inl rfl
      · rw [ht.2] at h
        cases h

/-! ## The kinds of request -/

/-- What a write request for `vs` from `addr` on leaves behind. -/
structure Wrote (sv sv' : Server) (addr : UInt16) (vs : List UInt16) (t : Transact) : Prop where
  unread : t.client.connected = true → t.client.unread = []
  effect : sv' = sv ∨ sv' = { sv with holding := store_registers sv.holding addr vs }
  ok : t.result.status = .Ok → t.client.connected = true ∧
    sv' = { sv with holding := store_registers sv.holding addr vs }

theorem write_single_register_spec (sv : Server) (o : Outcome) {c : Client} (addr value : UInt16)
    (hc : c.connected = true) (hu : c.unread = []) :
    Wrote sv (sv.attempt (c.frame (write_single_pdu addr value)) o).1 addr [value]
      (write_single_register c (sv.attempt (c.frame (write_single_pdu addr value)) o).2
        addr value) := by
  have hserve : (sv.serve (write_single_pdu addr value)).1 =
      { sv with holding := store_registers sv.holding addr [value] } := by
    simp [Server.serve, write_single_pdu]
  have h := @transact_attempt sv o c (write_single_pdu addr value) 8 hc hu
    (by simp [write_single_pdu]) (by simp [write_single_pdu])
  refine ⟨h.unread, ?_, fun hok => ⟨(h.ok hok).1, ?_⟩⟩
  · rw [← hserve]
    exact h.effect
  · rw [← hserve]
    exact (h.ok hok).2.1

/-- Decoding the data of an FC16 request gives back the registers it was built from. -/
theorem decode_flatMap_bytes (src : List UInt16) :
    ((List.range src.length).map fun i =>
      word ((src.flatMap fun r => [hi r, lo r]).getD (2 * i) 0)
        ((src.flatMap fun r => [hi r, lo r]).getD (2 * i + 1) 0)) = src := by
  refine List.ext_getElem (by simp) ?_
  intro i h₁ h₂
  have hlt : i < src.length := h₂
  rw [List.getElem_map, List.getElem_range, List.getD_eq_getElem?_getD,
    List.getD_eq_getElem?_getD, getElem?_flatMap_bytes, getElem?_flatMap_bytes,
    byte_of_even (List.getElem?_eq_getElem hlt), byte_of_odd (List.getElem?_eq_getElem hlt),
    Option.getD_some, Option.getD_some, word_hi_lo]

theorem write_multiple_registers_spec (sv : Server) (o : Outcome) {c : Client} (addr : UInt16)
    {src : List UInt16} (hpos : 0 < src.length) (hle : src.length ≤ 123)
    (hc : c.connected = true) (hu : c.unread = []) :
    Wrote sv (sv.attempt (c.frame (write_multiple_pdu addr src)) o).1 addr src
      (write_multiple_registers c (sv.attempt (c.frame (write_multiple_pdu addr src)) o).2
        addr src) := by
  have hcount : (UInt16.ofNat src.length).toNat = src.length := by
    rw [UInt16.toNat_ofNat']
    omega
  have hbytes : (UInt8.ofNat (src.length * 2)).toNat = 2 * src.length := by
    rw [UInt8.toNat_ofNat']
    omega
  have hserve : sv.serve (write_multiple_pdu addr src) =
      sv.serve_write addr (UInt16.ofNat src.length) (UInt8.ofNat (src.length * 2))
        (src.flatMap fun r => [hi r, lo r]) := by
    simp [Server.serve, write_multiple_pdu]
  have hlegal : ¬(UInt16.ofNat src.length = 0 ∨ UInt16.ofNat src.length > 123 ∨
      (UInt8.ofNat (src.length * 2)).toNat ≠ 2 * (UInt16.ofNat src.length).toNat ∨
      (src.flatMap fun r => [hi r, lo r]).length ≠ 2 * (UInt16.ofNat src.length).toNat) := by
    rw [← UInt16.toNat_inj, gt_iff_lt, UInt16.lt_iff_toNat_lt, hcount, hbytes,
      length_flatMap_bytes]
    have h0 : (0 : UInt16).toNat = 0 := rfl
    have h123 : (123 : UInt16).toNat = 123 := rfl
    omega
  unfold Server.serve_write at hserve
  rw [if_neg hlegal] at hserve
  have h := @transact_attempt sv o c (write_multiple_pdu addr src) 8 hc hu
    (by simp [write_multiple_pdu])
    (by simp only [write_multiple_pdu, List.length_append, length_flatMap_bytes, List.length_cons,
          List.length_nil]
        omega)
  unfold write_multiple_registers
  rw [if_neg (by omega)]
  by_cases hrange : addr.toNat + (UInt16.ofNat src.length).toNat > 65536
  · -- the specification refuses to wrap around the table
    rw [if_pos hrange] at hserve
    refine ⟨h.unread, .inl ?_, fun hok => ?_⟩
    · have he := h.effect
      rw [hserve] at he
      exact he.elim id id
    · have hresp := (h.ok hok).2.2
      rw [hserve] at hresp
      have hhead : (0x10 : UInt8) ||| 0x80 = 0x10 := (List.cons.inj hresp).1
      exact absurd hhead (by decide)
  · rw [if_neg hrange, hcount, decode_flatMap_bytes] at hserve
    have he := h.effect
    refine ⟨h.unread, ?_, fun hok => ?_⟩
    · rwa [hserve] at he
    · have hres := (h.ok hok).2.1
      rw [hserve] at hres
      exact ⟨(h.ok hok).1, hres⟩

/-- The table a read function code selects. -/
def Server.table (sv : Server) (fc : UInt8) : UInt16 → UInt16 :=
  if fc = 0x04 then sv.input else sv.holding

/-- What a read request for `n` registers from `addr` on leaves behind. -/
structure ReadOut (sv sv' : Server) (fc : UInt8) (addr : UInt16) (n : ℕ) (t : Transact)
    (regs : List UInt16) : Prop where
  unread : t.client.connected = true → t.client.unread = []
  holding : sv'.holding = sv.holding
  ok : t.result.status = .Ok → t.client.connected = true ∧ regs = fetch (sv.table fc) addr n ∧
    sv'.log = sv.log ++ served fc addr regs

theorem flatMap_bytes_injective {regs regs' : List UInt16}
    (h : regs.flatMap (fun r => [hi r, lo r]) = regs'.flatMap fun r => [hi r, lo r]) :
    regs = regs' := by
  refine List.ext_getElem? fun k => getElem?_of_byte_of ?_ ?_
  · rw [← getElem?_flatMap_bytes, h, getElem?_flatMap_bytes]
  · rw [← getElem?_flatMap_bytes, h, getElem?_flatMap_bytes]

/-- The checks on the response do not touch the client. -/
theorem read_registers_client (c : Client) (io : Io) (fc : UInt8) (addr : UInt16) {count : UInt16}
    (hcount : ¬(count = 0 ∨ count > 125)) :
    (read_registers c io fc addr count).1.client =
      (transact c io (read_pdu fc addr count) fc 256).client := by
  simp only [read_registers, if_neg hcount]
  split_ifs
  · rfl
  · rfl
  · rfl

theorem read_registers_spec (sv : Server) (o : Outcome) {c : Client} {fc : UInt8}
    (addr : UInt16) {count : UInt16} (hfc : fc = 0x03 ∨ fc = 0x04)
    (hcount : ¬(count = 0 ∨ count > 125)) (hc : c.connected = true) (hu : c.unread = []) :
    ReadOut sv (sv.attempt (c.frame (read_pdu fc addr count)) o).1 fc addr count.toNat
      (read_registers c (sv.attempt (c.frame (read_pdu fc addr count)) o).2 fc addr count).1
      (read_registers c (sv.attempt (c.frame (read_pdu fc addr count)) o).2 fc addr count).2 := by
  have hserve : sv.serve (read_pdu fc addr count) =
      sv.serve_read fc (sv.table fc) addr count := by
    rcases hfc with rfl | rfl
    · simp [Server.serve, read_pdu, Server.table]
    · simp [Server.serve, read_pdu, Server.table]
  unfold Server.serve_read at hserve
  rw [if_neg hcount] at hserve
  have h := @transact_attempt sv o c (read_pdu fc addr count) 256 hc hu (by simp [read_pdu])
    (by simp [read_pdu])
  have hv : (Framing.Request.read_registers fc addr count).valid = true := by
    simp only [Framing.Request.valid, Bool.and_eq_true, decide_eq_true_eq]
    rw [not_or, gt_iff_lt, UInt16.not_lt] at hcount
    exact ⟨UInt16.pos_iff_ne_zero.mpr hcount.1, hcount.2⟩
  have hholding : (sv.attempt (c.frame (read_pdu fc addr count)) o).1.holding = sv.holding := by
    rcases h.effect with he | he
    · rw [he]
    · rw [he, hserve]
      split
      · rfl
      · rfl
  refine ⟨?_, hholding, fun hok => ?_⟩
  · rw [read_registers_client _ _ _ _ hcount]
    exact h.unread
  · obtain ⟨hst, hlen, hpre⟩ := Framing.read_registers_ok hv hok
    obtain ⟨hcon, hsv, hresp⟩ := h.ok hst
    rw [read_registers_client _ _ _ _ hcount]
    by_cases hrange : addr.toNat + count.toNat > 65536
    · -- an exception is never taken for the answer
      rw [hserve, if_pos hrange] at hresp
      have hhead : fc ||| 0x80 = fc := (List.cons.inj hresp).1
      rcases hfc with rfl | rfl
      · exact absurd hhead (by decide)
      · exact absurd hhead (by decide)
    rw [hserve, if_neg hrange] at hresp hsv
    have hbody : UInt8.ofNat (2 * count.toNat) ::
        (fetch (sv.table fc) addr count.toNat).flatMap (fun r => [hi r, lo r]) =
          (transact c (sv.attempt (c.frame (read_pdu fc addr count)) o).2 (read_pdu fc addr count)
            fc 256).resp := (List.cons.inj hresp).2
    have hregs : (read_registers c (sv.attempt (c.frame (read_pdu fc addr count)) o).2 fc addr
        count).2 = fetch (sv.table fc) addr count.toNat := by
      refine flatMap_bytes_injective (List.cons.inj (hpre.eq_of_length ?_ |>.trans hbody.symm)).2
      rw [← hbody]
      simp only [List.length_cons, length_flatMap_bytes, length_fetch, hlen]
    refine ⟨hcon, hregs, ?_⟩
    rw [hsv, hregs]

end Mgate
