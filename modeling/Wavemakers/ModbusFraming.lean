/-
Framing: the client always starts a transaction at a frame boundary of the
server's stream, and the registers it returns are the ones the server sent for
that very request.

The server answers in order, every answer a well-formed MBAP frame with the
request's transaction id; the network may split the stream anywhere and delay
any part of it past the receive timeout; the driver keeps the connection on a
timeout and drops it on a socket or protocol error. Two things can go wrong,
and `StepOk` excludes exactly those two:

* a timeout strikes when part of a frame is already consumed. `transact` then
  returns `Timeout` with the rest of the frame still in the socket, nobody
  drops the connection, and the next transaction reads the middle of a frame as
  a header (`cut_mid_frame_spec`);
* a reply is still unread when, 65536 requests later, the 16-bit transaction
  id comes round to it in a read.

The proof reads the stream frame by frame: `receive_spec` is the induction over
the four attempts of the receive loop.
-/
import Mathlib.Data.List.GetD
import Wavemakers.Interleave
import Wavemakers.ModbusTcp

set_option autoImplicit false

namespace Mgate.Framing

open Interleave

/-! ## The server's stream -/

/-- What the server puts into one frame. -/
structure Answer where
  unit_id : UInt8
  pdu : List UInt8
  pos : 0 < pdu.length
  le : pdu.length ≤ 253

/-- An answer together with the number of the request it belongs to. -/
structure Adu where
  seq : ℕ
  answer : Answer

/-- The frame carries the request's transaction id. -/
def Adu.bytes (a : Adu) : List UInt8 := mbap (UInt16.ofNat a.seq) a.answer.unit_id a.answer.pdu

def flat (fs : List Adu) : List UInt8 := fs.flatMap Adu.bytes

theorem length_bytes (a : Adu) : a.bytes.length = 7 + a.answer.pdu.length := by
  simp [Adu.bytes, mbap]
  omega

theorem flat_cons (a : Adu) (fs : List Adu) : flat (a :: fs) = a.bytes ++ flat fs := by
  simp [flat]

/-! ## The exchange loop -/

/-- The requests `flush_outputs`, `read_inputs` and `read_status` issue. -/
inductive Request where
  | read_registers (fc : UInt8) (addr count : UInt16)
  | write_single_register (addr value : UInt16)
  | write_multiple_registers (addr : UInt16) (src : List UInt16)

/-- The chunk sizes the three loops produce. -/
def Request.valid : Request → Bool
  | .read_registers _ _ count => 0 < count && count ≤ 125
  | .write_single_register _ _ => true
  | .write_multiple_registers _ src => 0 < src.length && src.length ≤ 123

def Request.reads : Request → Bool
  | .read_registers _ _ _ => true
  | _ => false

def perform (c : Client) (io : Io) : Request → Transact × List UInt16
  | .read_registers fc addr count => Mgate.read_registers c io fc addr count
  | .write_single_register addr value => (Mgate.write_single_register c io addr value, [])
  | .write_multiple_registers addr src => (Mgate.write_multiple_registers c io addr src, [])

structure State where
  client : Client
  /-- requests sent so far -/
  seq : ℕ
  /-- the frames the server sent on this connection -/
  sent : List Adu
  /-- how many of them are consumed -/
  read : ℕ

inductive Event where
  | request (r : Request) (send_ok : Bool) (answer : Option Answer) (script : List Recv)
  | connect

/-- The frames the server adds to the stream for request number `seq`. -/
def answered (seq : ℕ) (answer : Option Answer) : List Adu :=
  (answer.map fun a => ⟨seq, a⟩).toList

def io_of (s : State) (send_ok : Bool) (answer : Option Answer) (script : List Recv) : Io :=
  ⟨send_ok, flat (answered (s.seq + 1) answer), script⟩

def step (s : State) : Event → Option State
  | .request r send_ok answer script =>
      if s.client.connected = true ∧ r.valid = true then
        let t := (perform s.client (io_of s send_ok answer script) r).1
        -- the driver's side of the error handling
        let broken := t.result.status = .SocketError ∨ t.result.status = .ProtocolError
        some { client := if broken then t.client.drop else t.client
               seq := s.seq + 1
               sent := s.sent ++ answered (s.seq + 1) answer
               read := s.read + t.frames }
      else none
  | .connect =>
      if s.client.connected then none
      else some { s with client := { s.client with connected := true, unread := [] },
                         sent := [], read := 0 }

/-- A fresh client that has not connected yet. -/
def Init (s : State) : Prop :=
  s.client.connected = false ∧ s.client.tid_ = 0 ∧ s.seq = 0

/-! ## The condition on a request -/

/-- A receive of this transaction times out after part of a frame has been
consumed. -/
def cut_mid_frame (tid : UInt16) : ℕ → List UInt8 → List Recv → Bool
  | 0, _, _ => false
  | attempts + 1, unread, script =>
      let h := recv_exact script 7 unread
      match h.status with
      | .timeout => !h.bytes.isEmpty
      | .closed => false
      | .full =>
          let rlen := word (h.bytes.getD 4 0) (h.bytes.getD 5 0)
          let b := recv_exact h.script (rlen.toNat - 1) h.unread
          match b.status with
          | .timeout => true
          | .closed => false
          | .full =>
              if word (h.bytes.getD 0 0) (h.bytes.getD 1 0) ≠ tid then
                cut_mid_frame tid attempts b.unread b.script
              else false

/-- Timeouts strike between frames only, and no unread reply carries the
transaction id a read is about to use. -/
def StepOk (s : State) : Event → Prop
  | .request r send_ok answer script =>
      (send_ok = true → cut_mid_frame (s.client.tid_ + 1) 4
        (s.client.unread ++ flat (answered (s.seq + 1) answer)) script = false) ∧
      (r.reads = true → ∀ a ∈ s.sent.drop s.read, UInt16.ofNat a.seq ≠ s.client.tid_ + 1)
  | .connect => True

instance (s : State) (e : Event) : Decidable (StepOk s e) :=
  match e with
  | .request _ _ _ _ => inferInstanceAs (Decidable (_ ∧ _))
  | .connect => inferInstanceAs (Decidable True)

/-! ## `recv_exact` -/

/-- **`recv_exact`** consumes a stretch from the front of the stream: all `n`
bytes of it when it succeeds, fewer when the timeout strikes. However the
stream is split, the bytes are the same. -/
theorem recv_exact_spec (script : List Recv) : ∀ (n : ℕ) (unread : List UInt8),
    (recv_exact script n unread).bytes ++ (recv_exact script n unread).unread = unread ∧
      ((recv_exact script n unread).status = .full →
        (recv_exact script n unread).bytes.length = n) ∧
      ((recv_exact script n unread).status = .timeout →
        (recv_exact script n unread).bytes.length < n) := by
  induction script with
  | nil =>
      intro n unread
      cases n with
      | zero => simp [recv_exact]
      | succ n => simp [recv_exact]
  | cons r script ih =>
      intro n unread
      cases n with
      | zero => cases r <;> simp [recv_exact]
      | succ n =>
          cases r with
          | timeout => simp [recv_exact]
          | closed => simp [recv_exact]
          | data k =>
              simp only [recv_exact]
              -- `recv` returns what is there, at most what was asked for;
              -- with nothing there the wait times out
              by_cases hr : min k (min (n + 1) unread.length) = 0
              · rw [if_pos hr]
                simp
              · rw [if_neg hr]
                obtain ⟨hsplit, hfull, hpart⟩ := ih (n + 1 - min k (min (n + 1) unread.length))
                  (unread.drop (min k (min (n + 1) unread.length)))
                simp only [List.append_assoc, hsplit, List.length_append, List.length_take]
                refine ⟨List.take_append_drop _ _, ?_, ?_⟩
                · intro hst
                  rw [hfull hst]
                  omega
                · intro hst
                  have := hpart hst
                  omega

theorem recv_exact_full {script : List Recv} {n : ℕ} {unread : List UInt8}
    (h : (recv_exact script n unread).status = .full) :
    n ≤ unread.length ∧ (recv_exact script n unread).bytes = unread.take n ∧
      (recv_exact script n unread).unread = unread.drop n := by
  obtain ⟨hsplit, hfull, -⟩ := recv_exact_spec script n unread
  have hlen := hfull h
  refine ⟨?_, ?_, ?_⟩
  · have := congrArg List.length hsplit
    rw [List.length_append, hlen] at this
    omega
  · conv_rhs => rw [← hsplit]
    exact (List.take_left' hlen).symm
  · conv_rhs => rw [← hsplit]
    exact (List.drop_left' hlen).symm

/-! ## One frame -/

theorem take_flat_cons (a : Adu) (fs : List Adu) :
    (flat (a :: fs)).take 7 = [hi (UInt16.ofNat a.seq), lo (UInt16.ofNat a.seq), 0, 0,
      hi (UInt16.ofNat (a.answer.pdu.length + 1)), lo (UInt16.ofNat (a.answer.pdu.length + 1)),
      a.answer.unit_id] := by
  rw [flat_cons]
  simp [Adu.bytes, mbap]

theorem drop_flat_cons (a : Adu) (fs : List Adu) :
    (flat (a :: fs)).drop 7 = a.answer.pdu ++ flat fs := by
  rw [flat_cons]
  simp [Adu.bytes, mbap]

theorem toNat_length (a : Answer) : (UInt16.ofNat (a.pdu.length + 1)).toNat = a.pdu.length + 1 := by
  have := a.le
  rw [UInt16.toNat_ofNat']
  omega

/-- The header checks of `transact` accept every frame of the server. -/
theorem length_field_ok (a : Answer) :
    ¬((0 : UInt16) ≠ 0 ∨ UInt16.ofNat (a.pdu.length + 1) < 2 ∨
      UInt16.ofNat (a.pdu.length + 1) > 254) := by
  have hpos := a.pos
  have hle := a.le
  have hlen := toNat_length a
  have htwo : (2 : UInt16).toNat = 2 := rfl
  have hmax : (254 : UInt16).toNat = 254 := rfl
  rintro (hne | hlt | hgt)
  · exact hne rfl
  · rw [UInt16.lt_iff_toNat_lt, hlen] at hlt
    omega
  · rw [gt_iff_lt, UInt16.lt_iff_toNat_lt, hlen] at hgt
    omega

/-- A complete header on an aligned stream is the header of the first unread
frame, and its length field is the length of that frame's PDU. -/
theorem header_full {script : List Recv} {fs : List Adu}
    (h : (recv_exact script 7 (flat fs)).status = .full) :
    ∃ a fs', fs = a :: fs' ∧
      word ((recv_exact script 7 (flat fs)).bytes.getD 0 0)
        ((recv_exact script 7 (flat fs)).bytes.getD 1 0) = UInt16.ofNat a.seq ∧
      word ((recv_exact script 7 (flat fs)).bytes.getD 2 0)
        ((recv_exact script 7 (flat fs)).bytes.getD 3 0) = 0 ∧
      word ((recv_exact script 7 (flat fs)).bytes.getD 4 0)
        ((recv_exact script 7 (flat fs)).bytes.getD 5 0) =
          UInt16.ofNat (a.answer.pdu.length + 1) ∧
      (recv_exact script 7 (flat fs)).unread = a.answer.pdu ++ flat fs' := by
  obtain ⟨hlen, hbytes, hunread⟩ := recv_exact_full h
  cases fs with
  | nil => simp [flat] at hlen
  | cons a fs' =>
      rw [take_flat_cons] at hbytes
      rw [drop_flat_cons] at hunread
      refine ⟨a, fs', rfl, ?_, ?_, ?_, hunread⟩
      · rw [hbytes]
        exact word_hi_lo _
      · rw [hbytes]
        show word 0 0 = 0
        decide
      · rw [hbytes]
        exact word_hi_lo _

/-- A complete body is the PDU of the frame whose header was read. -/
theorem body_full {script : List Recv} {a : Answer} {rest : List UInt8}
    (h : (recv_exact script ((UInt16.ofNat (a.pdu.length + 1)).toNat - 1)
      (a.pdu ++ rest)).status = .full) :
    (recv_exact script ((UInt16.ofNat (a.pdu.length + 1)).toNat - 1)
        (a.pdu ++ rest)).bytes = a.pdu ∧
      (recv_exact script ((UInt16.ofNat (a.pdu.length + 1)).toNat - 1)
        (a.pdu ++ rest)).unread = rest := by
  obtain ⟨-, hbytes, hunread⟩ := recv_exact_full h
  have hn : (UInt16.ofNat (a.pdu.length + 1)).toNat - 1 = a.pdu.length := by
    rw [toNat_length]
    omega
  rw [hbytes, hunread, hn]
  simp

/-! ## The receive loop -/

/-- What the receive loop does to an aligned stream. -/
structure Received (tid : UInt16) (fc : UInt8) (c : Client) (fs : List Adu) (t : Transact) :
    Prop where
  tid_ : t.client.tid_ = c.tid_
  aligned : t.client.connected = true →
    t.client.unread = flat (fs.drop t.frames) ∧ t.frames ≤ fs.length
  matched : t.result.status = .Ok →
    ∃ a ∈ fs, UInt16.ofNat a.seq = tid ∧ a.answer.pdu = fc :: t.resp

theorem Received.skip {tid : UInt16} {fc : UInt8} {c : Client} {a : Adu} {fs : List Adu}
    {unread : List UInt8} {t : Transact}
    (h : Received tid fc { c with unread := unread } fs t) :
    Received tid fc c (a :: fs) { t with frames := t.frames + 1 } := by
  refine ⟨h.tid_, ?_, ?_⟩
  · intro hc
    obtain ⟨hu, hle⟩ := h.aligned hc
    rw [List.drop_succ_cons, List.length_cons]
    exact ⟨hu, Nat.succ_le_succ hle⟩
  · intro hok
    obtain ⟨b, hb, htid, hpdu⟩ := h.matched hok
    exact ⟨b, List.mem_cons_of_mem _ hb, htid, hpdu⟩

/-- Errors that drop the connection leave nothing to show. -/
theorem Received.dropped {tid : UInt16} {fc : UInt8} {c : Client} {fs : List Adu}
    {unread : List UInt8} {st : Status} {n : ℕ} (hst : st ≠ .Ok) :
    Received tid fc c fs
      ⟨Client.drop { c with unread := unread }, { status := st }, [], n⟩ :=
  ⟨rfl, fun hc => by simp [Client.drop] at hc, fun hok => absurd hok hst⟩

/-- The checks on a frame whose transaction id matches. -/
theorem accept_spec {tid : UInt16} {fc : UInt8} {resp_cap : ℕ} (c : Client) (a : Adu)
    (fs : List Adu) (htid : UInt16.ofNat a.seq = tid) :
    Received tid fc c (a :: fs)
      (if a.answer.pdu.getD 0 0 = fc ||| 0x80 then
        ⟨{ c with unread := flat fs },
          { status := .ModbusException,
            mb_exception := if UInt16.ofNat (a.answer.pdu.length + 1) ≥ 3
              then a.answer.pdu.getD 1 0 else 0 }, [], 1⟩
      else if a.answer.pdu.getD 0 0 ≠ fc then
        ⟨Client.drop { c with unread := flat fs }, { status := .ProtocolError }, [], 1⟩
      else if resp_cap < (UInt16.ofNat (a.answer.pdu.length + 1)).toNat - 2 then
        ⟨Client.drop { c with unread := flat fs }, { status := .ProtocolError }, [], 1⟩
      else ⟨{ c with unread := flat fs }, {}, a.answer.pdu.drop 1, 1⟩) := by
  by_cases hexc : a.answer.pdu.getD 0 0 = fc ||| 0x80
  · rw [if_pos hexc]
    exact ⟨rfl, fun _ => ⟨rfl, by simp⟩, fun hok => by simp at hok⟩
  rw [if_neg hexc]
  by_cases hfc : a.answer.pdu.getD 0 0 ≠ fc
  · rw [if_pos hfc]
    exact Received.dropped (by decide)
  rw [if_neg hfc]
  rw [not_not] at hfc
  by_cases hcap : resp_cap < (UInt16.ofNat (a.answer.pdu.length + 1)).toNat - 2
  · rw [if_pos hcap]
    exact Received.dropped (by decide)
  rw [if_neg hcap]
  refine ⟨rfl, fun _ => ⟨rfl, by simp⟩, fun _ => ⟨a, List.mem_cons_self, htid, ?_⟩⟩
  cases hpdu : a.answer.pdu with
  | nil =>
      have := a.answer.pos
      rw [hpdu] at this
      exact absurd this (by decide)
  | cons b rest =>
      rw [hpdu] at hfc
      rw [← hfc]
      rfl

/-- **The receive loop** keeps an aligned stream aligned, and accepts only a
frame with the transaction id it waits for. -/
theorem receive_spec (tid : UInt16) (fc : UInt8) (resp_cap : ℕ) :
    ∀ (attempts : ℕ) (c : Client) (fs : List Adu) (script : List Recv),
      c.unread = flat fs → cut_mid_frame tid attempts c.unread script = false →
        Received tid fc c fs (receive tid fc resp_cap attempts c script) := by
  intro attempts
  induction attempts with
  | zero =>
      intro c fs script hu _
      exact ⟨rfl, fun _ => ⟨by simpa [receive] using hu, Nat.zero_le _⟩, fun hok => by simp [receive] at hok⟩
  | succ attempts ih =>
      intro c fs script hu hcut
      rw [hu] at hcut
      simp only [receive, hu]
      simp only [cut_mid_frame] at hcut
      cases hh : (recv_exact script 7 (flat fs)).status with
      | timeout =>
          -- the condition leaves only the timeout before the first byte
          simp only [hh, Bool.not_eq_false', List.isEmpty_iff] at hcut
          have hsplit := (recv_exact_spec script 7 (flat fs)).1
          rw [hcut, List.nil_append] at hsplit
          refine ⟨rfl, fun _ => ?_, fun hok => by simp at hok⟩
          exact ⟨hsplit, Nat.zero_le _⟩
      | closed => exact Received.dropped (by decide)
      | full =>
          obtain ⟨a, fs', rfl, hid, hproto, hrlen, hrest⟩ := header_full hh
          simp only [hh, hid, hproto, hrlen, hrest] at hcut ⊢
          rw [if_neg (length_field_ok a.answer)]
          cases hb : (recv_exact (recv_exact script 7 (flat (a :: fs'))).script
              ((UInt16.ofNat (a.answer.pdu.length + 1)).toNat - 1)
              (a.answer.pdu ++ flat fs')).status with
          | timeout => simp only [hb, Bool.true_eq_false] at hcut
          | closed => exact Received.dropped (by decide)
          | full =>
              obtain ⟨hbytes, hunread⟩ := body_full hb
              simp only [hb, hbytes, hunread] at hcut ⊢
              by_cases htid : UInt16.ofNat a.seq ≠ tid
              · rw [if_pos htid] at hcut ⊢
                exact (ih { c with unread := flat fs' } fs' _ rfl hcut).skip
              · rw [if_neg htid]
                rw [not_not] at htid
                exact accept_spec c a fs' htid

theorem flat_append (fs gs : List Adu) : flat (fs ++ gs) = flat fs ++ flat gs := by
  simp [flat]

theorem transact_spec {c : Client} {io : Io} {pdu : List UInt8} {fc : UInt8} {resp_cap : ℕ}
    {fs gs : List Adu} (hc : c.connected = true) (hp : ¬(pdu.length = 0 ∨ pdu.length > 253))
    (hu : c.unread = flat fs) (hr : io.reply = flat gs)
    (hcut : io.send_ok = true →
      cut_mid_frame (c.tid_ + 1) 4 (c.unread ++ io.reply) io.script = false) :
    Received (c.tid_ + 1) fc { c with tid_ := c.tid_ + 1 } (fs ++ gs)
      (transact c io pdu fc resp_cap) := by
  unfold transact
  rw [if_neg (by simp [hc]), if_neg hp]
  by_cases hs : io.send_ok = false
  · rw [if_pos hs]
    exact Received.dropped (by decide)
  rw [if_neg hs]
  have hfs : c.unread ++ io.reply = flat (fs ++ gs) := by
    rw [flat_append, hu, hr]
  have h := receive_spec (c.tid_ + 1) fc resp_cap 4
    { c with tid_ := c.tid_ + 1, unread := c.unread ++ io.reply } (fs ++ gs) io.script hfs
    (hcut (by simpa using hs))
  exact ⟨h.tid_, h.aligned, h.matched⟩

theorem count_ok {fc : UInt8} {addr count : UInt16}
    (hv : (Request.read_registers fc addr count).valid = true) : ¬(count = 0 ∨ count > 125) := by
  simp only [Request.valid, Bool.and_eq_true, decide_eq_true_eq] at hv
  rintro (rfl | hbad)
  · exact absurd hv.1 (by decide)
  · exact absurd hv.2 (UInt16.not_le.mpr hbad)

/-- Every request of the exchange loop is one transaction, up to the shape
check `read_registers` makes on a successful response. -/
theorem perform_eq_transact (c : Client) (io : Io) {r : Request} (hv : r.valid = true) :
    ∃ pdu fc resp_cap, ¬(pdu.length = 0 ∨ pdu.length > 253) ∧
      ((perform c io r).1 = transact c io pdu fc resp_cap ∨
        (transact c io pdu fc resp_cap).result.status = .Ok ∧
        (perform c io r).1 =
          { transact c io pdu fc resp_cap with result := { status := .ProtocolError } }) := by
  cases r with
  | read_registers fc addr count =>
      refine ⟨read_pdu fc addr count, fc, 256, by simp [read_pdu], ?_⟩
      simp only [perform, Mgate.read_registers]
      rw [if_neg (count_ok hv)]
      split_ifs with hok
      · exact .inl rfl
      · exact .inr ⟨by simpa [Result.ok] using hok, rfl⟩
      · exact .inl rfl
  | write_single_register addr value =>
      exact ⟨write_single_pdu addr value, 0x06, 8, by simp [write_single_pdu], .inl rfl⟩
  | write_multiple_registers addr src =>
      simp only [Request.valid, Bool.and_eq_true, decide_eq_true_eq] at hv
      refine ⟨write_multiple_pdu addr src, 0x10, 8, ?_, .inl ?_⟩
      · simp only [write_multiple_pdu, List.length_append, length_flatMap_bytes, List.length_cons,
          List.length_nil]
        omega
      · simp only [perform, Mgate.write_multiple_registers]
        rw [if_neg (by omega)]

theorem perform_spec {c : Client} {io : Io} {r : Request} {fs gs : List Adu}
    (hc : c.connected = true) (hv : r.valid = true) (hu : c.unread = flat fs)
    (hr : io.reply = flat gs)
    (hcut : io.send_ok = true →
      cut_mid_frame (c.tid_ + 1) 4 (c.unread ++ io.reply) io.script = false) :
    ∃ fc, Received (c.tid_ + 1) fc { c with tid_ := c.tid_ + 1 } (fs ++ gs)
      (perform c io r).1 := by
  obtain ⟨pdu, fc, cap, hp, heq⟩ := perform_eq_transact c io hv
  have h := @transact_spec c io pdu fc cap fs gs hc hp hu hr hcut
  refine ⟨fc, ?_⟩
  rcases heq with heq | ⟨-, heq⟩
  · rw [heq]
    exact h
  · rw [heq]
    exact ⟨h.tid_, h.aligned, fun hok => by cases hok⟩

/-! ## The invariant of the exchange loop -/

structure Inv (s : State) : Prop where
  tid_ : s.client.tid_ = UInt16.ofNat s.seq
  aligned : s.client.connected = true → s.client.unread = flat (s.sent.drop s.read)
  read : s.client.connected = true → s.read ≤ s.sent.length

theorem init_inv {s : State} (h : Init s) : Inv s := by
  obtain ⟨hc, htid, hseq⟩ := h
  refine ⟨?_, fun h => ?_, fun h => ?_⟩
  · rw [htid, hseq]
    rfl
  · rw [hc] at h
    cases h
  · rw [hc] at h
    cases h

theorem ofNat_succ (n : ℕ) : UInt16.ofNat (n + 1) = UInt16.ofNat n + 1 := by
  rw [← UInt16.toNat_inj, UInt16.toNat_add, UInt16.toNat_ofNat', UInt16.toNat_ofNat']
  simp

/-- One request on an aligned stream. -/
theorem request_received {s : State} {r : Request} {send_ok : Bool} {answer : Option Answer}
    {script : List Recv} (hinv : Inv s) (hok : StepOk s (.request r send_ok answer script))
    (hc : s.client.connected = true) (hv : r.valid = true) :
    ∃ fc, Received (s.client.tid_ + 1) fc { s.client with tid_ := s.client.tid_ + 1 }
      (s.sent.drop s.read ++ answered (s.seq + 1) answer)
      (perform s.client (io_of s send_ok answer script) r).1 :=
  perform_spec hc hv (hinv.aligned hc) rfl hok.1

/-- What one transition of the exchange loop can do. -/
theorem step_cases {s t : State} {e : Event} (h : step s e = some t) :
    (∃ r send_ok answer script, e = .request r send_ok answer script ∧
      s.client.connected = true ∧ r.valid = true ∧
      (t.client = (perform s.client (io_of s send_ok answer script) r).1.client ∨
        t.client = (perform s.client (io_of s send_ok answer script) r).1.client.drop) ∧
      t.seq = s.seq + 1 ∧ t.sent = s.sent ++ answered (s.seq + 1) answer ∧
      t.read = s.read + (perform s.client (io_of s send_ok answer script) r).1.frames) ∨
    (e = .connect ∧ t.client = { s.client with connected := true, unread := [] } ∧
      t.seq = s.seq ∧ t.sent = [] ∧ t.read = 0) := by
  cases e with
  | request r send_ok answer script =>
      simp only [step] at h
      split at h
      · rename_i hen
        cases h
        refine .inl ⟨r, send_ok, answer, script, rfl, hen.1, hen.2, ?_, rfl, rfl, rfl⟩
        simp only
        split
        · exact .inr rfl
        · exact .inl rfl
      · cases h
  | connect =>
      simp only [step] at h
      split at h
      · cases h
      · cases h
        exact .inr ⟨rfl, rfl, rfl, rfl, rfl⟩

theorem step_inv {s t : State} {e : Event} (hinv : Inv s) (hok : StepOk s e)
    (h : step s e = some t) : Inv t := by
  rcases step_cases h with
    ⟨r, send_ok, answer, script, rfl, hc, hv, hclient, hseq, hsent, hread⟩ |
    ⟨rfl, hclient, hseq, hsent, hread⟩
  · obtain ⟨fc, hrec⟩ := request_received hinv hok hc hv
    have htid : s.client.tid_ + 1 = UInt16.ofNat (s.seq + 1) := by
      rw [hinv.tid_, ofNat_succ]
    rcases hclient with hclient | hclient
    · refine ⟨?_, fun hct => ?_, fun hct => ?_⟩
      · rw [hclient, hseq, hrec.tid_]
        exact htid
      · rw [hclient] at hct
        rw [hclient, hsent, hread, (hrec.aligned hct).1, ← List.drop_drop,
          List.drop_append_of_le_length (hinv.read hc)]
      · rw [hclient] at hct
        have hle := (hrec.aligned hct).2
        have := hinv.read hc
        rw [List.length_append, List.length_drop] at hle
        rw [hsent, hread, List.length_append]
        omega
    · -- the driver has dropped the connection: nothing to show but the counter
      refine ⟨?_, fun hct => ?_, fun hct => ?_⟩
      · rw [hclient, hseq]
        exact hrec.tid_.trans htid
      · rw [hclient] at hct
        cases hct
      · rw [hclient] at hct
        cases hct
  · refine ⟨?_, fun _ => ?_, fun _ => ?_⟩
    · rw [hclient, hseq]
      exact hinv.tid_
    · rw [hclient, hsent, hread]
      rfl
    · rw [hread]
      exact Nat.zero_le _

theorem reach_inv {s : State} (h : Reach step StepOk Init s) : Inv s :=
  h.invariant (fun _ => init_inv) (fun _ _ _ => step_inv)

/-! ## The registers of a reply -/

/-- Decoding loses nothing: encoded again, high byte first, the registers are
the bytes behind the byte count. -/
theorem flatMap_decode_registers (resp : List UInt8) :
    ∀ count : ℕ, 1 + 2 * count ≤ resp.length →
      resp.getD 0 0 :: (decode_registers resp count).flatMap (fun r => [hi r, lo r]) =
        resp.take (1 + 2 * count) := by
  intro count
  induction count with
  | zero =>
      intro h
      cases resp with
      | nil => simp at h
      | cons b rest => simp [decode_registers]
  | succ n ih =>
      intro h
      have hstep : decode_registers resp (n + 1) = decode_registers resp n ++
          [word (resp.getD (1 + 2 * n) 0) (resp.getD (2 + 2 * n) 0)] := by
        simp only [decode_registers, List.range_succ, List.map_append, List.map_cons,
          List.map_nil]
      rw [hstep, List.flatMap_append, ← List.cons_append, ih (by omega),
        show 1 + 2 * (n + 1) = 1 + 2 * n + 1 + 1 by omega, List.take_add_one, List.take_add_one,
        List.getElem?_eq_getElem (by omega), List.getElem?_eq_getElem (by omega),
        List.getD_eq_getElem _ _ (by omega), List.getD_eq_getElem _ _ (by omega)]
      simp only [List.flatMap_cons, List.flatMap_nil, hi_word, lo_word, List.append_nil,
        Option.toList_some, List.append_assoc, List.cons_append, List.nil_append]
      congr 3
      simp only [show 2 + 2 * n = 1 + 2 * n + 1 by omega]

/-- With `Ok`, `read_registers` returns the registers of the response PDU. -/
theorem read_registers_ok {c : Client} {io : Io} {fc : UInt8} {addr count : UInt16}
    (hv : (Request.read_registers fc addr count).valid = true)
    (hok : (read_registers c io fc addr count).1.result.status = .Ok) :
    (transact c io (read_pdu fc addr count) fc 256).result.status = .Ok ∧
      (read_registers c io fc addr count).2.length = count.toNat ∧
      UInt8.ofNat (2 * count.toNat) ::
          (read_registers c io fc addr count).2.flatMap (fun r => [hi r, lo r]) <+:
        (transact c io (read_pdu fc addr count) fc 256).resp := by
  simp only [read_registers, if_neg (count_ok hv)] at hok ⊢
  by_cases ht : (transact c io (read_pdu fc addr count) fc 256).result.ok = false
  · rw [if_pos ht] at hok
    replace hok : (transact c io (read_pdu fc addr count) fc 256).result.status = .Ok := hok
    simp [Result.ok, hok] at ht
  rw [if_neg ht] at hok ⊢
  by_cases hshape : (transact c io (read_pdu fc addr count) fc 256).resp.length <
      1 + count.toNat * 2 ∨
      ((transact c io (read_pdu fc addr count) fc 256).resp.getD 0 0).toNat ≠ count.toNat * 2
  · rw [if_pos hshape] at hok
    cases hok
  rw [if_neg hshape] at hok ⊢
  rw [not_or, not_lt, not_not] at hshape
  obtain ⟨hlen, hbytes⟩ := hshape
  refine ⟨hok, by simp [decode_registers], ?_⟩
  have hhead : UInt8.ofNat (2 * count.toNat) =
      (transact c io (read_pdu fc addr count) fc 256).resp.getD 0 0 := by
    rw [Nat.mul_comm, ← hbytes, UInt8.ofNat_toNat]
  rw [hhead, flatMap_decode_registers _ _ (by omega)]
  exact List.take_prefix _ _

/-! ## A frame cut in two -/

theorem length_flat_cons (a : Adu) (fs : List Adu) :
    (flat (a :: fs)).length = 7 + a.answer.pdu.length + (flat fs).length := by
  rw [flat_cons, List.length_append, length_bytes]

/-- `n` unread bytes of the stream `fs` start strictly inside a frame. -/
def Inside (n : ℕ) : List Adu → Prop
  | [] => False
  | a :: fs => (flat fs).length < n ∧ n < (flat (a :: fs)).length ∨ Inside n fs

theorem Inside.lt {n : ℕ} : ∀ {fs : List Adu}, Inside n fs → n < (flat fs).length
  | [], h => h.elim
  | a :: fs, .inl h => h.2
  | a :: fs, .inr h => by
      have := h.lt
      rw [length_flat_cons]
      omega

/-- No suffix of the frames has a length that lies inside one. -/
theorem Inside.ne_drop {n : ℕ} : ∀ {fs : List Adu}, Inside n fs →
    ∀ k, n ≠ (flat (fs.drop k)).length
  | [], h, _ => h.elim
  | a :: fs, h, 0 => Nat.ne_of_lt h.lt
  | a :: fs, .inr h, k + 1 => h.ne_drop k
  | a :: fs, .inl h, k + 1 => by
      have hle : (flat (fs.drop k)).length ≤ (flat fs).length := by
        conv_rhs => rw [← List.take_append_drop k fs, flat_append, List.length_append]
        omega
      rw [List.drop_succ_cons]
      omega

theorem Inside.of_drop {n : ℕ} : ∀ {fs : List Adu} (k : ℕ), Inside n (fs.drop k) → Inside n fs
  | _, 0, h => h
  | [], _ + 1, h => h
  | _ :: _, k + 1, h => .inr (h.of_drop k)

/-- **A cut frame** leaves the connection up and the next transaction in the
middle of it. -/
theorem cut_mid_frame_spec (tid : UInt16) (fc : UInt8) (resp_cap : ℕ) :
    ∀ (attempts : ℕ) (c : Client) (fs : List Adu) (script : List Recv),
      c.unread = flat fs → cut_mid_frame tid attempts c.unread script = true →
        (receive tid fc resp_cap attempts c script).result.status = .Timeout ∧
          (receive tid fc resp_cap attempts c script).client.connected = c.connected ∧
          Inside (receive tid fc resp_cap attempts c script).client.unread.length fs := by
  intro attempts
  induction attempts with
  | zero =>
      intro c fs script _ hcut
      cases hcut
  | succ attempts ih =>
      intro c fs script hu hcut
      rw [hu] at hcut
      simp only [receive, hu]
      simp only [cut_mid_frame] at hcut
      cases hh : (recv_exact script 7 (flat fs)).status with
      | timeout =>
          simp only [hh, Bool.not_eq_true', List.isEmpty_eq_false_iff] at hcut
          -- cut in the header: something was read, but less than seven bytes
          obtain ⟨hsplit, -, hpart⟩ := recv_exact_spec script 7 (flat fs)
          have hlt := hpart hh
          have hpos := List.length_pos_iff.mpr hcut
          have hlen := congrArg List.length hsplit
          rw [List.length_append] at hlen
          refine ⟨rfl, rfl, ?_⟩
          cases fs with
          | nil =>
              simp only [flat, List.flatMap_nil, List.length_nil] at hlen hpos
              omega
          | cons a fs' =>
              have := length_flat_cons a fs'
              exact .inl ⟨by show _ < (recv_exact _ _ _).unread.length; omega,
                by show (recv_exact _ _ _).unread.length < _; omega⟩
      | closed => simp only [hh, Bool.false_eq_true] at hcut
      | full =>
          obtain ⟨a, fs', rfl, hid, hproto, hrlen, hrest⟩ := header_full hh
          simp only [hh, hid, hproto, hrlen, hrest] at hcut ⊢
          rw [if_neg (length_field_ok a.answer)]
          cases hb : (recv_exact (recv_exact script 7 (flat (a :: fs'))).script
              ((UInt16.ofNat (a.answer.pdu.length + 1)).toNat - 1)
              (a.answer.pdu ++ flat fs')).status with
          | timeout =>
              -- cut in the body
              obtain ⟨hsplit, -, hpart⟩ := recv_exact_spec
                (recv_exact script 7 (flat (a :: fs'))).script
                ((UInt16.ofNat (a.answer.pdu.length + 1)).toNat - 1) (a.answer.pdu ++ flat fs')
              have hlt := hpart hb
              have hlen := congrArg List.length hsplit
              rw [List.length_append, List.length_append] at hlen
              have hrl := toNat_length a.answer
              have := length_flat_cons a fs'
              exact ⟨rfl, rfl, .inl ⟨by show _ < (recv_exact _ _ _).unread.length; omega,
                by show (recv_exact _ _ _).unread.length < _; omega⟩⟩
          | closed => simp only [hb, Bool.false_eq_true] at hcut
          | full =>
              obtain ⟨-, hunread⟩ := body_full hb
              simp only [hb, hunread] at hcut ⊢
              by_cases htid : UInt16.ofNat a.seq ≠ tid
              · rw [if_pos htid] at hcut ⊢
                -- an older answer is skipped, and the cut is in what follows
                obtain ⟨hst, hcon, hin⟩ := ih { c with unread := flat fs' } fs' _ rfl hcut
                exact ⟨hst, hcon, .inr hin⟩
              · rw [if_neg htid] at hcut
                cases hcut

theorem transact_cut {c : Client} {io : Io} {pdu : List UInt8} {fc : UInt8} {resp_cap : ℕ}
    {fs gs : List Adu} (hc : c.connected = true) (hp : ¬(pdu.length = 0 ∨ pdu.length > 253))
    (hu : c.unread = flat fs) (hr : io.reply = flat gs) (hs : io.send_ok = true)
    (hcut : cut_mid_frame (c.tid_ + 1) 4 (c.unread ++ io.reply) io.script = true) :
    (transact c io pdu fc resp_cap).result.status = .Timeout ∧
      (transact c io pdu fc resp_cap).client.connected = true ∧
      Inside (transact c io pdu fc resp_cap).client.unread.length (fs ++ gs) := by
  have hfs : c.unread ++ io.reply = flat (fs ++ gs) := by
    rw [flat_append, hu, hr]
  obtain ⟨hst, hcon, hin⟩ := cut_mid_frame_spec (c.tid_ + 1) fc resp_cap 4
    { c with tid_ := c.tid_ + 1, unread := c.unread ++ io.reply } (fs ++ gs) io.script hfs hcut
  unfold transact
  rw [if_neg (by simp [hc]), if_neg hp, if_neg (by simp [hs])]
  exact ⟨hst, hcon.trans hc, hin⟩

theorem perform_cut {c : Client} {io : Io} {r : Request} {fs gs : List Adu}
    (hc : c.connected = true) (hv : r.valid = true) (hu : c.unread = flat fs)
    (hr : io.reply = flat gs) (hs : io.send_ok = true)
    (hcut : cut_mid_frame (c.tid_ + 1) 4 (c.unread ++ io.reply) io.script = true) :
    (perform c io r).1.result.status = .Timeout ∧
      (perform c io r).1.client.connected = true ∧
      Inside (perform c io r).1.client.unread.length (fs ++ gs) := by
  obtain ⟨pdu, fc, cap, hp, heq⟩ := perform_eq_transact c io hv
  have h := @transact_cut c io pdu fc cap fs gs hc hp hu hr hs hcut
  rcases heq with heq | ⟨hok, -⟩
  · rw [heq]
    exact h
  · rw [h.1] at hok
    cases hok

/-! ## Whole runs -/

/-- What the server sent and the client has not consumed starts with a frame. -/
def Aligned (s : State) : Prop :=
  s.client.connected = true → ∃ k, s.client.unread = flat (s.sent.drop k)

/-- A read that returns `Ok` here has an answer of its own, and the registers
are the ones in it. -/
def Matched (s : State) : Event → Prop
  | .request (.read_registers fc addr count) send_ok answer script =>
      let r := read_registers s.client (io_of s send_ok answer script) fc addr count
      s.client.connected = true → (Request.read_registers fc addr count).valid = true →
        r.1.result.status = .Ok → ∃ a, answer = some a ∧ r.2.length = count.toNat ∧
          fc :: UInt8.ofNat (2 * count.toNat) :: r.2.flatMap (fun v => [hi v, lo v]) <+: a.pdu
  | _ => True

/-- The read of this request is answered by the frame it belongs to. -/
theorem request_matched {s : State} {e : Event} (hinv : Inv s) (hok : StepOk s e) :
    Matched s e := by
  match e, hok with
  | .connect, _ => trivial
  | .request (.write_single_register _ _) _ _ _, _ => trivial
  | .request (.write_multiple_registers _ _) _ _ _, _ => trivial
  | .request (.read_registers fc addr count) send_ok answer script, hok =>
      intro hc hv hst
      obtain ⟨htr, hlen, hpre⟩ := read_registers_ok hv hst
      have hrec := @transact_spec s.client (io_of s send_ok answer script)
        (read_pdu fc addr count) fc 256 _ (answered (s.seq + 1) answer) hc (by simp [read_pdu])
        (hinv.aligned hc) rfl hok.1
      obtain ⟨a, ha, htid, hpdu⟩ := hrec.matched htr
      -- the older frames carry other transaction ids
      have hnew : a ∈ answered (s.seq + 1) answer := by
        rcases List.mem_append.mp ha with hold | hnew
        · exact absurd htid (hok.2 rfl a hold)
        · exact hnew
      cases answer with
      | none => simp [answered] at hnew
      | some b =>
          simp only [answered, Option.map_some, Option.toList_some, List.mem_singleton] at hnew
          subst hnew
          refine ⟨b, rfl, hlen, ?_⟩
          rw [hpdu]
          exact (List.prefix_cons_inj _).mpr hpre

/-- A request that cuts a frame ends on a connection out of step. -/
theorem cut_not_aligned {s t : State} {r : Request} {answer : Option Answer}
    {script : List Recv} (hinv : Inv s) (h : step s (.request r true answer script) = some t)
    (hcut : cut_mid_frame (s.client.tid_ + 1) 4
      (s.client.unread ++ flat (answered (s.seq + 1) answer)) script = true) : ¬ Aligned t := by
  simp only [step] at h
  split at h
  · rename_i hen
    obtain ⟨hst, hcon, hin⟩ := @perform_cut s.client (io_of s true answer script) r _
      (answered (s.seq + 1) answer) hen.1 hen.2 (hinv.aligned hen.1) rfl rfl hcut
    rw [if_neg (by simp [hst])] at h
    cases h
    intro hal
    obtain ⟨k, hk⟩ := hal hcon
    rw [← List.drop_append_of_le_length (hinv.read hen.1)] at hin
    exact (hin.of_drop s.read).ne_drop k (congrArg List.length hk)
  · cases h

/-- **The stream stays framed and the replies matched.** Over every run of
requests and reconnects, every split of the stream and every timeout that does
not cut a frame in two: each transaction starts at a frame boundary, and the
registers of a successful read come from the answer to that very read. A
timeout that does cut one puts the next transaction inside a frame. -/
theorem framed_and_matched {s : State} (h : Reach step StepOk Init s) :
    (Aligned s ∧ ∀ e, StepOk s e → Matched s e) ∧
      ∀ r answer script t, step s (.request r true answer script) = some t →
        cut_mid_frame (s.client.tid_ + 1) 4
          (s.client.unread ++ flat (answered (s.seq + 1) answer)) script = true →
        ¬ Aligned t := by
  have hinv := reach_inv h
  refine ⟨⟨fun hc => ⟨s.read, hinv.aligned hc⟩, fun e hok => request_matched hinv hok⟩, ?_⟩
  intro r answer script t hstep hcut
  exact cut_not_aligned hinv hstep hcut

/-! ### A reply cut in two, and a late one -/

def unconnected : State := ⟨{}, 0, [], 0⟩

/-- Six input registers whose bytes happen to look like a response to request 2. -/
def six_registers : Answer :=
  ⟨1, [0x04, 12, 0x00, 0x02, 0x00, 0x00, 0x00, 0x05, 0x01, 0x04, 0x02, 0x12, 0x34, 0x00],
    by decide, by decide⟩

def one_register : Answer := ⟨1, [0x04, 2, 0x56, 0x78], by decide, by decide⟩

/-- The first nine bytes of the reply arrive in time. -/
def cut_reply : List Event :=
  [.connect, .request (.read_registers 0x04 0 6) true (some six_registers) [.data 9, .data 2]]

/-- The next read finds the rest of the cut reply and returns `0x1234`; the
server's own answer is `0x5678`. -/
theorem cut_reply_mismatched :
    ∃ s, Init unconnected ∧ run step unconnected cut_reply = some s ∧
      s.client.connected = true ∧ ¬ Aligned s ∧
      (read_registers s.client (io_of s true (some one_register) [.data 7, .data 4]) 0x04 0
        1).2 = [0x1234] ∧
      ¬ Matched s (.request (.read_registers 0x04 0 1) true (some one_register)
        [.data 7, .data 4]) := by
  refine ⟨_, ⟨rfl, rfl, rfl⟩, rfl, rfl, ?_, by decide, ?_⟩
  · intro h
    obtain ⟨k, hk⟩ := h rfl
    match k, congrArg List.length hk with
    | 0, hk => exact absurd hk (by decide)
    | k + 1, hk =>
        rw [List.drop_eq_nil_of_le (Nat.le_add_left 1 k)] at hk
        exact absurd hk (by decide)
  · intro h
    obtain ⟨a, ha, -, hpre⟩ := h rfl rfl (by decide)
    cases ha
    exact absurd hpre (by decide)

/-- The first reply misses its read altogether and is skipped by the next. -/
def late_reply : List Event :=
  [.connect, .request (.read_registers 0x04 0 6) true (some six_registers) []]

theorem late_reply_matched :
    ∃ s, run (guarded step StepOk) unconnected late_reply = some s ∧
      s.client.connected = true ∧ s.client.unread.length = 21 ∧ Aligned s ∧
      (read_registers s.client (io_of s true (some one_register)
        [.data 7, .data 9, .data 9, .data 9, .data 9]) 0x04 0 1).2 = [0x5678] ∧
      Matched s (.request (.read_registers 0x04 0 1) true (some one_register)
        [.data 7, .data 9, .data 9, .data 9, .data 9]) := by
  have hinit : Init unconnected := ⟨rfl, rfl, rfl⟩
  refine ⟨_, rfl, rfl, by decide, ?_⟩
  have h := framed_and_matched (Reach.guarded_run late_reply (.init hinit) rfl)
  exact ⟨h.1.1, by decide, h.1.2 _ ⟨fun _ => by decide, by decide⟩⟩

end Mgate.Framing
