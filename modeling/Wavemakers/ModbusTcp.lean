/-
`modbus_tcp.cpp`: the Modbus/TCP client, from the request PDUs down to the
bytes `recv` hands over.

The socket is a byte stream. What the server has sent on the connection and
the client has not consumed yet is `Client.unread`; when those bytes arrive is
the network's business, so every call of `recv` is answered by one entry of a
script: up to `k` bytes are there, or the receive timeout strikes, or the
connection is gone. A script that has run out means silence, which `recv`
reports as a timeout. Splitting the stream into segments, delaying a reply past
a timeout and cutting one in the middle are all choices of script.
-/
import Wavemakers.ProcessImage

set_option autoImplicit false

namespace Mgate

/-! ## Results -/

inductive Status where
  | Ok
  | NotConnected
  | SocketError
  | Timeout
  | ProtocolError
  | ModbusException
  | BadArgument
  deriving DecidableEq, Repr

def status_name : Status → String
  | .Ok => "ok"
  | .NotConnected => "not connected"
  | .SocketError => "socket error"
  | .Timeout => "timeout"
  | .ProtocolError => "protocol error"
  | .ModbusException => "modbus exception"
  | .BadArgument => "bad argument"

def modbus_exception_name (code : UInt8) : String :=
  if code = 0x01 then "illegal function"
  else if code = 0x02 then "illegal data address"
  else if code = 0x03 then "illegal data value"
  else if code = 0x04 then "slave device failure"
  else if code = 0x05 then "acknowledge"
  else if code = 0x06 then "slave device busy"
  else if code = 0x08 then "memory parity error"
  else if code = 0x0A then "gateway path unavailable"
  else if code = 0x0B then "gateway target device failed to respond"
  else "unknown exception"

/-- `mb_exception` is meaningful only when the status is `ModbusException`. -/
structure Result where
  status : Status := .Ok
  mb_exception : UInt8 := 0
  deriving DecidableEq, Repr

/-- The C++ `explicit operator bool`. -/
def Result.ok (r : Result) : Bool := r.status == .Ok

def hex_digit (n : ℕ) : Char := "0123456789ABCDEF".toList.getD n '0'

def Result.message (r : Result) : String :=
  status_name r.status ++
    if r.status = .ModbusException then
      " 0x" ++ String.ofList [hex_digit (r.mb_exception.toNat / 16),
        hex_digit (r.mb_exception.toNat % 16)] ++
        " (" ++ modbus_exception_name r.mb_exception ++ ")"
    else ""

/-! ## The socket -/

/-- What one call of `recv` meets. -/
inductive Recv where
  /-- up to `k` bytes of the stream have arrived -/
  | data (k : ℕ)
  | timeout
  | closed
  deriving DecidableEq, Repr

inductive RecvStatus where
  | full
  | timeout
  | closed
  deriving DecidableEq, Repr

/-- What `recv_exact` leaves behind: its return value, the bytes it consumed,
the bytes still unread and the rest of the script. -/
structure RecvExact where
  status : RecvStatus
  bytes : List UInt8
  unread : List UInt8
  script : List Recv

/-- Loop over `recv` until `n` bytes are there. -/
def recv_exact : List Recv → ℕ → List UInt8 → RecvExact
  | script, 0, unread => ⟨.full, [], unread, script⟩
  | [], _ + 1, unread => ⟨.timeout, [], unread, []⟩
  | .timeout :: script, _ + 1, unread => ⟨.timeout, [], unread, script⟩
  | .closed :: script, _ + 1, unread => ⟨.closed, [], unread, script⟩
  | .data k :: script, n + 1, unread =>
      let r := min k (min (n + 1) unread.length)
      if r = 0 then ⟨.timeout, [], unread, script⟩
      else
        let rest := recv_exact script (n + 1 - r) (unread.drop r)
        { rest with bytes := unread.take r ++ rest.bytes }

structure Client where
  connected : Bool := false
  tid_ : UInt16 := 0
  unit_id_ : UInt8 := 1
  unread : List UInt8 := []
  deriving DecidableEq, Repr

/-- `drop()` and `disconnect()`: the bytes of the old stream are gone with it. -/
def Client.drop (c : Client) : Client := { c with connected := false, unread := [] }

/-- An MBAP frame around a PDU. -/
def mbap (tid : UInt16) (unit_id : UInt8) (pdu : List UInt8) : List UInt8 :=
  [hi tid, lo tid, 0, 0, hi (UInt16.ofNat (pdu.length + 1)), lo (UInt16.ofNat (pdu.length + 1)),
    unit_id] ++ pdu

/-! ## `transact` -/

/-- The environment of one request: whether `send_all` succeeds, the bytes the
server answers it with (now or later), and the receive script. -/
structure Io where
  send_ok : Bool := true
  reply : List UInt8 := []
  script : List Recv := []

/-- What a transaction leaves behind. `frames` counts the frames consumed whole. -/
structure Transact where
  client : Client
  result : Result
  resp : List UInt8 := []
  frames : ℕ := 0

/-- The receive loop: skip frames whose transaction id does not match, at most
`attempts` of them. -/
def receive (tid : UInt16) (fc : UInt8) (resp_cap : ℕ) :
    ℕ → Client → List Recv → Transact
  | 0, c, _ => ⟨c, { status := .ProtocolError }, [], 0⟩
  | attempts + 1, c, script =>
      let h := recv_exact script 7 c.unread
      match h.status with
      | .timeout => ⟨{ c with unread := h.unread }, { status := .Timeout }, [], 0⟩
      | .closed => ⟨c.drop, { status := .SocketError }, [], 0⟩
      | .full =>
          let rtid := word (h.bytes.getD 0 0) (h.bytes.getD 1 0)
          let proto := word (h.bytes.getD 2 0) (h.bytes.getD 3 0)
          let rlen := word (h.bytes.getD 4 0) (h.bytes.getD 5 0)
          if proto ≠ 0 ∨ rlen < 2 ∨ rlen > 254 then
            ⟨c.drop, { status := .ProtocolError }, [], 0⟩
          else
            let b := recv_exact h.script (rlen.toNat - 1) h.unread
            match b.status with
            | .timeout => ⟨{ c with unread := b.unread }, { status := .Timeout }, [], 0⟩
            | .closed => ⟨c.drop, { status := .SocketError }, [], 0⟩
            | .full =>
                let c' := { c with unread := b.unread }
                if rtid ≠ tid then
                  -- stale frame, keep looking
                  let t := receive tid fc resp_cap attempts c' b.script
                  { t with frames := t.frames + 1 }
                else
                  let rfc := b.bytes.getD 0 0
                  if rfc = fc ||| 0x80 then
                    ⟨c', { status := .ModbusException,
                           mb_exception := if rlen ≥ 3 then b.bytes.getD 1 0 else 0 }, [], 1⟩
                  else if rfc ≠ fc then ⟨c'.drop, { status := .ProtocolError }, [], 1⟩
                  else if resp_cap < rlen.toNat - 2 then
                    ⟨c'.drop, { status := .ProtocolError }, [], 1⟩
                  else ⟨c', {}, b.bytes.drop 1, 1⟩

/-- One request and its answer. -/
def transact (c : Client) (io : Io) (pdu : List UInt8) (fc : UInt8) (resp_cap : ℕ) : Transact :=
  if c.connected = false then ⟨c, { status := .NotConnected }, [], 0⟩
  else if pdu.length = 0 ∨ pdu.length > 253 then ⟨c, { status := .BadArgument }, [], 0⟩
  else
    let c := { c with tid_ := c.tid_ + 1 }
    if io.send_ok = false then ⟨c.drop, { status := .SocketError }, [], 0⟩
    else receive c.tid_ fc resp_cap 4 { c with unread := c.unread ++ io.reply } io.script

/-! ## The function codes -/

def read_pdu (fc : UInt8) (addr count : UInt16) : List UInt8 :=
  [fc, hi addr, lo addr, hi count, lo count]

/-- The registers of a response body: byte count, then the data. -/
def decode_registers (resp : List UInt8) (count : ℕ) : List UInt16 :=
  (List.range count).map fun i => word (resp.getD (1 + 2 * i) 0) (resp.getD (2 + 2 * i) 0)

/-- FC3 and FC4. The registers are returned only with `Ok`. -/
def read_registers (c : Client) (io : Io) (fc : UInt8) (addr count : UInt16) :
    Transact × List UInt16 :=
  if count = 0 ∨ count > 125 then (⟨c, { status := .BadArgument }, [], 0⟩, [])
  else
    let t := transact c io (read_pdu fc addr count) fc 256
    if t.result.ok = false then (t, [])
    else
      let want := count.toNat * 2
      if t.resp.length < 1 + want ∨ (t.resp.getD 0 0).toNat ≠ want then
        ({ t with result := { status := .ProtocolError } }, [])
      else (t, decode_registers t.resp count.toNat)

def read_holding_registers (c : Client) (io : Io) (addr count : UInt16) :
    Transact × List UInt16 := read_registers c io 0x03 addr count

def read_input_registers (c : Client) (io : Io) (addr count : UInt16) :
    Transact × List UInt16 := read_registers c io 0x04 addr count

def write_single_pdu (addr value : UInt16) : List UInt8 :=
  [0x06, hi addr, lo addr, hi value, lo value]

/-- FC6 -/
def write_single_register (c : Client) (io : Io) (addr value : UInt16) : Transact :=
  transact c io (write_single_pdu addr value) 0x06 8

def write_multiple_pdu (addr : UInt16) (src : List UInt16) : List UInt8 :=
  [0x10, hi addr, lo addr, hi (UInt16.ofNat src.length), lo (UInt16.ofNat src.length),
    UInt8.ofNat (src.length * 2)] ++ src.flatMap fun r => [hi r, lo r]

/-- FC16 -/
def write_multiple_registers (c : Client) (io : Io) (addr : UInt16) (src : List UInt16) :
    Transact :=
  if src.length = 0 ∨ src.length > 123 then ⟨c, { status := .BadArgument }, [], 0⟩
  else transact c io (write_multiple_pdu addr src) 0x10 8

end Mgate
