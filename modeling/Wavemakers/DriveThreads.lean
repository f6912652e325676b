/-
The drive under two threads: the commands of `IndraDrive.lean` on the command
thread, `poll_loop` and the cycle callback `on_cycle` on the poll thread.

One state holds what the threads share, the program that is left of the
running command, the program point of the poll thread, and the registers the
gateway has acknowledged. A transition is one operation of the command thread,
one step of the poll thread together with the environment's answer (how a
request ends, what the drive reports), the start of a new call, or
`request_abort()` from outside. Every interleaving is a run of `step`.

`latched` is not in the source: it is set where `latch_fault` sets `fault_` and
cleared where a call of `enable()` begins.
-/
import Wavemakers.Interleave
import Wavemakers.IndraDrive
import Wavemakers.ModbusTcp

set_option autoImplicit false

namespace Mgate.Threads

open Splice MGateDriver Atomic

/-! ## The poll thread -/

/-- Where the poll thread is. -/
inductive Poll where
  /-- there is no poll thread -/
  | none
  /-- `while (running_.load())` -/
  | loop
  /-- `ensure_connected` -/
  | connect
  | note_connect (r : Result)
  | no_data
  /-- `flush_outputs`: the three sections and the requests between them -/
  | span
  | copy (lo hi : ℕ)
  | send (lo hi : ℕ) (regs : List UInt16) (sent : ℕ)
  | write_failed (r : Result)
  /-- `read_inputs`, `read_status` -/
  | inputs
  | have_data
  | read_failed (r : Result)
  | status
  /-- `note_error` after a failed request -/
  | note (what : String) (r : Result)
  /-- the end of the cycle in `poll_loop` -/
  | online (ok : Bool)
  | account (ok : Bool)
  /-- `on_cycle(false)` -/
  | zero
  | lost
  /-- `on_cycle(true)` -/
  | enabled
  | live
  | live_list
  | error
  | diag
  /-- `latch_fault` -/
  | latch_zero (why : String)
  | latch_enabled (why : String)
  | latch_reason (why : String)
  | latch_fault (newly : Option String)
  | notify (why : String)
  /-- `wake_cv_.wait_until` -/
  | wait
  /-- behind the loop -/
  | exit_online
  | exit_data
  | done

/-- The environment's part in a step of the poll thread. -/
inductive Input where
  | none
  | connect (r : Result)
  /-- a write request, and whether it reached the registers if it failed -/
  | write (r : Result) (applied : Bool)
  | read (r : Result) (regs : List UInt16)
  | time (us : ℕ)

/-! ## The state -/

inductive Call where
  | driver_start | driver_stop
  | enable | move_to (position velocity_rpm : ℚ) | halt | disable | clear_errors | shutdown
  | actuator_start | actuator_halt | actuator_stop
  | write_setpoint (position velocity : ℚ)
  deriving DecidableEq, Repr

structure State where
  cfg : IndraDriveActuator.Config
  drv : MGateDriver
  stats : DriverStats
  online_ : Bool
  running_ : Bool
  have_data_ : Bool
  connected : Bool
  enabled_ : Bool
  fault_ : Bool
  abort_ : Bool
  fault_reason_ : String
  last_error_ : DriveError
  has_target_ : Bool
  last_target_ : ℚ
  /-- the output registers as acknowledged by the gateway -/
  gw : List UInt16
  latched : Bool
  /-- the last call, and what is left of it -/
  call : Call
  prog : Drive Bool
  poll : Poll

def State.tag (s : State) (t : DriveTag) : String := s.cfg.drive.tag t

/-- `set_control(cw)` -/
def set_control (F : FloatCast) (s : State) (cw : UInt16) : Option State :=
  (s.drv.write_int F (s.tag .ControlWord) cw.toNat).toOption.map fun d => { s with drv := d }

/-! ## The command thread -/

/-- The program of a call. -/
def Call.program (cfg : IndraDriveActuator.Config) (rounds : ℕ → ℕ) : Call → Drive Bool
  | .driver_start => do
      act .driver_start
      return true
  | .driver_stop => do
      Mgate.driver_stop
      return true
  | .enable => IndraDrive.enable cfg.drive rounds
  | .move_to p v => IndraDrive.move_to cfg.drive p v
  | .halt => IndraDrive.halt
  | .disable => IndraDrive.disable rounds
  | .clear_errors => IndraDrive.clear_errors (rounds 0)
  | .shutdown => IndraDrive.shutdown
  | .actuator_start => IndraDriveActuator.start cfg rounds
  | .actuator_halt => IndraDriveActuator.halt cfg
  | .actuator_stop => IndraDriveActuator.stop rounds
  | .write_setpoint p v => IndraDriveActuator.write_setpoint cfg p v

/-- One operation. `none` where it has to wait. -/
def exec (F : FloatCast) (s : State) : (o : Op) → Option (State × Resp o)
  | .load_enabled => some (s, s.enabled_)
  | .load_fault => some (s, s.fault_)
  | .load_abort => some (s, s.abort_)
  | .load_online => some (s, s.online_)
  | .load_running => some (s, s.running_)
  | .load_have_data => some (s, s.have_data_)
  | .store_enabled b => some ({ s with enabled_ := b }, ())
  | .store_fault b => some ({ s with fault_ := b }, ())
  | .clear_fault_reason => some ({ s with fault_reason_ := "" }, ())
  | .fault_reason => some (s, s.fault_reason_)
  | .set_control cw => (set_control F s cw).map fun t => (t, ())
  | .write c v => (s.drv.write F (s.tag c.tag) v).toOption.map fun d => ({ s with drv := d }, ())
  | .read_int t => (s.drv.read_int F (s.tag t)).toOption.map fun i => (s, i)
  | .read t => (s.drv.read F (s.tag t)).toOption.map fun q => (s, q)
  | .read_output_int t => (s.drv.read_output_int F (s.tag t)).toOption.map fun i => (s, i)
  | .status_snapshot => some (s, s.drv.status_)
  | .stats => some (s, s.stats)
  | .set_last_error e => some ({ s with last_error_ := e }, ())
  | .driver_start =>
      some (if s.running_ then s else { s with running_ := true, poll := .loop }, ())
  | .clear_running => some ({ s with running_ := false }, s.running_)
  | .join =>
      match s.poll with
      | .done => some ({ s with poll := .none }, ())
      | _ => none
  | .disconnect => some ({ s with connected := false }, ())
  | .store_online_false => some ({ s with online_ := false }, ())
  | .store_has_target b => some ({ s with has_target_ := b }, ())
  | .store_last_target p => some ({ s with last_target_ := p }, ())
  | .load_has_target => some (s, s.has_target_)
  | .load_last_target => some (s, s.last_target_)
  | .enter_enable => some ({ s with latched := false }, ())

/-! ## One step of the poll thread -/

/-- The driver drops the connection on these two only. -/
def broken (r : Result) : Bool := r.status == .SocketError || r.status == .ProtocolError

/-- The gateway's registers after the request now due. -/
def acknowledge (s : State) (lo : ℕ) (regs : List UInt16) (sent : ℕ) : List UInt16 :=
  splice s.gw (first_word lo + sent) (chunk regs sent)

def poll_step (F : FloatCast) (s : State) (i : Input) : Option State :=
  match s.poll with
  | .none => none
  | .loop => some { s with poll := if s.running_ then .connect else .exit_online }
  | .connect =>
      if s.connected then some { s with poll := .span }
      else
        match i with
        | .connect r =>
            if r.ok then
              some { s with connected := true, drv := s.drv.mark_outputs_dirty, poll := .span }
            else some { s with online_ := false, poll := .note_connect r }
        | _ => none
  | .note_connect r =>
      some { s with stats := { s.stats with last_error := "connect: " ++ r.message },
                    poll := .no_data }
  | .no_data => some { s with have_data_ := false, poll := .account false }
  | .span =>
      match s.drv.flush_span with
      | none => some { s with poll := .inputs }
      | some (lo, hi) => some { s with poll := .copy lo hi }
  | .copy lo hi =>
      (s.drv.flush_copy lo hi).toOption.map fun regs => { s with poll := .send lo hi regs 0 }
  | .send lo hi regs sent =>
      if sent < regs.length then
        match i with
        | .write r applied =>
            if r.ok then
              some { s with gw := acknowledge s lo regs sent,
                            poll := .send lo hi regs (sent + (chunk regs sent).length) }
            else
              some { s with gw := if applied then acknowledge s lo regs sent else s.gw,
                            connected := s.connected && !broken r,
                            poll := .write_failed r }
        | _ => none
      else some { s with drv := s.drv.flush_clear lo hi, poll := .inputs }
  | .write_failed r =>
      some { s with stats := { s.stats with write_errors := s.stats.write_errors + 1 },
                    poll := .note "write outputs" r }
  | .inputs =>
      if s.drv.in_.empty then some { s with poll := .status }
      else
        match i with
        | .read r regs =>
            if r.ok then
              if regs.length = s.drv.cfg_.input_word_count.toNat then
                (s.drv.in_.load_from_registers regs 0).toOption.map fun img =>
                  { s with drv := { s.drv with in_ := img }, poll := .have_data }
              else none
            else some { s with connected := s.connected && !broken r, poll := .read_failed r }
        | _ => none
  | .have_data => some { s with have_data_ := true, poll := .status }
  | .read_failed r =>
      some { s with stats := { s.stats with read_errors := s.stats.read_errors + 1 },
                    poll := .note "read inputs" r }
  | .status =>
      if s.drv.cfg_.status_word_count = 0 then some { s with poll := .online true }
      else
        match i with
        | .read r regs =>
            if r.ok then
              if regs.length = s.drv.cfg_.status_word_count.toNat then
                some { s with drv := { s.drv with status_ := regs }, poll := .online true }
              else none
            else
              some { s with connected := s.connected && !broken r, poll := .note "read status" r }
        | _ => none
  | .note what r =>
      some { s with stats := { s.stats with last_error := what ++ ": " ++ r.message },
                    poll := .online false }
  | .online ok => some { s with online_ := ok, poll := .account ok }
  | .account ok =>
      match i with
      | .time us =>
          some { s with stats := { s.stats with cycles := s.stats.cycles + 1, last_cycle_us := us,
                                                last_error := if ok then "" else s.stats.last_error },
                        poll := if ok then .enabled else .zero }
      | _ => none
  | .zero => (set_control F s 0).map fun t => { t with poll := .lost }
  | .lost =>
      some { s with poll := if s.enabled_ then .latch_zero "Modbus link to gateway lost" else .wait }
  | .enabled => some { s with poll := if s.enabled_ then .live else .wait }
  | .live =>
      some { s with poll := if s.online_ then .live_list
                            else .latch_zero "drive dropped out of PROFIBUS data exchange" }
  | .live_list =>
      some { s with poll := if Mgate.live_list s.cfg.drive s.drv.status_ then .error
                            else .latch_zero "drive dropped out of PROFIBUS data exchange" }
  | .error =>
      (s.drv.read_int F (s.tag .StatusWord)).toOption.map fun sw =>
        { s with poll := if no_error (UInt16.ofNat (to_unsigned 16 sw)) then .wait else .diag }
  | .diag =>
      (s.drv.read_int F (s.tag .DiagNumber)).toOption.map fun d =>
        { s with poll := .latch_zero (drive_error_text (to_unsigned 32 d)) }
  | .latch_zero why => (set_control F s 0).map fun t => { t with poll := .latch_enabled why }
  | .latch_enabled why => some { s with enabled_ := false, poll := .latch_reason why }
  | .latch_reason why =>
      if s.fault_ then some { s with poll := .latch_fault none }
      else some { s with fault_reason_ := why, poll := .latch_fault (some why) }
  | .latch_fault newly =>
      some { s with fault_ := true, latched := true,
                    poll := match newly with
                      | none => .wait
                      | some why => .notify why }
  -- the fault callback belongs to the node
  | .notify _ => some { s with poll := .wait }
  | .wait => some { s with poll := .loop }
  | .exit_online => some { s with online_ := false, poll := .exit_data }
  | .exit_data => some { s with have_data_ := false, poll := .done }
  | .done => none

/-! ## Runs -/

inductive Event where
  | call (c : Call) (rounds : ℕ → ℕ)
  | cmd
  | poll (i : Input)
  | request_abort

def step (F : FloatCast) (s : State) : Event → Option State
  | .call c rounds =>
      match s.prog with
      | .pure _ => some { s with call := c, prog := c.program s.cfg rounds }
      | .op _ _ => none
  | .cmd =>
      match s.prog with
      | .pure _ => none
      | .op o k => (exec F s o).map fun r => { r.1 with prog := k r.2 }
  | .poll i => poll_step F s i
  | .request_abort => some { s with abort_ := true }

/-- A constructed actuator: the drive's tags are registered, nothing runs and
the gateway has acknowledged nothing. -/
def Init (s : State) : Prop :=
  ∃ gateway cfg, (MGateDriver.create gateway).add_tags cfg.drive.tags = .ok s.drv ∧ s.cfg = cfg ∧
    s.stats = {} ∧ s.online_ = false ∧ s.running_ = false ∧ s.have_data_ = false ∧
    s.connected = false ∧ s.enabled_ = false ∧ s.fault_ = false ∧ s.abort_ = false ∧
    s.fault_reason_ = "" ∧ s.last_error_ = .none ∧ s.has_target_ = false ∧
    s.gw = List.replicate gateway.output_word_count.toNat 0 ∧ s.latched = false ∧
    s.prog = .pure true ∧ s.poll = .none

/-! ## The control word

It is the first register of the output area. `set_control` replaces it, the
other writes leave it alone, and the driver hands its register to the gateway. -/

/-- The staged control word. -/
def control (img : ProcessImage) : UInt16 := word (img.buf_.getD 0 0) (img.buf_.getD 1 0)

/-- The span a flush is working on lies inside the area. -/
def Poll.Fits (size : ℕ) : Poll → Prop
  | .copy lo hi => lo < hi ∧ hi ≤ size
  | .send lo hi regs sent => lo < hi ∧ hi ≤ size ∧ regs.length = word_count lo hi ∧
      sent ≤ regs.length
  | _ => True

/-- What never changes: the drive's tags and the sizes of the areas. -/
structure Wired (s : State) : Prop where
  tags : s.drv.tags_ = s.cfg.drive.tags
  out_size : s.drv.out_.size = 2 * s.drv.cfg_.output_word_count.toNat
  gw_length : s.gw.length = s.drv.cfg_.output_word_count.toNat
  room : 12 ≤ s.drv.out_.size
  hi_le : s.drv.dirty_hi_ ≤ s.drv.out_.size
  fits : s.poll.Fits s.drv.out_.size

theorem init_wired {s : State} (h : Init s) : Wired s := by
  obtain ⟨gateway, cfg, hdrv, hcfg, -, -, -, -, -, -, -, -, -, -, -, hgw, -, -, hpoll⟩ := h
  obtain ⟨heq, hfits⟩ := add_tags_spec hdrv
  have hsize : s.drv.out_.size = 2 * gateway.output_word_count.toNat := by
    rw [heq]
    simp only [MGateDriver.create, ProcessImage.resize, ProcessImage.size, List.length_replicate]
    omega
  refine ⟨?_, ?_, ?_, ?_, ?_, ?_⟩
  · rw [heq, hcfg]
    rfl
  · rw [hsize, heq]
    rfl
  · rw [hgw, heq]
    exact List.length_replicate
  · -- the last output tag ends behind byte 11
    have hlast := hfits (cfg.drive.entry .Override) (by simp [IndraDriveConfig.tags])
    rw [heq]
    exact hlast
  · rw [heq]
    exact Nat.zero_le _
  · rw [hpoll]
    trivial

/-- The area is smaller than the address space. -/
theorem Wired.small {s : State} (h : Wired s) : s.drv.out_.size < 2 ^ 64 := by
  have h1 := h.out_size
  have h2 := s.drv.cfg_.output_word_count.toNat_lt
  omega

theorem tag_ne {cfg : IndraDriveConfig} {t u : DriveTag} (h : t ≠ u) : cfg.tag t ≠ cfg.tag u := by
  intro heq
  have htext : t.text = u.text := (String.append_right_inj _).mp heq
  revert h htext
  cases t <;> cases u <;> decide

theorem entry_name (cfg : IndraDriveConfig) (t : DriveTag) : (cfg.entry t).name = cfg.tag t := by
  cases t <;> rfl

theorem find_entry (cfg : IndraDriveConfig) {t : DriveTag} : ∀ {l : List DriveTag}, t ∈ l →
    (l.map cfg.entry).find? (fun e => e.name == cfg.tag t) = some (cfg.entry t) := by
  intro l
  induction l with
  | nil =>
      intro ht
      cases ht
  | cons u l ih =>
      intro ht
      rw [List.map_cons, List.find?_cons, entry_name]
      by_cases hu : u = t
      · subst hu
        simp
      · rw [beq_false_of_ne (tag_ne hu)]
        exact ih (List.mem_of_ne_of_mem (Ne.symm hu) ht)

/-- Every tag of the drive is found under its name. -/
theorem find_tag_entry {s : State} (h : Wired s) (t : DriveTag) :
    s.drv.find_tag (s.tag t) = some (s.cfg.drive.entry t) := by
  unfold find_tag
  rw [h.tags]
  refine find_entry s.cfg.drive ?_
  cases t <;> simp

theorem tag_checked_entry {s : State} (h : Wired s) (t : DriveTag)
    (hout : (s.cfg.drive.entry t).area = .Output) :
    s.drv.tag_checked (s.tag t) .Output = .ok (s.cfg.drive.entry t) := by
  unfold tag_checked MGateDriver.tag
  rw [find_tag_entry h t]
  simp only [bind, Except.bind, hout, ne_eq, not_true_eq_false, if_false]

/-- **`set_control`** succeeds, stages inside the control word's bytes and leaves
`cw` there. -/
theorem set_control_spec (F : FloatCast) {s : State} (h : Wired s) (cw : UInt16) :
    ∃ d, set_control F s cw = some { s with drv := d } ∧ Staged s.drv d 0 2 ∧
      control d.out_ = cw := by
  have hroom := h.room
  have hv : to_unsigned 16 (cw.toNat : ℤ) = cw.toNat := by
    have := cw.toNat_lt
    unfold to_unsigned
    omega
  -- the control word is a big-endian U16 at offset 0, so the write replaces the first two bytes
  have hset : s.drv.out_.set_int F (s.cfg.drive.entry .ControlWord) cw.toNat =
      .ok ⟨splice s.drv.out_.buf_ 0 (u64_to_be cw.toNat 2)⟩ := by
    show s.drv.out_.set_be 0 2 (to_unsigned 16 (cw.toNat : ℤ)) .BigEndian = _
    unfold ProcessImage.set_be
    have hcheck : s.drv.out_.check (UInt64.ofNat 0) (UInt64.ofNat 2) = .ok () :=
      ProcessImage.check_ofNat_eq_ok (by omega)
    have hlen : (reorder (u64_to_be cw.toNat 2) .BigEndian).length = 2 := by simp
    have hpoke : s.drv.out_.poke 0 (reorder (u64_to_be cw.toNat 2) .BigEndian) =
        .ok ⟨splice s.drv.out_.buf_ 0 (u64_to_be cw.toNat 2)⟩ :=
      ProcessImage.poke_eq_ok.mpr ⟨by omega, rfl⟩
    rw [hv]
    exact ProcessImage.bind_eq_ok.mpr ⟨(), hcheck, hpoke⟩
  have hwrite : s.drv.write_int F (s.tag .ControlWord) cw.toNat =
      s.drv.stage (s.cfg.drive.entry .ControlWord)
        fun img => img.set_int F (s.cfg.drive.entry .ControlWord) cw.toNat := by
    unfold write_int
    rw [tag_checked_entry h .ControlWord rfl]
    rfl
  have hstage : s.drv.write_int F (s.tag .ControlWord) cw.toNat =
      .ok ({ s.drv with out_ := ⟨splice s.drv.out_.buf_ 0 (u64_to_be cw.toNat 2)⟩ }.touch 0
        (s.cfg.drive.entry .ControlWord).size_bytes) := by
    rw [hwrite]
    exact ProcessImage.bind_eq_ok.mpr ⟨_, hset, rfl⟩
  refine ⟨_, by rw [set_control, hstage]; rfl, ?_, ?_⟩
  · rw [hwrite] at hstage
    exact stage_spec (fun _ _ => ProcessImage.set_int_frame) h.small hstage
  · rw [touch_out]
    have hlt := cw.toNat_lt
    -- and these two read back as the word
    show word (UInt8.ofNat (cw.toNat / 256 ^ 1)) (UInt8.ofNat (cw.toNat / 256 ^ 0)) = cw
    rw [← UInt16.toNat_inj, toNat_word, UInt8.toNat_ofNat', UInt8.toNat_ofNat']
    omega

/-- The command values lie behind the control word. -/
theorem write_control (F : FloatCast) {s : State} (h : Wired s) {c : CommandValue} {v : ℚ}
    {d : MGateDriver} (hw : s.drv.write F (s.tag c.tag) v = .ok d) :
    (∃ lo hi, Staged s.drv d lo hi) ∧ control d.out_ = control s.drv.out_ := by
  have harea : (s.cfg.drive.entry c.tag).area = .Output ∧ 2 ≤ (s.cfg.drive.entry c.tag).lo := by
    cases c with
    | TargetPosition => exact ⟨rfl, (by decide : 2 ≤ (2 : UInt64).toNat)⟩
    | PosVelocity => exact ⟨rfl, (by decide : 2 ≤ (6 : UInt64).toNat)⟩
    | Override => exact ⟨rfl, (by decide : 2 ≤ (10 : UInt64).toNat)⟩
  have hlo := harea.2
  have hst : s.drv.stage (s.cfg.drive.entry c.tag)
      (fun img => img.set_scaled F (s.cfg.drive.entry c.tag) v) = .ok d := by
    unfold MGateDriver.write at hw
    rw [tag_checked_entry h c.tag harea.1] at hw
    exact hw
  have hs := stage_spec (fun _ _ => ProcessImage.set_scaled_frame) h.small hst
  refine ⟨⟨_, _, hs⟩, ?_⟩
  unfold control
  rw [List.getD_eq_getElem?_getD, List.getD_eq_getElem?_getD, hs.frame.outside 0 (by omega),
    hs.frame.outside 1 (by omega), ← List.getD_eq_getElem?_getD, ← List.getD_eq_getElem?_getD]

/-! ## The areas are never resized -/

/-- A driver with the same tags and areas. -/
structure SameShape (d d' : MGateDriver) : Prop where
  cfg : d'.cfg_ = d.cfg_
  tags : d'.tags_ = d.tags_
  size : d'.out_.size = d.out_.size
  hi_le : d.dirty_hi_ ≤ d.out_.size → d'.dirty_hi_ ≤ d.out_.size

theorem SameShape.refl (d : MGateDriver) : SameShape d d := ⟨rfl, rfl, rfl, id⟩

theorem sameShape_staged {d d' : MGateDriver} {lo hi : ℕ} (h : Staged d d' lo hi) :
    SameShape d d' := ⟨h.cfg, h.others.1, h.frame.size_eq, h.hi_le⟩

theorem sameShape_clear (d : MGateDriver) (lo hi : ℕ) : SameShape d (d.flush_clear lo hi) := by
  unfold flush_clear
  split
  · exact ⟨rfl, rfl, rfl, fun _ => Nat.zero_le _⟩
  · split
    · exact ⟨rfl, rfl, rfl, id⟩
    · exact .refl d

theorem Wired.of_shape {s t : State} (h : Wired s) (hd : SameShape s.drv t.drv)
    (hcfg : t.cfg = s.cfg) (hgw : t.gw.length = s.gw.length)
    (hpoll : t.poll.Fits s.drv.out_.size) : Wired t := by
  refine ⟨?_, ?_, ?_, ?_, ?_, ?_⟩
  · rw [hd.tags, hcfg]
    exact h.tags
  · rw [hd.size, hd.cfg]
    exact h.out_size
  · rw [hgw, hd.cfg]
    exact h.gw_length
  · rw [hd.size]
    exact h.room
  · rw [hd.size]
    exact hd.hi_le h.hi_le
  · rw [hd.size]
    exact hpoll

theorem out_clear (d : MGateDriver) (lo hi : ℕ) : (d.flush_clear lo hi).out_ = d.out_ := by
  unfold flush_clear
  split
  · rfl
  · split
    · rfl
    · rfl

/-! ## One operation of the command thread -/

/-- **The operations.** One that is neither a write nor a part of starting and
stopping the driver leaves the outputs, the gateway and the poll thread alone. -/
structure Executed (s t : State) (o : Op) : Prop where
  shape : SameShape s.drv t.drv
  cfg : t.cfg = s.cfg
  gw : t.gw = s.gw
  control : control t.drv.out_ = control s.drv.out_ ∨
    ∃ cw, o = .set_control cw ∧ control t.drv.out_ = cw
  poll : t.poll = s.poll ∨ (o = .driver_start ∧ t.poll = .loop) ∨ (o = .join ∧ t.poll = .none)
  running : o ≠ .driver_start → o ≠ .clear_running → t.running_ = s.running_
  latched : t.latched = true → s.latched = true

theorem exec_spec {F : FloatCast} {s t : State} {o : Op} {r : Resp o} (h : Wired s)
    (hx : exec F s o = some (t, r)) : Executed s t o := by
  have same : ∀ u : State, u.drv = s.drv → u.cfg = s.cfg → u.gw = s.gw → u.poll = s.poll →
      (o ≠ .driver_start → o ≠ .clear_running → u.running_ = s.running_) →
      u.latched = s.latched → Executed s u o := by
    intro u hd hc hg hp hr hl
    exact ⟨by rw [hd]; exact .refl _, hc, hg, .inl (by rw [hd]), .inl hp, hr,
      fun h => by rw [← hl]; exact h⟩
  cases o with
  | set_control cw =>
      obtain ⟨d, hd, hst, hcw⟩ := set_control_spec F h cw
      simp only [exec, hd, Option.map_some, Option.some.injEq, Prod.mk.injEq] at hx
      obtain ⟨rfl, -⟩ := hx
      exact ⟨sameShape_staged hst, rfl, rfl, .inr ⟨cw, rfl, hcw⟩, .inl rfl, fun _ _ => rfl, id⟩
  | write c v =>
      simp only [exec, Option.map_eq_some_iff, Prod.mk.injEq] at hx
      obtain ⟨d, hd, rfl, -⟩ := hx
      obtain ⟨⟨lo, hi, hst⟩, hcw⟩ := write_control F h (ProcessImage.toOption_eq_some hd)
      exact ⟨sameShape_staged hst, rfl, rfl, .inl hcw, .inl rfl, fun _ _ => rfl, id⟩
  | driver_start =>
      simp only [exec, Option.some.injEq, Prod.mk.injEq] at hx
      obtain ⟨rfl, -⟩ := hx
      split
      · exact same _ rfl rfl rfl rfl (fun _ _ => rfl) rfl
      · exact ⟨.refl _, rfl, rfl, .inl rfl, .inr (.inl ⟨rfl, rfl⟩), fun h _ => absurd rfl h, id⟩
  | join =>
      simp only [exec] at hx
      split at hx
      · cases hx
        exact ⟨.refl _, rfl, rfl, .inl rfl, .inr (.inr ⟨rfl, rfl⟩), fun _ _ => rfl, id⟩
      · cases hx
  | enter_enable =>
      cases hx
      -- only entering `enable` releases a latched fault
      exact ⟨.refl _, rfl, rfl, .inl rfl, .inl rfl, fun _ _ => rfl, nofun⟩
  | clear_running =>
      cases hx
      exact same _ rfl rfl rfl rfl (fun _ h => absurd rfl h) rfl
  | read_int u | read u | read_output_int u =>
      simp only [exec, Option.map_eq_some_iff, Prod.mk.injEq] at hx
      obtain ⟨_, -, rfl, -⟩ := hx
      exact same _ rfl rfl rfl rfl (fun _ _ => rfl) rfl
  | _ =>
      cases hx
      exact same _ rfl rfl rfl rfl (fun _ _ => rfl) rfl

theorem Executed.wired {s t : State} {o : Op} (h : Wired s) (hx : Executed s t o) : Wired t := by
  refine h.of_shape hx.shape hx.cfg (by rw [hx.gw]) ?_
  rcases hx.poll with hp | ⟨-, hp⟩ | ⟨-, hp⟩
  · rw [hp]
    exact h.fits
  · rw [hp]
    trivial
  · rw [hp]
    trivial

/-! ## One step of the poll thread -/

/-- What a step of the poll thread never touches, and how it may change the
staged control word. -/
structure Polled (s t : State) : Prop where
  shape : SameShape s.drv t.drv
  cfg : t.cfg = s.cfg
  gw : t.gw.length = s.gw.length
  fits : t.poll.Fits s.drv.out_.size
  control : control t.drv.out_ = control s.drv.out_ ∨ control t.drv.out_ = 0
  prog : t.prog = s.prog
  call : t.call = s.call
  running : t.running_ = s.running_

theorem Polled.wired {s t : State} (h : Wired s) (hp : Polled s t) : Wired t :=
  h.of_shape hp.shape hp.cfg hp.gw hp.fits

theorem length_acknowledge {s : State} (h : Wired s) {lo hi sent : ℕ} {regs : List UInt16}
    (hp : s.poll = .send lo hi regs sent) : (acknowledge s lo regs sent).length = s.gw.length := by
  have hfits := h.fits
  rw [hp] at hfits
  obtain ⟨hlt, hle, hlen, hsent⟩ := hfits
  have hsize := h.out_size
  have hgw := h.gw_length
  refine length_splice ?_
  rw [length_chunk hsent, hlen]
  rw [hlen] at hsent
  unfold word_count at hsent ⊢
  unfold write_chunk first_word
  omega

/-- A flush that covers the control word copies it into the first register. -/
theorem copy_control {s : State} (h : Wired s) {lo hi : ℕ} {regs : List UInt16}
    (hp : s.poll = .copy lo hi) (hlo : lo < 2) (hc : s.drv.flush_copy lo hi = .ok regs) :
    regs[0]? = some (control s.drv.out_) := by
  have hfits := h.fits
  rw [hp] at hfits
  obtain ⟨hlt, hle⟩ := hfits
  have hsize := h.out_size
  obtain ⟨regs', hok, hlen, hbytes⟩ := flush_copy_spec hlt hle (by omega)
  rw [hok] at hc
  cases hc
  have hfirst : first_word lo = 0 := by
    unfold first_word
    omega
  have hcount : 0 < word_count lo hi := by
    unfold word_count
    omega
  rw [hfirst, ← hlen] at hbytes
  rw [← hlen] at hcount
  have hget := List.getElem?_eq_getElem hcount
  have h0 := hbytes 0 (by omega)
  have h1 := hbytes 1 (by omega)
  rw [show (0 : ℕ) = 2 * 0 from rfl, byte_of_even hget] at h0
  rw [show (1 : ℕ) = 2 * 0 + 1 from rfl, byte_of_odd hget] at h1
  rw [hget, control, List.getD_eq_getElem?_getD, List.getD_eq_getElem?_getD]
  simp only [Nat.zero_mul, Nat.mul_zero, Nat.zero_add] at h0 h1
  rw [← h0, ← h1, Option.getD_some, Option.getD_some, word_hi_lo]

/-- **The poll thread.** -/
theorem poll_spec {F : FloatCast} {s t : State} {i : Input} (h : Wired s)
    (hx : poll_step F s i = some t) : Polled s t := by
  -- most steps touch neither the outputs nor the gateway
  have quiet : ∀ u : State, u.drv = s.drv → u.cfg = s.cfg → u.gw.length = s.gw.length →
      u.poll.Fits s.drv.out_.size → u.prog = s.prog → u.call = s.call →
      u.running_ = s.running_ → Polled s u := by
    intro u hd hc hg hf hp hcl hr
    exact ⟨by rw [hd]; exact .refl _, hc, hg, hf, .inl (by rw [hd]), hp, hcl, hr⟩
  have zero : ∀ (f : State → State), (∀ u, (f u).drv = u.drv ∧ (f u).cfg = u.cfg ∧
      (f u).gw = u.gw ∧ (f u).poll.Fits s.drv.out_.size ∧ (f u).prog = u.prog ∧
      (f u).call = u.call ∧ (f u).running_ = u.running_) →
      (set_control F s 0).map f = some t → Polled s t := by
    intro f hf hx
    obtain ⟨d, hd, hst, hcw⟩ := set_control_spec F h 0
    rw [hd, Option.map_some, Option.some.injEq] at hx
    obtain ⟨h1, h2, h3, h4, h5, h6, h7⟩ := hf { s with drv := d }
    subst hx
    exact ⟨by rw [h1]; exact sameShape_staged hst, h2, by rw [h3], h4, .inr (by rw [h1]; exact hcw),
      h5, h6, h7⟩
  have hfits := h.fits
  unfold poll_step at hx
  cases hp : s.poll <;> simp only [hp] at hx hfits
  case none => cases hx
  case done => cases hx
  case zero =>
    refine zero _ ?_ hx
    exact fun u => ⟨rfl, rfl, rfl, trivial, rfl, rfl, rfl⟩
  case latch_zero why =>
    refine zero _ ?_ hx
    exact fun u => ⟨rfl, rfl, rfl, trivial, rfl, rfl, rfl⟩
  case connect =>
    split at hx
    · cases hx
      exact quiet _ rfl rfl rfl trivial rfl rfl rfl
    · split at hx
      · split at hx
        · cases hx
          exact ⟨⟨rfl, rfl, rfl, fun _ => le_refl _⟩, rfl, rfl, trivial, .inl rfl, rfl, rfl, rfl⟩
        · cases hx
          exact quiet _ rfl rfl rfl trivial rfl rfl rfl
      · cases hx
  case span =>
    split at hx
    · cases hx
      exact quiet _ rfl rfl rfl trivial rfl rfl rfl
    · rename_i lo hi hspan
      cases hx
      obtain ⟨hlt, hle, -, -⟩ := flush_span_some hspan h.hi_le
      exact quiet _ rfl rfl rfl ⟨hlt, hle⟩ rfl rfl rfl
  case copy lo hi =>
    obtain ⟨regs, hregs, rfl⟩ := Option.map_eq_some_iff.mp hx
    have hsize := h.out_size
    obtain ⟨regs', hok, hlen, -⟩ := flush_copy_spec hfits.1 hfits.2 (by omega)
    rw [hok] at hregs
    cases hregs
    exact quiet _ rfl rfl rfl ⟨hfits.1, hfits.2, hlen, Nat.zero_le _⟩ rfl rfl rfl
  case send lo hi regs sent =>
    obtain ⟨hlt, hle, hlen, hsent⟩ := hfits
    split at hx
    · rename_i hmore
      split at hx
      · split at hx
        · cases hx
          refine quiet _ rfl rfl (length_acknowledge h hp) ⟨hlt, hle, hlen, ?_⟩ rfl rfl rfl
          rw [length_chunk hsent]
          unfold write_chunk
          omega
        · cases hx
          refine quiet _ rfl rfl ?_ trivial rfl rfl rfl
          simp only
          split
          · exact length_acknowledge h hp
          · rfl
      · cases hx
    · cases hx
      exact ⟨sameShape_clear _ _ _, rfl, rfl, trivial, .inl (by rw [out_clear]), rfl, rfl, rfl⟩
  case inputs =>
    split at hx
    · cases hx
      exact quiet _ rfl rfl rfl trivial rfl rfl rfl
    · split at hx
      · split at hx
        · split at hx
          · obtain ⟨img, -, rfl⟩ := Option.map_eq_some_iff.mp hx
            exact ⟨⟨rfl, rfl, rfl, id⟩, rfl, rfl, trivial, .inl rfl, rfl, rfl, rfl⟩
          · cases hx
        · cases hx
          exact quiet _ rfl rfl rfl trivial rfl rfl rfl
      · cases hx
  case status =>
    split at hx
    · cases hx
      exact quiet _ rfl rfl rfl trivial rfl rfl rfl
    · split at hx
      · split at hx
        · split at hx
          · cases hx
            exact ⟨⟨rfl, rfl, rfl, id⟩, rfl, rfl, trivial, .inl rfl, rfl, rfl, rfl⟩
          · cases hx
        · cases hx
          exact quiet _ rfl rfl rfl trivial rfl rfl rfl
      · cases hx
  case account ok =>
    split at hx
    · cases hx
      refine quiet _ rfl rfl rfl ?_ rfl rfl rfl
      simp only
      split
      · trivial
      · trivial
    · cases hx
  case error =>
    obtain ⟨sw, -, rfl⟩ := Option.map_eq_some_iff.mp hx
    refine quiet _ rfl rfl rfl ?_ rfl rfl rfl
    simp only
    split
    · trivial
    · trivial
  case diag =>
    obtain ⟨d, -, rfl⟩ := Option.map_eq_some_iff.mp hx
    exact quiet _ rfl rfl rfl trivial rfl rfl rfl
  case latch_reason why =>
    split at hx
    · cases hx
      exact quiet _ rfl rfl rfl trivial rfl rfl rfl
    · cases hx
      exact quiet _ rfl rfl rfl trivial rfl rfl rfl
  all_goals
    cases hx
    refine quiet _ rfl rfl rfl ?_ rfl rfl rfl
    first
    | trivial
    | (simp only
       split
       · trivial
       · trivial)

/-! ## One transition -/

theorem step_call {F : FloatCast} {s t : State} {c : Call} {rounds : ℕ → ℕ}
    (h : step F s (.call c rounds) = some t) :
    ∃ r, s.prog = .pure r ∧ t = { s with call := c, prog := c.program s.cfg rounds } := by
  simp only [step] at h
  split at h
  · rename_i r hp
    cases h
    exact ⟨r, hp, rfl⟩
  · cases h

/-- **What one transition can do**, in terms of the two threads. -/
theorem step_cases {F : FloatCast} {s t : State} {e : Event} (h : step F s e = some t) :
    (∃ c rounds r, e = .call c rounds ∧ s.prog = .pure r ∧
      t = { s with call := c, prog := c.program s.cfg rounds }) ∨
    (∃ o k u r, e = .cmd ∧ s.prog = .op o k ∧ exec F s o = some (u, r) ∧
      t = { u with prog := k r }) ∨
    (∃ i, e = .poll i ∧ poll_step F s i = some t) ∨
    (e = .request_abort ∧ t = { s with abort_ := true }) := by
  cases e with
  | call c rounds =>
      obtain ⟨r, hp, rfl⟩ := step_call h
      exact .inl ⟨c, rounds, r, rfl, hp, rfl⟩
  | cmd =>
      simp only [step] at h
      split at h
      · cases h
      · rename_i o k hp
        obtain ⟨⟨u, r⟩, hx, rfl⟩ := Option.map_eq_some_iff.mp h
        exact .inr (.inl ⟨o, k, u, r, rfl, hp, hx, rfl⟩)
  | poll i => exact .inr (.inr (.inl ⟨i, rfl, h⟩))
  | request_abort =>
      cases h
      exact .inr (.inr (.inr ⟨rfl, rfl⟩))

theorem step_wired {F : FloatCast} {s t : State} {e : Event} (h : Wired s)
    (hs : step F s e = some t) : Wired t := by
  rcases step_cases hs with ⟨c, rounds, r, -, -, rfl⟩ | ⟨o, k, u, r, -, -, hx, rfl⟩ |
    ⟨i, -, hx⟩ | ⟨-, rfl⟩
  · exact h.of_shape (.refl _) rfl rfl h.fits
  · have hu := (exec_spec h hx).wired h
    exact hu.of_shape (.refl _) rfl rfl hu.fits
  · exact (poll_spec h hx).wired h
  · exact h.of_shape (.refl _) rfl rfl h.fits

/-! ## A drive on the bench

The smallest gateway the default drive fits on, and the events of poll cycles,
for the runs that show a schedule. -/

def bench_gateway : GatewayConfig where
  input_word_count := 7
  output_word_count := 6
  status_word_count := 2

def bench : State where
  cfg := {}
  drv := { MGateDriver.create bench_gateway with tags_ := ({} : IndraDriveConfig).tags }
  stats := {}
  online_ := false
  running_ := false
  have_data_ := false
  connected := false
  enabled_ := false
  fault_ := false
  abort_ := false
  fault_reason_ := ""
  last_error_ := .none
  has_target_ := false
  last_target_ := 0
  gw := List.replicate 6 0
  latched := false
  call := .driver_stop
  prog := .pure true
  poll := .none

theorem bench_init : Init bench := by
  refine ⟨bench_gateway, {}, ?_, rfl, rfl, rfl, rfl, rfl, rfl, rfl, rfl, rfl, rfl, rfl, rfl, rfl,
    rfl, rfl, rfl⟩
  have hsome : ((MGateDriver.create bench_gateway).add_tags
      ({} : IndraDriveConfig).tags).toOption.isSome = true := by
    decide +kernel
  obtain ⟨d, hd⟩ := Option.isSome_iff_exists.mp hsome
  have hok := ProcessImage.toOption_eq_some hd
  rw [hok, (add_tags_spec hok).1]
  rfl

/-- The poll thread takes `n` steps that need no answer. -/
def quiet (n : ℕ) : List Event := List.replicate n (.poll .none)

/-- The command thread takes `n` steps. -/
def commands (n : ℕ) : List Event := List.replicate n .cmd

/-- From the top of `poll_loop` to the copy of a flush. -/
def to_send : List Event := [.poll .none, .poll (.connect {}), .poll .none, .poll .none]

/-- From the read requests to `on_cycle(true)`: the drive, live on the bus,
reports the status word. -/
def received (sw : UInt16) : List Event :=
  [.poll (.read {} [sw, 0, 0, 0, 0, 0, 0]), .poll .none, .poll (.read {} [0x0003, 0x0400]),
    .poll .none, .poll (.time 10), .poll .none]

/-- The same from the write request on. -/
def answered (sw : UInt16) : List Event := [.poll (.write {} false), .poll .none] ++ received sw

end Mgate.Threads
