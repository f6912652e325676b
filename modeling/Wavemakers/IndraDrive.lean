/-
`indradrive.h`, `indradrive.cpp` and `indradrive_actuator.cpp`: the drive's
control and status word, its tags, and the commands of the drive and of the
actuator on top of it.

The commands run on the application thread against a poll thread that runs all
the while, so each of them is a program of atomic operations (`Atomic.lean`):
one operation per atomic load or store, per call into `MGateDriver` that takes
its mutex, and per step of starting and joining the poll thread. What the
operations do to the shared state is in `DriveThreads.lean`.

A wait polls the status word until its deadline. Where the source compares the
clock with the deadline, the program counts down the rounds that are left, and
every statement is for every number of rounds. Texts that only reach a log are
left out; the texts of faults are kept, the reasons of a failed command are the
constructors of `DriveError`.
-/
import Wavemakers.Atomic
import Wavemakers.MGateDriver

set_option autoImplicit false

namespace Mgate

/-! ## Control and status word -/

namespace indra_cw

/-- 1 = operating mode, 0 = parameter mode -/
def kOperatingMode : UInt16 := 0x0002
/-- 0->1 starts C5 "clear errors" -/
def kClearErrors : UInt16 := 0x0020
/-- 0 = Drive Halt, 1 = run -/
def kDriveStart : UInt16 := 0x2000
/-- controller enable -/
def kDriveOn : UInt16 := 0x8000

end indra_cw

namespace indra_sw

def kModeMask : UInt16 := 0x0003
def kModeOperating : UInt16 := 0x0002
def kInStandstill : UInt16 := 0x0008
def kTargetReached : UInt16 := 0x0010
def kNotFollowing : UInt16 := 0x0080
def kClass1Error : UInt16 := 0x2000
def kReadyMask : UInt16 := 0xC000
def kReadyAb : UInt16 := 0x8000
def kReadyAF : UInt16 := 0xC000

end indra_sw

open indra_sw in
def in_operating_mode (sw : UInt16) : Bool := (sw &&& kModeMask) == kModeOperating
open indra_sw in
def power_ready (sw : UInt16) : Bool := (sw &&& kReadyMask) ≥ kReadyAb
open indra_sw in
def with_torque (sw : UInt16) : Bool := (sw &&& kReadyMask) == kReadyAF
open indra_sw in
def without_torque (sw : UInt16) : Bool := (sw &&& kReadyMask) != kReadyAF
open indra_sw in
def following (sw : UInt16) : Bool := (sw &&& kNotFollowing) == 0
open indra_sw in
def standstill (sw : UInt16) : Bool := (sw &&& kInStandstill) != 0
open indra_sw in
def no_error (sw : UInt16) : Bool := (sw &&& kClass1Error) == 0

/-- The drive is commanded off. -/
def off (cw : UInt16) : Prop := cw &&& indra_cw.kDriveOn = 0

instance (cw : UInt16) : Decidable (off cw) := inferInstanceAs (Decidable (_ = _))

/-! ## Configuration and tags -/

structure IndraDriveConfig where
  name_prefix : String := "Drv."
  /-- for the gateway live list check -/
  profibus_address : ℤ := 2
  min_position : ℚ := -550
  max_position : ℚ := 500
  max_velocity_rpm : ℚ := 100

/-- The drive's tags. -/
inductive DriveTag where
  | StatusWord | Position | Velocity | DiagNumber
  | ControlWord | TargetPosition | PosVelocity | Override
  deriving DecidableEq, Repr

/-- The command values: the outputs next to the control word. -/
inductive CommandValue where
  | TargetPosition | PosVelocity | Override
  deriving DecidableEq, Repr

def CommandValue.tag : CommandValue → DriveTag
  | .TargetPosition => .TargetPosition
  | .PosVelocity => .PosVelocity
  | .Override => .Override

def DriveTag.text : DriveTag → String
  | .StatusWord => "StatusWord"
  | .Position => "Position"
  | .Velocity => "Velocity"
  | .DiagNumber => "DiagNumber"
  | .ControlWord => "ControlWord"
  | .TargetPosition => "TargetPosition"
  | .PosVelocity => "PosVelocity"
  | .Override => "Override"

/-- `tag(s)` -/
def IndraDriveConfig.tag (cfg : IndraDriveConfig) (t : DriveTag) : String :=
  cfg.name_prefix ++ t.text

/-- The row of the constructor's table. -/
def IndraDriveConfig.entry (cfg : IndraDriveConfig) (t : DriveTag) : Tag :=
  match t with
  | .StatusWord => { name := cfg.tag t, area := .Input, type := .U16, byte_offset := 0 }
  | .Position =>
      { name := cfg.tag t, area := .Input, type := .I32, byte_offset := 2, scale := 1 / 10000 }
  | .Velocity =>
      { name := cfg.tag t, area := .Input, type := .I32, byte_offset := 6, scale := 1 / 10000 }
  | .DiagNumber => { name := cfg.tag t, area := .Input, type := .U32, byte_offset := 10 }
  | .ControlWord => { name := cfg.tag t, area := .Output, type := .U16, byte_offset := 0 }
  | .TargetPosition =>
      { name := cfg.tag t, area := .Output, type := .I32, byte_offset := 2, scale := 1 / 10000 }
  | .PosVelocity =>
      { name := cfg.tag t, area := .Output, type := .I32, byte_offset := 6, scale := 1 / 10000 }
  | .Override =>
      { name := cfg.tag t, area := .Output, type := .U16, byte_offset := 10, scale := 1 / 100 }

def IndraDriveConfig.tags (cfg : IndraDriveConfig) : List Tag :=
  [.StatusWord, .Position, .Velocity, .DiagNumber, .ControlWord, .TargetPosition, .PosVelocity,
    .Override].map cfg.entry

/-- The live list part of `slave_live()`: bits 1:0 of the gateway's status word
are 11, and the bit of the drive's PROFIBUS address is set. -/
def live_list (cfg : IndraDriveConfig) (st : List UInt16) : Bool :=
  if st.isEmpty || (st.getD 0 0 &&& 0x3) != 0x3 then false
  else
    -- `static_cast<std::size_t>` of the address
    let b := 2 + (cfg.profibus_address % 2 ^ 64).toNat / 8
    let reg := b / 2
    if reg ≥ st.length then false
    else
      let byte := if b % 2 = 0 then hi (st.getD reg 0) else lo (st.getD reg 0)
      (byte.toNat >>> (cfg.profibus_address % 8).toNat) % 2 == 1

/-- `"%X"` and `"%04X"` of the two halves of a diagnostic number. -/
def hex_text (digits n : ℕ) : String :=
  String.ofList ((List.range digits).map fun i =>
    "0123456789ABCDEF".toList.getD (n / 16 ^ (digits - 1 - i) % 16) '0')

def drive_error_text (d : ℕ) : String :=
  "drive error " ++ hex_text 1 (d / 2 ^ 16 % 16) ++ hex_text 4 (d % 2 ^ 16)

/-- Why a command returned false. -/
inductive DriveError where
  | none
  | gateway_offline
  | not_in_data_exchange
  | active_error
  | aborted (what : String)
  | fault (what reason : String)
  | offline_while_waiting (what : String)
  | timeout (what : String) (sw : UInt16)
  | not_enabled (reason : Option String)
  | position_outside (position : ℚ)
  | velocity_outside (velocity_rpm : ℚ)
  deriving DecidableEq, Repr

structure DriverStats where
  cycles : ℕ := 0
  read_errors : ℕ := 0
  write_errors : ℕ := 0
  last_cycle_us : ℕ := 0
  last_error : String := ""
  deriving DecidableEq, Repr

/-! ## The atomic operations -/

inductive Op where
  | load_enabled | load_fault | load_abort | load_online | load_running | load_have_data
  | store_enabled (b : Bool)
  | store_fault (b : Bool)
  /-- the two sections of `fault_mtx_` outside `latch_fault` -/
  | clear_fault_reason
  | fault_reason
  /-- the calls into the driver -/
  | set_control (cw : UInt16)
  | write (c : CommandValue) (value : ℚ)
  | read_int (t : DriveTag)
  | read (t : DriveTag)
  | read_output_int (t : DriveTag)
  | status_snapshot
  | stats
  | set_last_error (e : DriveError)
  /-- `running_.exchange(true)`, and the new poll thread when it was false -/
  | driver_start
  /-- `running_.exchange(false)` -/
  | clear_running
  /-- `thread_.join()`: waits for the poll thread to end -/
  | join
  | disconnect
  | store_online_false
  | store_has_target (b : Bool)
  | store_last_target (p : ℚ)
  | load_has_target | load_last_target
  /-- marks where a call of `enable()` begins -/
  | enter_enable

/-- What an operation returns. -/
abbrev Resp : Op → Type
  | .load_enabled | .load_fault | .load_abort | .load_online | .load_running | .load_have_data => Bool
  | .fault_reason => String
  | .read_int _ | .read_output_int _ => ℤ
  | .read _ | .load_last_target => ℚ
  | .status_snapshot => List UInt16
  | .stats => DriverStats
  | .clear_running | .load_has_target => Bool
  | _ => Unit

abbrev Drive (α : Type) : Type := Atomic.Prog Resp α

/-- A single operation. -/
def act (o : Op) : Drive (Resp o) := Atomic.Prog.lift o

/-! ## `IndraDrive` -/

namespace IndraDrive

def status_word : Drive UInt16 := do
  let raw : ℤ ← act (.read_int .StatusWord)
  return UInt16.ofNat (to_unsigned 16 raw)

def position_deg : Drive ℚ := act (.read .Position)

def slave_live (cfg : IndraDriveConfig) : Drive Bool := do
  let online : Bool ← act .load_online
  if online = false then return false
  let st : List UInt16 ← act .status_snapshot
  return live_list cfg st

def set_control (cw : UInt16) : Drive Unit := act (.set_control cw)

def fail (why : DriveError) : Drive Bool := do
  act (.set_last_error why)
  return false

/-- One round of `wait_for`: `again` is what follows when the status word does
not satisfy the predicate yet. -/
def wait_round (what : String) (pred : UInt16 → Bool) (stoppable : Bool)
    (again : UInt16 → Drive Bool) : Drive Bool := do
  if stoppable then
    let abort : Bool ← act .load_abort
    if abort then return ← fail (.aborted what)
    let fault : Bool ← act .load_fault
    if fault then
      let reason : String ← act .fault_reason
      return ← fail (.fault what reason)
  let online : Bool ← act .load_online
  if online = false then return ← fail (.offline_while_waiting what)
  let sw ← status_word
  if pred sw then return true
  again sw

/-- `wait_for` with `rounds` polls before the deadline. -/
def wait_for (what : String) (pred : UInt16 → Bool) (stoppable : Bool) : ℕ → Drive Bool
  | 0 => wait_round what pred stoppable fun sw => fail (.timeout what sw)
  | rounds + 1 => wait_round what pred stoppable fun _ => wait_for what pred stoppable rounds

def clear_errors (rounds : ℕ) : Drive Bool := do
  let cw : ℤ ← act (.read_output_int .ControlWord)
  let base := UInt16.ofNat (to_unsigned 16 cw) &&& ~~~indra_cw.kClearErrors
  set_control (base ||| indra_cw.kClearErrors)
  let ok ← wait_for "errors to clear" no_error true rounds
  -- 1->0 terminates C5
  set_control base
  return ok

/-- The failure path of `enable()`. -/
def abort_enable : Drive Bool := do
  act (.store_enabled false)
  set_control indra_cw.kOperatingMode
  return false

open indra_cw in
/-- `enable()`; `rounds i` polls before the deadline of the `i`-th wait. -/
def enable (cfg : IndraDriveConfig) (rounds : ℕ → ℕ) : Drive Bool := do
  act .enter_enable
  let online : Bool ← act .load_online
  if online = false then return ← fail .gateway_offline
  let live ← slave_live cfg
  if live = false then return ← fail .not_in_data_exchange
  act .clear_fault_reason
  act (.store_fault false)
  let sw ← status_word
  if (sw &&& indra_sw.kClass1Error) ≠ 0 then return ← fail .active_error
  -- Park the command values on the current position before anything else.
  act (.write .Override 100)
  act (.write .PosVelocity (min 10 cfg.max_velocity_rpm))
  let p ← position_deg
  act (.write .TargetPosition p)
  set_control kOperatingMode
  let ok ← wait_for "operating mode" in_operating_mode true (rounds 0)
  if ok = false then return ← abort_enable
  let ok ← wait_for "power section ready (Ab) - is mains/DC bus on?" power_ready true (rounds 1)
  if ok = false then return ← abort_enable
  act (.store_enabled true)
  -- torque on, Drive Halt still active
  set_control (kOperatingMode ||| kDriveOn)
  let ok ← wait_for "drive ON (AF)" with_torque true (rounds 2)
  if ok = false then return ← abort_enable
  -- re-park after torque came on
  let p ← position_deg
  act (.write .TargetPosition p)
  set_control (kOperatingMode ||| kDriveOn ||| kDriveStart)
  let ok ← wait_for "drive to follow command values" following true (rounds 3)
  if ok = false then return ← abort_enable
  return true

def move_to (cfg : IndraDriveConfig) (position velocity_rpm : ℚ) : Drive Bool := do
  let enabled : Bool ← act .load_enabled
  let fault : Bool ← if enabled then act .load_fault else return ← not_enabled
  if fault then return ← not_enabled
  if position < cfg.min_position ∨ position > cfg.max_position then
    return ← fail (.position_outside position)
  if ¬(velocity_rpm > 0) ∨ velocity_rpm > cfg.max_velocity_rpm then
    return ← fail (.velocity_outside velocity_rpm)
  -- Velocity first: if a cycle goes out between the two writes, the new
  -- target is never paired with a stale velocity.
  act (.write .PosVelocity velocity_rpm)
  act (.write .TargetPosition position)
  return true
where
  /-- the message of the refusal reads the fault again -/
  not_enabled : Drive Bool := do
    let fault : Bool ← act .load_fault
    if fault then
      let reason : String ← act .fault_reason
      return ← fail (.not_enabled (some reason))
    fail (.not_enabled none)

open indra_cw in
def halt : Drive Bool := do
  let enabled : Bool ← act .load_enabled
  if enabled then set_control (kOperatingMode ||| kDriveOn)
  return true

open indra_cw in
def disable (rounds : ℕ → ℕ) : Drive Bool := do
  let enabled : Bool ← act .load_enabled
  let online : Bool ← if enabled then act .load_online else pure false
  let ok ←
    if online then do
      -- Drive Halt: decelerate and hold
      set_control (kOperatingMode ||| kDriveOn)
      wait_for "standstill" standstill false (rounds 0)
    else pure true
  act (.store_enabled false)
  -- torque off
  set_control kOperatingMode
  let online : Bool ← act .load_online
  if online then
    let stopped ← wait_for "torque off" without_torque false (rounds 1)
    return stopped && ok
  return ok

def shutdown : Drive Bool := do
  act (.store_enabled false)
  set_control 0
  return true

end IndraDrive

/-! ## `MGateDriver`, seen from the command thread -/

/-- `wait_for_data` with `rounds` polls before the deadline. -/
def wait_for_data : ℕ → Drive Bool
  | 0 => act .load_have_data
  | rounds + 1 => do
      let data : Bool ← act .load_have_data
      if data then return true
      let running : Bool ← act .load_running
      if running = false then return false
      wait_for_data rounds

/-- `MGateDriver::stop()` -/
def driver_stop : Drive Unit := do
  let running : Bool ← act .clear_running
  if running then
    act .join
    act .disconnect
    act .store_online_false

/-! ## `IndraDriveActuator` -/

namespace IndraDriveActuator

structure Config where
  drive : IndraDriveConfig := {}
  hold_velocity_rpm_ : ℚ := 10
  poll_interval_ms_ : ℕ := 50

def stop_and_fail : Drive Bool := do
  driver_stop
  return false

/-- `start()`. `rounds 4` polls wait for the first data, the others are those of
`enable()`. -/
def start (cfg : Config) (rounds : ℕ → ℕ) : Drive Bool := do
  -- enable() parks the target on the current position
  act (.store_has_target false)
  act .driver_start
  let data ← wait_for_data (rounds 4)
  if data = false then return ← stop_and_fail
  let first_stats : DriverStats ← act .stats
  let second_stats : DriverStats ← act .stats
  if second_stats.cycles ≤ first_stats.cycles then return ← stop_and_fail
  if second_stats.read_errors > first_stats.read_errors ∨
      second_stats.write_errors > first_stats.write_errors then return ← stop_and_fail
  if second_stats.last_error ≠ "" then return ← stop_and_fail
  if second_stats.last_cycle_us ≥ cfg.poll_interval_ms_ * 1000 then return ← stop_and_fail
  let live ← IndraDrive.slave_live cfg.drive
  if live = false then return ← stop_and_fail
  let enabled ← IndraDrive.enable cfg.drive rounds
  if enabled = false then return ← stop_and_fail
  return true

def halt (cfg : Config) : Drive Bool := do
  let fault : Bool ← act .load_fault
  if fault then return true
  let has : Bool ← act .load_has_target
  let target : ℚ ← if has then act .load_last_target else IndraDrive.position_deg
  IndraDrive.move_to cfg.drive (max cfg.drive.min_position (min target cfg.drive.max_position))
    cfg.hold_velocity_rpm_

def stop (rounds : ℕ → ℕ) : Drive Bool := do
  act (.store_has_target false)
  let _ ← IndraDrive.disable rounds
  driver_stop
  return true

/-- The drive's feedrate for a setpoint's speed limit. -/
def feedrate (velocity : ℚ) : ℚ := max (1 / 10) (|velocity| / 6)

def write_setpoint (cfg : Config) (position velocity : ℚ) : Drive Bool := do
  let ok ← IndraDrive.move_to cfg.drive position (feedrate velocity)
  if ok = false then return false
  act (.store_last_target position)
  act (.store_has_target true)
  return true

end IndraDriveActuator

/-! ## What the waits perform -/

/-- It reads, or it stores why a command has failed. -/
def passive : Op → Bool
  | .load_enabled | .load_fault | .load_abort | .load_online | .load_running | .load_have_data => true
  | .fault_reason | .status_snapshot | .stats | .load_has_target | .load_last_target => true
  | .read_int _ | .read _ | .read_output_int _ => true
  | .set_last_error _ => true
  | _ => false

/-- A program that leaves the drive alone. -/
abbrev Passive {α : Type} (p : Drive α) : Prop := p.All (passive · = true)

section Passive

open IndraDrive Atomic.Prog

theorem passive_act {o : Op} (h : passive o = true) : Passive (act o) := all_lift h

theorem passive_fail (why : DriveError) : Passive (fail why) :=
  all_bind (passive_act rfl) fun _ => all_pure _ _

theorem passive_status_word : Passive status_word :=
  all_bind (passive_act rfl) fun _ => all_pure _ _

theorem passive_slave_live (cfg : IndraDriveConfig) : Passive (slave_live cfg) := by
  refine all_bind (passive_act rfl) fun online => all_ite (all_pure _ _) ?_
  exact all_bind (passive_act rfl) fun st => all_pure _ _

theorem passive_wait_round (what : String) (pred : UInt16 → Bool) (stoppable : Bool)
    {again : UInt16 → Drive Bool} (h : ∀ sw, Passive (again sw)) :
    Passive (wait_round what pred stoppable again) := by
  have hrest : Passive (do
      let online : Bool ← act .load_online
      if online = false then return ← fail (.offline_while_waiting what)
      let sw ← status_word
      if pred sw then return true
      again sw) := by
    refine all_bind (passive_act rfl) fun online => all_ite (passive_fail _) ?_
    refine all_bind passive_status_word fun sw => all_ite (all_pure _ _) (h sw)
  refine all_ite ?_ hrest
  refine all_bind (passive_act rfl) fun abort => all_ite (passive_fail _) ?_
  refine all_bind (passive_act rfl) fun fault => all_ite ?_ hrest
  exact all_bind (passive_act rfl) fun reason => passive_fail _

theorem passive_wait_for (what : String) (pred : UInt16 → Bool) (stoppable : Bool) (rounds : ℕ) :
    Passive (wait_for what pred stoppable rounds) := by
  induction rounds with
  | zero => exact passive_wait_round _ _ _ fun _ => passive_fail _
  | succ rounds ih => exact passive_wait_round _ _ _ fun _ => ih

theorem passive_wait_for_data (rounds : ℕ) : Passive (wait_for_data rounds) := by
  induction rounds with
  | zero => exact passive_act rfl
  | succ rounds ih =>
      refine all_bind (passive_act rfl) fun data => all_ite (all_pure _ _) ?_
      exact all_bind (passive_act rfl) fun running => all_ite (all_pure _ _) ih

theorem passive_not_enabled : Passive move_to.not_enabled := by
  refine all_bind (passive_act rfl) fun fault => all_ite ?_ (passive_fail _)
  exact all_bind (passive_act rfl) fun _ => passive_fail _

end Passive

/-! ## What the commands perform -/

/-- It is passive, or it writes the control word or `enabled_`. -/
def steering : Op → Bool
  | .set_control _ | .store_enabled _ => true
  | o => passive o

/-- A program that moves no command value. -/
abbrev Steering {α : Type} (p : Drive α) : Prop := p.All (steering · = true)

theorem Passive.steering {α : Type} {p : Drive α} (h : Passive p) : Steering p :=
  h.mono fun o ho => by cases o <;> first
    | rfl
    | cases ho

section Steering

open IndraDrive Atomic.Prog

theorem steering_act {o : Op} (h : steering o = true) : Steering (act o) := all_lift h

theorem steering_wait_for (what : String) (pred : UInt16 → Bool) (stoppable : Bool) (rounds : ℕ) :
    Steering (wait_for what pred stoppable rounds) :=
  (passive_wait_for what pred stoppable rounds).steering

theorem steering_disable (rounds : ℕ → ℕ) : Steering (disable rounds) := by
  refine all_bind (steering_act rfl) fun enabled => ?_
  -- the two conditionals meet again: both sides run on into the same rest
  refine all_ite (all_bind (steering_act rfl) fun online => ?_)
    (all_bind (all_pure _ _) fun online => ?_)
  all_goals
    refine all_ite (all_bind (steering_act rfl) fun _ =>
      all_bind (steering_wait_for _ _ _ _) fun ok => ?_) (all_bind (all_pure _ _) fun ok => ?_)
  all_goals
    refine all_bind (steering_act rfl) fun _ => all_bind (steering_act rfl) fun _ =>
      all_bind (steering_act rfl) fun online => all_ite ?_ (all_pure _ _)
    exact all_bind (steering_wait_for _ _ _ _) fun stopped => all_pure _ _

theorem steering_clear_errors (rounds : ℕ) : Steering (clear_errors rounds) := by
  refine all_bind (steering_act rfl) fun cw => all_bind (steering_act rfl) fun _ => ?_
  refine all_bind (steering_wait_for _ _ _ _) fun ok => ?_
  exact all_bind (steering_act rfl) fun _ => all_pure _ _

theorem steering_halt : Steering halt := by
  refine all_bind (steering_act rfl) fun enabled => all_ite ?_ (all_pure _ _)
  exact all_bind (steering_act rfl) fun _ => all_pure _ _

theorem steering_shutdown : Steering shutdown :=
  all_bind (steering_act rfl) fun _ => all_bind (steering_act rfl) fun _ => all_pure _ _

end Steering

/-- It is not about the driver's thread, and not about the actuator's memory. -/
def of_drive : Op → Bool
  | .driver_start | .clear_running | .join | .disconnect | .store_online_false => false
  | .store_has_target _ | .store_last_target _ => false
  | _ => true

/-- A program of the drive alone. -/
abbrev OfDrive {α : Type} (p : Drive α) : Prop := p.All (of_drive · = true)

theorem Steering.ofDrive {α : Type} {p : Drive α} (h : Steering p) : OfDrive p :=
  h.mono fun o ho => by cases o <;> first
    | rfl
    | cases ho

theorem of_drive_passive {o : Op} (ho : passive o = true) : of_drive o = true := by
  cases o <;> first
    | rfl
    | cases ho

theorem Passive.ofDrive {α : Type} {p : Drive α} (h : Passive p) : OfDrive p := h.steering.ofDrive

section OfDrive

open IndraDrive Atomic.Prog

theorem ofDrive_act {o : Op} (h : of_drive o = true) : OfDrive (act o) := all_lift h

theorem ofDrive_fail (why : DriveError) : OfDrive (fail why) := (passive_fail why).ofDrive

theorem ofDrive_wait_for (what : String) (pred : UInt16 → Bool) (stoppable : Bool) (rounds : ℕ) :
    OfDrive (wait_for what pred stoppable rounds) :=
  (passive_wait_for what pred stoppable rounds).ofDrive

theorem ofDrive_abort_enable : OfDrive abort_enable :=
  all_bind (ofDrive_act rfl) fun _ => all_bind (ofDrive_act rfl) fun _ => all_pure _ _

theorem ofDrive_enable (cfg : IndraDriveConfig) (rounds : ℕ → ℕ) : OfDrive (enable cfg rounds) := by
  refine all_bind (ofDrive_act rfl) fun _ => all_bind (ofDrive_act rfl) fun online =>
    all_ite (ofDrive_fail _) ?_
  refine all_bind (passive_slave_live cfg).ofDrive fun live => all_ite (ofDrive_fail _) ?_
  refine all_bind (ofDrive_act rfl) fun _ => all_bind (ofDrive_act rfl) fun _ =>
    all_bind passive_status_word.ofDrive fun sw => all_ite (ofDrive_fail _) ?_
  refine all_bind (ofDrive_act rfl) fun _ => all_bind (ofDrive_act rfl) fun _ =>
    all_bind (ofDrive_act rfl) fun _ => all_bind (ofDrive_act rfl) fun _ =>
    all_bind (ofDrive_act rfl) fun _ => ?_
  refine all_bind (ofDrive_wait_for _ _ _ _) fun ok => all_ite ofDrive_abort_enable ?_
  refine all_bind (ofDrive_wait_for _ _ _ _) fun ok => all_ite ofDrive_abort_enable ?_
  refine all_bind (ofDrive_act rfl) fun _ => all_bind (ofDrive_act rfl) fun _ => ?_
  refine all_bind (ofDrive_wait_for _ _ _ _) fun ok => all_ite ofDrive_abort_enable ?_
  refine all_bind (ofDrive_act rfl) fun _ => all_bind (ofDrive_act rfl) fun _ =>
    all_bind (ofDrive_act rfl) fun _ => ?_
  refine all_bind (ofDrive_wait_for _ _ _ _) fun ok => all_ite ofDrive_abort_enable ?_
  exact all_pure _ _

theorem all_move_to {H : Op → Prop} (hpassive : ∀ o, passive o = true → H o)
    (hwrite : ∀ c v, H (.write c v)) (cfg : IndraDriveConfig) (position velocity_rpm : ℚ) :
    (move_to cfg position velocity_rpm).All H := by
  have hact : ∀ o, passive o = true → (act o).All H := fun o ho => all_lift (hpassive o ho)
  have hnot : move_to.not_enabled.All H := passive_not_enabled.mono hpassive
  have hfail : ∀ why, (fail why).All H := fun why => (passive_fail why).mono hpassive
  refine all_bind (hact _ rfl) fun enabled => ?_
  refine all_ite (all_bind (hact _ rfl) fun fault => ?_) hnot
  refine all_ite hnot (all_ite (hfail _) (all_ite (hfail _) ?_))
  exact all_bind (all_lift (hwrite _ _)) fun _ => all_bind (all_lift (hwrite _ _)) fun _ =>
    all_pure _ _

theorem ofDrive_move_to (cfg : IndraDriveConfig) (position velocity_rpm : ℚ) :
    OfDrive (move_to cfg position velocity_rpm) :=
  all_move_to (fun _ => of_drive_passive) (fun _ _ => rfl) cfg position velocity_rpm

theorem all_actuator_halt {H : Op → Prop} (hpassive : ∀ o, passive o = true → H o)
    (hwrite : ∀ c v, H (.write c v)) (cfg : IndraDriveActuator.Config) :
    (IndraDriveActuator.halt cfg).All H := by
  have hact : ∀ o, passive o = true → (act o).All H := fun o ho => all_lift (hpassive o ho)
  refine all_bind (hact _ rfl) fun fault => all_ite (all_pure _ _) ?_
  refine all_bind (hact _ rfl) fun has => all_ite ?_ ?_
  · exact all_bind (hact _ rfl) fun p => all_move_to hpassive hwrite _ _ _
  · exact all_bind (hact _ rfl) fun p => all_move_to hpassive hwrite _ _ _

theorem all_driver_stop {H : Op → Prop} (h₁ : H .clear_running) (h₂ : H .join)
    (h₃ : H .disconnect) (h₄ : H .store_online_false) : driver_stop.All H := by
  refine all_bind (all_lift h₁) fun running => all_ite ?_ (all_pure _ _)
  exact all_bind (all_lift h₂) fun _ => all_bind (all_lift h₃) fun _ => all_lift h₄

end OfDrive

end Mgate
