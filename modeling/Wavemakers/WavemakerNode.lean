/-
`wavemaker_node.cpp`: the controller node with its threads.

Five threads of control share the node's state: the action callback group
(`goal_callback`, `handle_accepted_callback` and cancels, one at a time), the
`return_to_upright` service, the worker that plays a goal or a return, the
lifecycle thread (transitions and fault-timer ticks, one at a time) and the
actuator's poll thread where it reports a fault. Each is a program point; a
transition of the system is one step of one of them, where a step is a section
under `goal_mutex_` or `fault_mutex_`, an atomic load or store, a call on a goal
handle or into the actuator, or a step of locking, joining and spawning.
`execution_mutex_` is held by whoever stands between its lock and its unlock.

The action library is modelled by its goal state machine: a call that is not
valid in the goal's state raises an exception, and a goal whose last handle is
dropped while it is active ends up canceled (`reap`). The numeric side of a goal
(validation, the two trajectory classes) is a parameter, `Plant`; so is what the
actuator answers. Log output is left out, as are the bond's own callbacks and
the stop on a shutdown of the whole process.

Three fields are not in the source. `stopped` holds from the return of
`stop_activity` to the next activation, `fresh` when the actuator of this
configuration has reported a fault that no tick has taken, and a goal's record
keeps the plan `prepare_goal` computed for it.
-/
import Wavemakers.Interleave
import Mathlib.Algebra.Order.Ring.Rat
import Mathlib.Logic.Function.Basic

set_option autoImplicit false

namespace WavemakerNode

/-! ## The action library -/

inductive GoalStatus where
  | accepted | executing | canceling | succeeded | canceled | aborted
  deriving DecidableEq, Repr

/-- `is_active()` -/
def GoalStatus.is_active : GoalStatus → Bool
  | .accepted | .executing | .canceling => true
  | _ => false

inductive GoalEvent where
  | execute | cancel_goal | succeed | abort | canceled
  deriving DecidableEq, Repr

/-- The goal state machine; `none` where the library raises an exception. -/
def GoalStatus.next : GoalStatus → GoalEvent → Option GoalStatus
  | .accepted, .execute => some .executing
  | .accepted, .cancel_goal => some .canceling
  | .executing, .cancel_goal => some .canceling
  | .executing, .succeed => some .succeeded
  | .canceling, .succeed => some .succeeded
  | .executing, .abort => some .aborted
  | .canceling, .abort => some .aborted
  | .canceling, .canceled => some .canceled
  | _, _ => none

/-! ## What the node is built on -/

/-- The configuration, the goals and the two trajectory classes. -/
structure Plant where
  Config : Type
  Goal : Type
  Wave : Type
  Pregenerated : Type
  /-- the checks of `on_configure` -/
  valid : Config → Bool
  wavemaker_mode_pregenerated : Config → Bool
  soft_stop_timeout_ns : Config → ℤ
  return_default_tolerance_m : Config → ℚ
  /-- the start position is inside the limits, up to the tolerance -/
  start_inside : Config → ℚ → Bool
  /-- the checks in front of `configure`, and the configured trajectory -/
  configure_pregenerated : Config → ℚ → Goal → Option Pregenerated
  configure_wave : Config → ℚ → Goal → Option Wave
  /-- the checks behind `configure`, and the cap `accept_peak_velocity` stores -/
  accept_pregenerated : Config → Pregenerated → Option ℚ
  accept_wave : Config → Wave → Option ℚ
  sample_pregenerated : Pregenerated → ℚ → ℚ × ℚ × Bool
  sample_wave : Wave → ℚ → ℚ × ℚ
  /-- what the action library's exception says -/
  event_error : GoalEvent → String

/-- What a worker plays: the trajectory it samples and its speed cap. -/
structure Plan (P : Plant) where
  trajectory : P.Wave ⊕ P.Pregenerated
  cap : ℚ

structure GoalRecord (P : Plant) where
  status : GoalStatus
  plan : Plan P
  /-- of the result, once there is one -/
  message : String := ""

def GoalRecord.enter {P : Plant} (x : GoalRecord P) (st : GoalStatus) (message : String) :
    GoalRecord P :=
  { x with status := st, message := message }

/-! ## Program points -/

/-- `start_execution` -/
inductive Start where
  | lock
  /-- `stop_execution_.store(true)` -/
  | store
  | join
  /-- the check of `accepting_goals_` -/
  | check
  /-- `stop_execution_.store(false)` -/
  | clear
  | spawn
  | unlock (started : Bool)
  deriving DecidableEq, Repr

/-- The action callback group. -/
inductive Act where
  | idle
  /-- `goal_callback` has accepted; `handle_accepted_callback` is due -/
  | handle (g : ℕ)
  | start (g : ℕ) (p : Start)
  /-- `start_execution` returned false -/
  | refused (g : ℕ)
  | abort (g : ℕ)
  deriving DecidableEq, Repr

inductive ReturnStatus where
  | Success | Timeout | Fault | PositionInvalid | Stopped
  deriving DecidableEq, Repr

inductive ReplyStatus where
  | SUCCESS | TIMEOUT | POSITION_INVALID | ACTUATOR_FAULT | CONTROLLER_INACTIVE | BUSY
  | ACTUATOR_NOT_READY
  deriving DecidableEq, Repr

structure Reply where
  status : ReplyStatus
  message : String
  deriving DecidableEq, Repr

/-- The `return_to_upright` service. -/
inductive Ret where
  | idle
  | start (id : ℕ) (p : Start)
  | refused (id : ℕ)
  | respond (id : ℕ) (reply : Reply)
  deriving DecidableEq, Repr

/-- The exits of `execute_goal` that halt, release the goal and then end it. -/
inductive Exit where
  | canceled | soft_stop | stopped
  /-- `release_goal` after an exception; `none` is not a `std::exception` -/
  | failed (what : Option String)
  deriving DecidableEq, Repr

/-- The message of the result. -/
def Exit.message : Exit → String
  | .canceled => "Goal canceled; actuator halted and remains enabled"
  | .soft_stop => "Soft stop engaged; actuator halted and remains enabled"
  | .stopped => "Goal stopped"
  | .failed (some what) => "Goal execution failed: " ++ what
  | .failed none => "Goal execution failed with an unknown exception"

/-- `execute_goal` -/
inductive GoalPc where
  | execute
  | loop
  | canceling
  | soft_stop
  | sample
  | write (x v : ℚ) (complete : Bool)
  | feedback (complete : Bool)
  | sleep
  | halt (e : Exit)
  /-- the section that gives up `goal_handle_` -/
  | release (e : Exit)
  | finish (e : Exit)
  /-- a setpoint was rejected -/
  | fail_release (message : String)
  | fail_reason (message : String)
  | fail_store (message : String)
  | fail_stop (message : String)
  | fail_abort (message : String)
  /-- the trajectory is complete -/
  | succeed_halt
  | succeed
  | succeed_release
  deriving DecidableEq, Repr

/-- `move_to_upright` and the reply -/
inductive ReturnPc where
  | begin
  | loop
  | soft_stop
  | faulted
  | write
  | progress
  | sleep
  | halt (status : ReturnStatus)
  | release (status : ReturnStatus)
  | respond (status : ReturnStatus)
  deriving DecidableEq, Repr

inductive Worker where
  | goal (g : ℕ) (pc : GoalPc)
  | return_to_upright (id : ℕ) (pc : ReturnPc)
  /-- ended, not joined -/
  | finished
  deriving DecidableEq, Repr

/-- `stop_activity` -/
inductive Stop where
  | accepting
  /-- `abort_active_goal`: the section and the call -/
  | release
  | abort (g : Option ℕ)
  /-- `stop_execution` -/
  | lock
  | store
  | join
  | unlock
  | actuator
  | bond
  deriving DecidableEq, Repr

/-- Who called `stop_activity`. -/
inductive Why where
  | deactivate (tick : Bool)
  | cleanup | shutdown | error | configure
  deriving DecidableEq, Repr

/-- The lifecycle thread. -/
inductive Lc where
  | idle
  /-- `on_configure` in front of the actuator factory -/
  | factory
  /-- `on_activate` -/
  | start
  | bond
  | bond_failed
  | accept
  /-- `process_driver_fault` behind the exchange of `fault_pending_` -/
  | tick_reason
  | tick_accepting
  | tick_state
  | tick_release
  | tick_abort (g : Option ℕ)
  | tick_flag
  | stop (why : Why) (p : Stop)
  /-- behind `stop_activity` -/
  | after (why : Why)
  deriving DecidableEq, Repr

inductive Primary where
  | unconfigured | inactive | active | finalized
  deriving DecidableEq, Repr

/-! ## The state -/

structure State (P : Plant) where
  cfg : P.Config
  trajectory_ : P.Wave
  pregenerated_ : P.Pregenerated
  goal_velocity_cap_mps_ : ℚ
  accepting_goals_ : Bool
  goal_pending_ : Bool
  returning_to_upright_ : Bool
  goal_handle_ : Option ℕ
  stop_execution_ : Bool
  soft_stopped_ : Bool
  soft_stop_last_msg_ns_ : ℤ
  now : ℤ
  /-- `rclcpp::ok()` -/
  ok : Bool
  fault_pending_ : Bool
  fault_transition_pending_ : Bool
  pending_fault_reason_ : String
  primary : Primary
  /-- the servers, the fault timer and the actuator exist -/
  configured : Bool
  /-- the number of actuators created so far -/
  epoch : ℕ
  /-- the actuator's poll thread runs -/
  polling : Bool
  goals : ℕ → Option (GoalRecord P)
  /-- the last setpoint handed to the drive -/
  setpoint : Option (ℚ × ℚ)
  replies : List (ℕ × Reply)
  act : Act
  ret : Ret
  worker : Option Worker
  lc : Lc
  /-- a fault callback behind its section, with the actuator it belongs to -/
  reporter : Option ℕ
  stopped : Bool
  fresh : Bool

variable {P : Plant}

namespace State

def soft_stop_active (s : State P) : Bool :=
  s.soft_stopped_ || decide (P.soft_stop_timeout_ns s.cfg < s.now - s.soft_stop_last_msg_ns_)

def status (s : State P) (g : ℕ) : Option GoalStatus := (s.goals g).map (·.status)

def is_active (s : State P) (g : ℕ) : Bool := (s.status g).any GoalStatus.is_active

def set_status (s : State P) (g : ℕ) (st : GoalStatus) (message : String) : State P :=
  { s with goals := Function.update s.goals g ((s.goals g).map (·.enter st message)) }

/-- A call on the goal handle; `none` when it raises an exception. -/
def goal_call (s : State P) (g : ℕ) (e : GoalEvent) (message : String) : Option (State P) :=
  ((s.status g).bind (·.next e)).map (s.set_status g · message)

/-- `abort_goal`: exceptions are caught. -/
def abort_goal (s : State P) (g : ℕ) (message : String) : State P :=
  if s.is_active g then (s.goal_call g .abort message).getD s else s

/-- `abort_active_goal` behind its section. -/
def abort_goal? (s : State P) : Option ℕ → State P
  | none => s
  | some g => s.abort_goal g "Goal aborted by lifecycle transition"

/-- The section in which a worker gives up its goal. -/
def release_handle (s : State P) (g : ℕ) : State P :=
  if s.goal_handle_ = some g then { s with goal_handle_ := none, goal_pending_ := false } else s

/-- The plan `sample_goal` and the speed cap read. -/
def current_plan (s : State P) : Plan P where
  trajectory :=
    if P.wavemaker_mode_pregenerated s.cfg then .inr s.pregenerated_ else .inl s.trajectory_
  cap := s.goal_velocity_cap_mps_

end State

/-! ## Goals -/

/-- `prepare_goal`: it configures the trajectory before it decides. -/
def prepare_goal (s : State P) (goal : P.Goal) (start : Option ℚ) : State P × Bool :=
  match start with
  | none => (s, false)
  | some x =>
      if P.start_inside s.cfg x = false then (s, false)
      else if P.wavemaker_mode_pregenerated s.cfg then
        match P.configure_pregenerated s.cfg x goal with
        | none => (s, false)
        | some pre =>
            match P.accept_pregenerated s.cfg pre with
            | none => ({ s with pregenerated_ := pre }, false)
            | some cap => ({ s with pregenerated_ := pre, goal_velocity_cap_mps_ := cap }, true)
      else
        match P.configure_wave s.cfg x goal with
        | none => (s, false)
        | some wave =>
            match P.accept_wave s.cfg wave with
            | none => ({ s with trajectory_ := wave }, false)
            | some cap => ({ s with trajectory_ := wave, goal_velocity_cap_mps_ := cap }, true)

structure GoalRequest (P : Plant) where
  id : ℕ
  goal : P.Goal
  /-- what the actuator answers; `none` is a position that is not finite -/
  start : Option ℚ
  faulted : Bool := false
  live : Bool := true

/-- The checks of `goal_callback` that read the node's own state. -/
def admits (s : State P) : Bool :=
  s.accepting_goals_ && !s.soft_stop_active &&
    !(s.goal_pending_ || s.returning_to_upright_ || s.goal_handle_.any s.is_active)

/-- `goal_callback`, whole under `goal_mutex_`. -/
def goal_callback (s : State P) (r : GoalRequest P) : State P :=
  if admits s && !r.faulted && r.live then
    match prepare_goal s r.goal r.start with
    | (t, false) => t
    | (t, true) =>
        { t with goal_pending_ := true
                 goals := Function.update t.goals r.id (some { status := .accepted, plan := t.current_plan })
                 act := .handle r.id }
  else s

/-- `sample_goal` -/
def sample_goal (s : State P) (elapsed : ℚ) : ℚ × ℚ × Bool :=
  if P.wavemaker_mode_pregenerated s.cfg then P.sample_pregenerated s.pregenerated_ elapsed
  else
    let (x, v) := P.sample_wave s.trajectory_ elapsed
    (x, v, false)

/-! ## Returns -/

structure ReturnRequest where
  id : ℕ
  /-- `none` is a tolerance that is not finite -/
  tolerance : Option ℚ
  faulted : Bool := false
  fault_reason : String := ""
  live : Bool := true

/-- The checks of the service handler; `none` when it claims the controller. -/
def return_check (s : State P) (r : ReturnRequest) : Option Reply :=
  let tolerance := r.tolerance.map fun x =>
    if x = 0 then P.return_default_tolerance_m s.cfg else x
  if s.accepting_goals_ = false then
    some ⟨.CONTROLLER_INACTIVE, "Controller not active or not accepting goals"⟩
  else if s.soft_stop_active then some ⟨.CONTROLLER_INACTIVE, "Controller soft stopped"⟩
  else if tolerance.all (· < 0) then some ⟨.POSITION_INVALID, "invalid tolerance"⟩
  else if s.goal_pending_ || s.returning_to_upright_ || s.goal_handle_.isSome then
    some ⟨.BUSY, "Controller is busy"⟩
  else if r.faulted then some ⟨.ACTUATOR_FAULT, r.fault_reason⟩
  else if r.live = false then some ⟨.ACTUATOR_NOT_READY, "Actuator not ready"⟩
  else none

def return_reply (status : ReturnStatus) (fault_reason : String) : Reply :=
  match status with
  | .Success => ⟨.SUCCESS, "At upright"⟩
  | .Timeout => ⟨.TIMEOUT, "Timed out before reaching upright"⟩
  | .PositionInvalid => ⟨.POSITION_INVALID, "Current position is invalid"⟩
  | .Fault => ⟨.ACTUATOR_FAULT, fault_reason⟩
  | .Stopped => ⟨.CONTROLLER_INACTIVE, "Interrupted by lifecycle transition"⟩

/-! ## `execution_mutex_` and the worker thread -/

/-- Between the lock and the unlock. -/
def Start.locked : Start → Bool
  | .lock => false
  | _ => true

def Act.locked : Act → Bool
  | .start _ p => p.locked
  | _ => false

def Ret.locked : Ret → Bool
  | .start _ p => p.locked
  | _ => false

def Lc.locked : Lc → Bool
  | .stop _ .store | .stop _ .join | .stop _ .unlock => true
  | _ => false

/-- `execution_mutex_` is taken. -/
def State.held (s : State P) : Bool := s.act.locked || s.ret.locked || s.lc.locked

/-- `execution_thread_.join()`: waits for the worker to end. -/
def State.join (s : State P) : Option (State P) :=
  match s.worker with
  | none | some .finished => some { s with worker := none }
  | some _ => none

/-- `start_execution` up to its unlock. -/
def start_step (s : State P) (work : Worker) : Start → Option (State P × Start)
  | .lock => if s.held then none else some (s, .store)
  | .store => some ({ s with stop_execution_ := true }, .join)
  | .join => s.join.map fun t => (t, .check)
  | .check => some (s, if s.accepting_goals_ then .clear else .unlock false)
  | .clear => some ({ s with stop_execution_ := false }, .spawn)
  | .spawn => some ({ s with worker := some work }, .unlock true)
  | .unlock _ => none

/-! ## The action callback group -/

/-- The section of `handle_accepted_callback`. -/
def handle_accepted (s : State P) (g : ℕ) : State P :=
  if s.accepting_goals_ then
    { s with goal_handle_ := some g, goal_pending_ := false, act := .start g .lock }
  else { s with goal_pending_ := false, act := .abort g }

def act_step (s : State P) : Option (State P) :=
  match s.act with
  | .idle => none
  | .handle g => some (handle_accepted s g)
  | .start _ (.unlock true) => some { s with act := .idle }
  | .start g (.unlock false) => some { s with act := .refused g }
  | .start g p =>
      (start_step s (.goal g .execute) p).map fun x => { x.1 with act := .start g x.2 }
  | .refused g =>
      some { s with goal_handle_ := if s.goal_handle_ = some g then none else s.goal_handle_
                    act := .abort g }
  | .abort g =>
      some { s.abort_goal g "Goal rejected because the node is no longer active" with act := .idle }

/-! ## The return service -/

def return_request (s : State P) (r : ReturnRequest) : State P :=
  match return_check s r with
  | none => { s with returning_to_upright_ := true, ret := .start r.id .lock }
  | some reply => { s with ret := .respond r.id reply }

def ret_step (s : State P) : Option (State P) :=
  match s.ret with
  | .idle => none
  | .start _ (.unlock true) => some { s with ret := .idle }
  | .start id (.unlock false) => some { s with ret := .refused id }
  | .start id p =>
      (start_step s (.return_to_upright id .begin) p).map fun x =>
        { x.1 with ret := .start id x.2 }
  | .refused id =>
      some { s with returning_to_upright_ := false
                    ret := .respond id ⟨.CONTROLLER_INACTIVE,
                      "Controller not active or not accepting goals"⟩ }
  | .respond id reply => some { s with replies := s.replies ++ [(id, reply)], ret := .idle }

/-! ## The worker -/

/-- Where a return starts from. -/
inductive ReturnStart where
  | invalid | at_upright | away
  deriving DecidableEq, Repr

inductive ReturnProgress where
  | reached | late | moving
  deriving DecidableEq, Repr

/-- The environment's part in a step of the worker. -/
inductive WorkerInput where
  | proceed
  /-- the call of this step raises an exception -/
  | throws (what : Option String)
  | elapsed (t : ℚ)
  | wrote (ok : Bool) (fault_reason : String)
  | from_position (r : ReturnStart)
  | faulted (b : Bool)
  | progress (r : ReturnProgress)
  | fault_reason (r : String)

/-- The section of `handle_driver_fault`. -/
def report_reason (s : State P) (reason : String) : State P :=
  { s with pending_fault_reason_ := if s.fault_pending_ then s.pending_fault_reason_ else reason }

/-- `actuator_->stop()`: joins the poll thread. -/
def stop_actuator (s : State P) : Option (State P) :=
  match s.reporter with
  | none => some { s with polling := false }
  | some _ => none

def State.at_goal (s : State P) (g : ℕ) (pc : GoalPc) : State P :=
  { s with worker := some (.goal g pc) }

def State.at_return (s : State P) (id : ℕ) (pc : ReturnPc) : State P :=
  { s with worker := some (.return_to_upright id pc) }

def State.end_worker (s : State P) : State P := { s with worker := some .finished }

/-- A call into the actuator or the library between two points of the worker. -/
def calls (i : WorkerInput) (next : State P) (raised : Option String → State P) :
    Option (State P) :=
  match i with
  | .proceed => some next
  | .throws what => some (raised what)
  | _ => none

def goal_step (s : State P) (g : ℕ) (i : WorkerInput) : GoalPc → Option (State P)
  | .execute =>
      match s.goal_call g .execute "" with
      | some t => some (t.at_goal g .loop)
      | none => some (s.at_goal g (.halt (.failed (P.event_error .execute))))
  | .loop => some (s.at_goal g (if s.ok && !s.stop_execution_ then .canceling else .halt .stopped))
  | .canceling =>
      some (s.at_goal g (if s.status g = some .canceling then .halt .canceled else .soft_stop))
  | .soft_stop => some (s.at_goal g (if s.soft_stop_active then .halt .soft_stop else .sample))
  | .sample =>
      match i with
      | .elapsed t =>
          let (x, v, complete) := sample_goal s t
          some (s.at_goal g (.write x v complete))
      | _ => none
  | .write x _ complete =>
      match i with
      | .wrote true _ =>
          some { s.at_goal g (.feedback complete) with
            setpoint := some (x, s.goal_velocity_cap_mps_) }
      | .wrote false reason =>
          some (s.at_goal g (.fail_release
            (if reason = "" then "Actuator rejected setpoint"
             else "Actuator rejected setpoint: " ++ reason)))
      | .throws what => some (s.at_goal g (.halt (.failed what)))
      | _ => none
  | .feedback complete =>
      calls i (s.at_goal g (if complete then .succeed_halt else .sleep))
        fun what => s.at_goal g (.halt (.failed what))
  | .sleep => some (s.at_goal g .loop)
  -- `release_goal` catches what its own halt raises
  | .halt (.failed what) =>
      calls i (s.at_goal g (.release (.failed what))) fun _ => s.at_goal g (.release (.failed what))
  | .halt e => calls i (s.at_goal g (.release e)) fun what => s.at_goal g (.halt (.failed what))
  | .release e => some ((s.release_handle g).at_goal g (.finish e))
  | .finish .canceled =>
      match s.goal_call g .canceled Exit.canceled.message with
      | some t => some t.end_worker
      | none => some (s.at_goal g (.halt (.failed (P.event_error .canceled))))
  | .finish e => some (s.abort_goal g e.message).end_worker
  | .fail_release message =>
      some ({ s with accepting_goals_ := false }.release_handle g |>.at_goal g
        (.fail_reason message))
  | .fail_reason message => some ((report_reason s message).at_goal g (.fail_store message))
  | .fail_store message =>
      some ({ s with fault_pending_ := true, fresh := true }.at_goal g (.fail_stop message))
  | .fail_stop message =>
      match i with
      | .proceed => (stop_actuator s).map (·.at_goal g (.fail_abort message))
      | .throws what => some (s.at_goal g (.halt (.failed what)))
      | _ => none
  | .fail_abort message => some (s.abort_goal g message).end_worker
  | .succeed_halt =>
      calls i (s.at_goal g .succeed) fun what => s.at_goal g (.halt (.failed what))
  | .succeed =>
      match s.goal_call g .succeed "Pregenerated trajectory completed" with
      | some t => some (t.at_goal g .succeed_release)
      | none => some (s.at_goal g (.halt (.failed (P.event_error .succeed))))
  | .succeed_release => some (s.release_handle g).end_worker

def return_step (s : State P) (id : ℕ) (i : WorkerInput) : ReturnPc → Option (State P)
  | .begin =>
      match i with
      | .from_position .invalid => some (s.at_return id (.release .PositionInvalid))
      | .from_position .at_upright => some (s.at_return id (.halt .Success))
      | .from_position .away => some (s.at_return id .loop)
      | .throws _ => some (s.at_return id (.halt .Fault))
      | _ => none
  | .loop =>
      some (s.at_return id (if s.ok && !s.stop_execution_ then .soft_stop else .halt .Stopped))
  | .soft_stop => some (s.at_return id (if s.soft_stop_active then .halt .Stopped else .faulted))
  | .faulted =>
      match i with
      | .faulted b => some (s.at_return id (if b then .halt .Fault else .write))
      | .throws _ => some (s.at_return id (.halt .Fault))
      | _ => none
  | .write =>
      match i with
      | .wrote ok _ => some (s.at_return id (if ok then .progress else .halt .Fault))
      | .throws _ => some (s.at_return id (.halt .Fault))
      | _ => none
  | .progress =>
      match i with
      | .progress .reached => some (s.at_return id (.halt .Success))
      | .progress .late => some (s.at_return id (.halt .Timeout))
      | .progress .moving => some (s.at_return id .sleep)
      | .throws _ => some (s.at_return id (.halt .Fault))
      | _ => none
  | .sleep => some (s.at_return id .loop)
  -- an exception leaves the status at its initial value
  | .halt status =>
      calls i (s.at_return id (.release status)) fun _ => s.at_return id (.release .Fault)
  | .release status => some ({ s with returning_to_upright_ := false }.at_return id (.respond status))
  | .respond status =>
      match i with
      | .fault_reason reason =>
          some { s.end_worker with replies := s.replies ++ [(id, return_reply status reason)] }
      | .throws _ => some s.end_worker
      | _ => none

def worker_step (s : State P) (i : WorkerInput) : Option (State P) :=
  match s.worker with
  | some (.goal g pc) => goal_step s g i pc
  | some (.return_to_upright id pc) => return_step s id i pc
  | _ => none

/-! ## The lifecycle thread -/

inductive Transition (P : Plant) where
  | configure (cfg : P.Config)
  | activate | deactivate | cleanup | shutdown

inductive Factory where
  | created
  | throws
  /-- the return speed exceeds what the created actuator can do -/
  | too_slow
  deriving DecidableEq, Repr

/-- The environment's part in a step of the lifecycle thread. -/
inductive LcInput where
  | proceed
  | factory (r : Factory)
  | started (ok : Bool)
  | bond (ok : Bool)

def release_resources (s : State P) : State P := { s with configured := false }

/-- A transition is requested. -/
def begin_transition (s : State P) : Transition P → Option (State P)
  | .configure cfg =>
      if s.primary = .unconfigured then
        some { s with cfg := cfg, lc := if P.valid cfg then .factory else .idle }
      else none
  -- `actuator_->start()` begins with the poll thread
  | .activate =>
      if s.primary = .inactive then some { s with lc := .start, polling := true } else none
  | .deactivate =>
      if s.primary = .active then some { s with lc := .stop (.deactivate false) .accepting }
      else none
  | .cleanup =>
      if s.primary = .inactive then some { s with lc := .stop .cleanup .accepting } else none
  | .shutdown =>
      if s.primary = .finalized then none
      else some { s with lc := .stop .shutdown .accepting }

/-- A tick of the fault timer: `process_driver_fault` up to the exchange. -/
def begin_tick (s : State P) : State P :=
  if s.fault_pending_ then { s with fault_pending_ := false, fresh := false, lc := .tick_reason }
  else s

/-- The section of `abort_active_goal`. -/
def take_goal (s : State P) : State P := { s with goal_handle_ := none, goal_pending_ := false }

/-- `stop_activity` up to its return. -/
def stop_step (s : State P) (why : Why) : Stop → Option (State P)
  | .accepting => some { s with accepting_goals_ := false, lc := .stop why .release }
  | .release => some { take_goal s with lc := .stop why (.abort s.goal_handle_) }
  | .abort g => some { s.abort_goal? g with lc := .stop why .lock }
  | .lock => if s.held then none else some { s with lc := .stop why .store }
  | .store => some { s with stop_execution_ := true, lc := .stop why .join }
  | .join => s.join.map fun t => { t with lc := .stop why .unlock }
  | .unlock => some { s with lc := .stop why .actuator }
  | .actuator => (stop_actuator s).map fun t => { t with lc := .stop why .bond }
  | .bond => some { s with lc := .after why, stopped := true }

/-- What follows `stop_activity` in the transition that called it. -/
def after_stop (s : State P) : Why → State P
  | .deactivate _ =>
      if s.fault_transition_pending_ then
        -- ERROR: the library goes on to `on_error`
        { s with fault_transition_pending_ := false, primary := .unconfigured,
                 lc := .stop .error .accepting }
      else { s with primary := .inactive, lc := .idle }
  | .cleanup | .error | .configure =>
      { release_resources s with primary := .unconfigured, lc := .idle }
  | .shutdown => { release_resources s with primary := .finalized, lc := .idle }

def lc_step (s : State P) (i : LcInput) : Option (State P) :=
  match s.lc with
  | .idle => none
  | .factory =>
      match i with
      | .factory .created =>
          some { s with epoch := s.epoch + 1, fresh := false, configured := true,
                        soft_stopped_ := true, soft_stop_last_msg_ns_ := 0,
                        primary := .inactive, lc := .idle }
      | .factory .throws => some { s with lc := .stop .configure .accepting }
      | .factory .too_slow => some { release_resources s with lc := .idle }
      | _ => none
  | .start =>
      match i with
      | .started true => some { s with lc := .bond }
      | .started false => (stop_actuator s).map fun t => { t with lc := .idle }
      | _ => none
  | .bond =>
      match i with
      | .bond ok => some { s with lc := if ok then .accept else .bond_failed }
      | _ => none
  | .bond_failed => (stop_actuator s).map fun t => { t with lc := .idle }
  | .accept =>
      some { s with accepting_goals_ := true, stopped := false, primary := .active, lc := .idle }
  | .tick_reason => some { s with pending_fault_reason_ := "", lc := .tick_accepting }
  | .tick_accepting => some { s with accepting_goals_ := false, lc := .tick_state }
  | .tick_state => some { s with lc := if s.primary = .active then .tick_release else .idle }
  | .tick_release => some { take_goal s with lc := .tick_abort s.goal_handle_ }
  | .tick_abort g => some { s.abort_goal? g with lc := .tick_flag }
  | .tick_flag =>
      some { s with fault_transition_pending_ := true, lc := .stop (.deactivate true) .accepting }
  | .stop why p => stop_step s why p
  | .after why => some (after_stop s why)

/-! ## The system -/

def Act.holds (g : ℕ) : Act → Bool
  | .idle => false
  | .handle h | .start h _ | .refused h | .abort h => h == g

def Worker.holds (g : ℕ) : Worker → Bool
  | .goal h _ => h == g
  | _ => false

def Lc.holds (g : ℕ) : Lc → Bool
  | .tick_abort h | .stop _ (.abort h) => h == some g
  | _ => false

/-- Somebody holds the goal's handle. -/
def State.referenced (s : State P) (g : ℕ) : Bool :=
  s.goal_handle_ == some g || s.act.holds g || s.worker.any (·.holds g) || s.lc.holds g

/-- The destructor of a goal handle cancels an active goal. -/
def reap (s : State P) : State P :=
  { s with goals := fun g => (s.goals g).map fun x =>
      if x.status.is_active && !s.referenced g then { x with status := .canceled } else x }

inductive Event (P : Plant) where
  | goal_request (r : GoalRequest P)
  | cancel (g : ℕ)
  | act
  | return_request (r : ReturnRequest)
  | ret
  | worker (i : WorkerInput)
  | transition (t : Transition P)
  | tick
  | lc (i : LcInput)
  /-- the fault callback on the poll thread: its section, and the store behind it -/
  | fault (reason : String)
  | report
  | soft_stop (data : Bool)
  | clock (ns : ℕ)
  | context_shutdown

/-- One step of one thread, before dropped handles are dealt with. -/
def raw_step (s : State P) : Event P → Option (State P)
  | .goal_request r =>
      if s.act = .idle ∧ s.configured ∧ (s.goals r.id).isNone then some (goal_callback s r)
      else none
  | .cancel g => if s.act = .idle ∧ s.configured then s.goal_call g .cancel_goal "" else none
  | .act => act_step s
  | .return_request r =>
      if s.ret = .idle ∧ s.configured then some (return_request s r) else none
  | .ret => ret_step s
  | .worker i => worker_step s i
  | .transition t => if s.lc = .idle then begin_transition s t else none
  | .tick => if s.lc = .idle ∧ s.configured then some (begin_tick s) else none
  | .lc i => lc_step s i
  | .fault reason =>
      if s.polling ∧ s.reporter = none then
        some { report_reason s reason with reporter := some s.epoch }
      else none
  | .report =>
      match s.reporter with
      | some n => some { s with fault_pending_ := true, fresh := s.fresh || n == s.epoch
                                reporter := none }
      | none => none
  | .soft_stop data =>
      if s.configured then some { s with soft_stopped_ := data, soft_stop_last_msg_ns_ := s.now }
      else none
  | .clock ns => some { s with now := s.now + ns }
  | .context_shutdown => some { s with ok := false }

def step (s : State P) (e : Event P) : Option (State P) := (raw_step s e).map reap

/-- A constructed node. -/
def Init (s : State P) : Prop :=
  s.accepting_goals_ = false ∧ s.goal_pending_ = false ∧ s.returning_to_upright_ = false ∧
    s.goal_handle_ = none ∧ s.stop_execution_ = false ∧ s.soft_stopped_ = true ∧
    s.soft_stop_last_msg_ns_ = 0 ∧ s.ok = true ∧ s.fault_pending_ = false ∧
    s.fault_transition_pending_ = false ∧ s.pending_fault_reason_ = "" ∧
    s.primary = .unconfigured ∧ s.configured = false ∧ s.epoch = 0 ∧ s.polling = false ∧
    (∀ g, s.goals g = none) ∧ s.setpoint = none ∧ s.replies = [] ∧ s.act = .idle ∧
    s.ret = .idle ∧ s.worker = none ∧ s.lc = .idle ∧ s.reporter = none ∧ s.stopped = false ∧
    s.fresh = false

/-! ## On the bench

A plant to run the node on: pregenerated waves of two samples one second apart,
the first of them where the paddle stands, so that there is no blend. -/

def bench : Plant where
  Config := Unit
  Goal := ℚ -- the second sample
  Wave := Unit
  Pregenerated := ℚ × ℚ
  valid _ := true
  wavemaker_mode_pregenerated _ := true
  soft_stop_timeout_ns _ := 500000000
  return_default_tolerance_m _ := 1 / 500
  start_inside _ x := decide (|x| ≤ 1 + 1 / 500)
  configure_pregenerated _ x y := if |x| ≤ 1 ∧ |y| ≤ 1 then some (x, y) else none
  configure_wave _ _ _ := none
  accept_pregenerated _ p :=
    if |p.2 - p.1| ≤ 2 then some (min (|p.2 - p.1| * (11 / 10)) 2) else none
  accept_wave _ _ := none
  sample_pregenerated p t :=
    if 1 ≤ t then (p.2, 0, true) else (p.1 + t * (p.2 - p.1), p.2 - p.1, false)
  sample_wave _ _ := (0, 0)
  event_error _ := "goal_handle attempted invalid transition"

def constructed : State bench where
  cfg := ()
  trajectory_ := ()
  pregenerated_ := (0, 0)
  goal_velocity_cap_mps_ := 0
  accepting_goals_ := false
  goal_pending_ := false
  returning_to_upright_ := false
  goal_handle_ := none
  stop_execution_ := false
  soft_stopped_ := true
  soft_stop_last_msg_ns_ := 0
  now := 0
  ok := true
  fault_pending_ := false
  fault_transition_pending_ := false
  pending_fault_reason_ := ""
  primary := .unconfigured
  configured := false
  epoch := 0
  polling := false
  goals := fun _ => none
  setpoint := none
  replies := []
  act := .idle
  ret := .idle
  worker := none
  lc := .idle
  reporter := none
  stopped := false
  fresh := false

theorem constructed_init : Init constructed := by
  simp only [Init, constructed, implies_true, and_self]

/-- `on_configure` with a working actuator. -/
def configures_bench : List (Event bench) := [.transition (.configure ()), .lc (.factory .created)]

/-- `on_activate` with a working actuator. -/
def activates_bench : List (Event bench) :=
  [.transition .activate, .lc (.started true), .lc (.bond true), .lc .proceed]

/-- Up to an active node with the soft stop released. -/
def boot : List (Event bench) := configures_bench ++ .soft_stop false :: activates_bench

/-- A goal from the middle of the tank to `y`. -/
def requests (id : ℕ) (y : ℚ) : Event bench := .goal_request { id := id, goal := y, start := some 0 }

/-- A return to upright with the default tolerance. -/
def requests_return (id : ℕ) : Event bench := .return_request { id := id, tolerance := some 0 }

/-- `start_execution` from its lock to its return. -/
def starts : List (Event bench) := List.replicate 7 .act

/-- The worker's first steps, up to `sample_goal`. -/
def to_sample : List (Event bench) := List.replicate 4 (.worker .proceed)

/-- `stop_activity` with an actuator that stops at once and no worker to wait
for. -/
def stops : List (Event bench) := List.replicate 9 (.lc .proceed)

end WavemakerNode
