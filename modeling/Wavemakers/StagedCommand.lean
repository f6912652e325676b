/-
What a successful `move_to` leaves in the output image.

`move_to` compares doubles with the limits and then writes 32-bit integers. In exact
arithmetic the integers stand for the values that were checked exactly when these fit
into their fields (`staged_iff`); the constructor of the actuator accepts limits that
do not, and then the staged target is another one, outside of the limits
(`far_target_wraps`).
-/
import Wavemakers.ControllerPlant
import Wavemakers.DriveCalls
import Wavemakers.OffCommand
import Wavemakers.RegisterAddresses

set_option autoImplicit false

namespace Mgate.Threads

open Interleave Atomic Atomic.Prog MGateDriver WavemakerController

/-! ## Behind the constructors -/

/-- Nothing runs yet, no command has been called, and the parameters were accepted. -/
structure Built (s : State) : Prop where
  init : Init s
  -- as if the driver had been stopped
  call : s.call = .driver_stop
  accepted : ∃ p a, WavemakerController.IndraDriveActuator.construct p = some a ∧
    s.cfg = a.config ∧ s.drv.cfg_ = a.gateway

theorem Built.prog {s : State} (h : Built s) : s.prog = .pure true := by
  obtain ⟨gateway, cfg, -, -, -, -, -, -, -, -, -, -, -, -, -, -, -, hprog, -⟩ := h.init
  exact hprog

theorem Built.limits {s : State} (h : Built s) :
    s.cfg.drive.min_position < s.cfg.drive.max_position ∧
      0 < s.cfg.hold_velocity_rpm_ ∧ s.cfg.hold_velocity_rpm_ ≤ s.cfg.drive.max_velocity_rpm := by
  obtain ⟨p, a, ha, hcfg, -⟩ := h.accepted
  simp only [IndraDriveActuator.construct, Option.bind_eq_bind, Option.bind_eq_some_iff,
    Option.guard_eq_some', Option.pure_def, Option.some.injEq, exists_const] at ha
  obtain ⟨-, -, -, -, -, -, hlimits, hhold, rfl⟩ := ha
  rw [hcfg]
  exact ⟨not_le.mp fun hle => hlimits (.inl hle), by_contra fun hle => hhold (.inl hle),
    not_lt.mp fun hlt => hhold (.inr hlt)⟩

/-- The state the constructors leave. -/
def built (a : WavemakerController.IndraDriveActuator ℚ) : State :=
  { bench with
    cfg := a.config
    drv := { MGateDriver.create a.gateway with tags_ := a.config.drive.tags }
    gw := List.replicate a.gateway.output_word_count.toNat 0 }

theorem built_spec {p : Params ℚ} {a : WavemakerController.IndraDriveActuator ℚ}
    (h : WavemakerController.IndraDriveActuator.construct p = some a)
    (htags : ((MGateDriver.create a.gateway).add_tags a.config.drive.tags).toOption.isSome = true) :
    Built (built a) := by
  obtain ⟨d, hd⟩ := Option.isSome_iff_exists.mp htags
  have hok := ProcessImage.toOption_eq_some hd
  refine ⟨⟨a.gateway, a.config, ?_, rfl, rfl, rfl, rfl, rfl, rfl, rfl, rfl, rfl, rfl, rfl, rfl, rfl,
    rfl, rfl, rfl⟩, rfl, p, a, h, rfl, rfl⟩
  rw [hok, (add_tags_spec hok).1]
  rfl

/-! ## The command that is staged -/

/-- A successful `move_to` has staged its values. -/
def MoveStaged (c : Call) (b : Bool) (s : State) : Prop :=
  ∀ p v, c = .move_to p v → b = true → s.cfg.drive.Accepts p v ∧
    target s.drv.out_ = encode p ∧ velocity s.drv.out_ = encode v

section Staged

variable {F : FloatCast} {s : State}

/-- Runs of the two threads, with nothing owed. -/
abbrev anywhere (F : FloatCast) : Setting State Resp :=
  (System.plain F).setting Any fun _ _ => True

theorem moveStaged_stable (c : Call) (b : Bool) : (anywhere F).Stable (MoveStaged c b) := by
  intro x y hx hs p v hc hb
  have hd : Disturbed x y := hs.disturbed
  rw [hd.cfg, hd.target, hd.velocity]
  exact hx p v hc hb

/-- The configuration is fixed. -/
theorem kept_drive (cfg : IndraDriveConfig) :
    (System.plain F).Kept Any (fun _ _ => True) fun x => x.cfg.drive = cfg := by
  refine ⟨fun x y hx hs => ?_, fun {o x y r} _ hx hs => ?_⟩
  · have hd : Disturbed x y := hs.disturbed
    rw [hd.cfg]
    exact hx
  · have hcfg : y.cfg = x.cfg := hs.cfg
    rw [hcfg]
    exact hx

theorem move_staged {p v : ℚ} {cfg : IndraDriveConfig} :
    Triple (anywhere F) (fun x => x.cfg.drive = cfg) (IndraDrive.move_to cfg p v)
      (MoveStaged (.move_to p v)) := by
  have hkept := kept_drive (F := F) cfg
  refine System.triple_move (V := fun x => x.cfg.drive = cfg ∧ velocity x.drv.out_ = encode v)
    (fun _ _ _ => trivial) hkept ?_ (moveStaged_stable _) ?_
    (fun _ _ => ⟨fun _ => trivial, fun _ => trivial⟩) ?_ ?_
  · intro x y hx hs
    have hd : Disturbed x y := hs.disturbed
    rw [hd.cfg, hd.velocity]
    exact hx
  · exact fun _ _ _ _ _ hb => Bool.noConfusion hb
  · intro _ x y r hx hs
    obtain ⟨d, q, hy, -, hvalue⟩ := hs.write
    have hy : y = { x with drv := d, prog := q } := hy
    rw [hy]
    exact ⟨hx, hvalue nofun⟩
  · intro haccepts x y r hx hs p' v' hc _
    cases hc
    obtain ⟨d, q, hy, hst, hvalue⟩ := hs.write
    have hy : y = { x with drv := d, prog := q } := hy
    -- the speed lies behind the target
    have hspeed : velocity d.out_ = velocity x.drv.out_ := raw32_staged hst (.inr (by decide))
    rw [hy, hx.1, hspeed]
    exact ⟨haccepts, hvalue nofun, hx.2⟩

theorem reach_move_staged (h : Reach (step F) Any Built s) {b : Bool} (hprog : s.prog = .pure b) :
    MoveStaged s.call b s := by
  have hsafe : s.prog.Safe (anywhere F) (MoveStaged s.call) s := by
    refine System.safe (S := System.plain F) (fun x hx => init_wired hx.init) ?_ ?_ h
    · intro x hx
      refine System.safe_idle (moveStaged_stable _ _) hx.prog ?_
      exact fun p v hc => nomatch hx.call.symm.trans hc
    · intro x y c rounds b hwired _ hidle _ _ hy
      have hcfg := congrArg State.cfg hy
      cases c with
      | move_to p v => exact move_staged y (congrArg IndraDriveActuator.Config.drive hcfg)
      | _ => exact Safe.trivial (fun _ _ => trivial) (fun _ _ _ _ hc => nomatch hc) _ _
  rw [hprog] at hsafe
  exact hsafe.result

/-! ## Read back -/

theorem read_output_raw32 (h : Wired s) {t : DriveTag} (harea : (s.cfg.drive.entry t).area = .Output)
    (htype : (s.cfg.drive.entry t).type = .I32) (horder : (s.cfg.drive.entry t).order = .BigEndian)
    (hscale : (s.cfg.drive.entry t).scale = 1 / 10000) (hbias : (s.cfg.drive.entry t).bias = 0)
    (hin : (s.cfg.drive.entry t).byte_offset.toNat + 4 ≤ s.drv.out_.size) :
    s.drv.read_output F (s.tag t) =
      .ok (decode (raw32 s.drv.out_ (s.cfg.drive.entry t).byte_offset.toNat)) := by
  unfold MGateDriver.read_output
  rw [tag_checked_entry h t harea]
  exact get_scaled_raw32 F htype horder hscale hbias hin

theorem read_target (h : Wired s) :
    s.drv.read_output F (s.tag .TargetPosition) = .ok (decode (target s.drv.out_)) := by
  have hroom := h.room
  refine read_output_raw32 (t := .TargetPosition) h rfl rfl rfl rfl rfl ?_
  exact (by decide : (2 : UInt64).toNat + 4 ≤ 12).trans hroom

theorem read_velocity (h : Wired s) :
    s.drv.read_output F (s.tag .PosVelocity) = .ok (decode (velocity s.drv.out_)) := by
  have hroom := h.room
  refine read_output_raw32 (t := .PosVelocity) h rfl rfl rfl rfl rfl ?_
  exact (by decide : (6 : UInt64).toNat + 4 ≤ 12).trans hroom

/-- Half a least significant unit. -/
def half_lsb : ℚ := 1 / 20000

/-- The staged pair is the checked one up to rounding, and inside the limits up to rounding. -/
structure Commanded (cfg : IndraDriveConfig) (p v x y : ℚ) : Prop where
  target : |x - p| ≤ half_lsb
  velocity : |y - v| ≤ half_lsb
  above : cfg.min_position - half_lsb ≤ x
  below : x ≤ cfg.max_position + half_lsb
  positive : -half_lsb < y
  speed : y ≤ cfg.max_velocity_rpm + half_lsb

theorem commanded_iff {cfg : IndraDriveConfig} {p v : ℚ} (h : cfg.Accepts p v) :
    Commanded cfg p v (decode (encode p)) (decode (encode v)) ↔ InRange p ∧ InRange v := by
  rw [← abs_decode_encode_le_iff, ← abs_decode_encode_le_iff]
  constructor
  · exact fun hc => ⟨hc.target, hc.velocity⟩
  · rintro ⟨hp, hv⟩
    obtain ⟨⟨hmin, hmax⟩, hpos, hspeed⟩ := h
    obtain ⟨hp1, hp2⟩ := abs_le.mp hp
    obtain ⟨hv1, hv2⟩ := abs_le.mp hv
    refine ⟨hp, hv, ?_, ?_, ?_, ?_⟩
    all_goals
      unfold half_lsb
      linarith

/-- **The staged command is the checked one exactly when it fits into its fields.** Whatever
else was called before, and wherever the poll thread is. -/
theorem staged_iff {p v : ℚ} (h : Reach (step F) Any Built s) (hcall : s.call = .move_to p v)
    (hret : s.prog = .pure true) :
    ∃ x y, s.drv.read_output F (s.tag .TargetPosition) = .ok x ∧
      s.drv.read_output F (s.tag .PosVelocity) = .ok y ∧
      (Commanded s.cfg.drive p v x y ↔ InRange p ∧ InRange v) := by
  have hwired : Wired s :=
    System.reach_wired (S := System.plain F) (fun x hx => init_wired hx.init) h
  obtain ⟨haccepts, htarget, hvelocity⟩ := reach_move_staged h hret p v hcall rfl
  refine ⟨_, _, read_target hwired, read_velocity hwired, ?_⟩
  rw [htarget, hvelocity]
  exact commanded_iff haccepts

end Staged

/-! ## On the bench -/

/-- The bench drive with the registers of `bench_gateway`, and a travel up to a limit. -/
def bench_params (max_position_deg : ℚ) : Params ℚ :=
  { WavemakerController.bench .angular 1 with
    max_position_deg := max_position_deg
    input_word_count := 7
    output_word_count := 6
    status_word_count := 2 }

/-- The drive's tags fit, whatever the limit. -/
theorem bench_tags (limit : ℚ) :
    ((MGateDriver.create (gateway_config (bench_params limit))).add_tags
      ({} : IndraDriveConfig).tags).toOption.isSome = true := by
  have htags : ((MGateDriver.create (gateway_config (bench_params 500))).add_tags
      ({} : IndraDriveConfig).tags).toOption.isSome = true := by
    decide +kernel
  exact htags

theorem built_bench {limit : ℚ} {a : WavemakerController.IndraDriveActuator ℚ}
    (h : WavemakerController.IndraDriveActuator.construct (bench_params limit) = some a) :
    Built (built a) := by
  refine built_spec h ?_
  rw [(construct_gateway h).2]
  exact bench_tags limit

/-- A running driver and an `enable()` that finds every status word it waits for. -/
def enables : List Event :=
  [.call .driver_start fun _ => 0] ++ commands 1 ++ to_send ++ answered 0xC002 ++ quiet 1 ++
    [.call .enable fun _ => 0] ++ commands 33

/-- An accepted `move_to`. -/
def moves (p v : ℚ) : List Event := [.call (.move_to p v) fun _ => 0] ++ commands 4

/-- What a command returned and what is staged then. -/
def staged_after (limit : ℚ) (es : List Event) : Option (Call × Option Bool × ℚ × ℚ × ℚ) :=
  (WavemakerController.IndraDriveActuator.construct (bench_params limit)).bind fun a =>
    (run (step no_floats) (built a) es).map fun s =>
      (s.call, OffCommand.returned s.prog, decode (target s.drv.out_),
        decode (velocity s.drv.out_), s.cfg.drive.min_position)

theorem staged_after_eq_some {limit : ℚ} {es : List Event} {c : Call} {r : Bool} {x y lo : ℚ}
    (h : staged_after limit es = some (c, some r, x, y, lo)) :
    ∃ s, Reach (step no_floats) Any Built s ∧ s.call = c ∧ s.prog = .pure r ∧
      decode (target s.drv.out_) = x ∧ decode (velocity s.drv.out_) = y ∧
      s.cfg.drive.min_position = lo := by
  obtain ⟨a, ha, h⟩ := Option.bind_eq_some_iff.mp h
  obtain ⟨s, hrun, h⟩ := Option.map_eq_some_iff.mp h
  simp only [Prod.mk.injEq] at h
  obtain ⟨hcall, hret, hx, hy, hlo⟩ := h
  exact ⟨s, .run (.init (built_bench ha)) hrun, hcall, OffCommand.eq_pure_of_returned hret, hx, hy, hlo⟩

/-- The travel of the bench: what is staged is what was commanded. -/
theorem staged_bench :
    ∃ s x y, Reach (step no_floats) Any Built s ∧ s.call = .move_to 100 10 ∧ s.prog = .pure true ∧
      s.drv.read_output no_floats (s.tag .TargetPosition) = .ok x ∧
      s.drv.read_output no_floats (s.tag .PosVelocity) = .ok y ∧
      Commanded s.cfg.drive 100 10 x y := by
  have heval : staged_after 500 (enables ++ moves 100 10) =
      some (.move_to 100 10, some true, 100, 10, -550) := by
    decide +kernel
  obtain ⟨s, hs, hcall, hret, -, -, -⟩ := staged_after_eq_some heval
  obtain ⟨x, y, hx, hy, hiff⟩ := staged_iff hs hcall hret
  exact ⟨s, x, y, hs, hcall, hret, hx, hy, hiff.mpr (by decide +kernel)⟩

/-- A travel of 300000 degrees is accepted and so is a move to 250000; what is staged is
the other way, and outside of the limits. -/
theorem far_target_wraps :
    ∃ s x y, Reach (step no_floats) Any Built s ∧ s.call = .move_to 250000 10 ∧
      s.prog = .pure true ∧ s.drv.read_output no_floats (s.tag .TargetPosition) = .ok x ∧
      s.drv.read_output no_floats (s.tag .PosVelocity) = .ok y ∧
      x = -1794967296 / 10000 ∧ x < s.cfg.drive.min_position ∧
      ¬ Commanded s.cfg.drive 250000 10 x y := by
  have heval : staged_after 300000 (enables ++ moves 250000 10) =
      some (.move_to 250000 10, some true, -1794967296 / 10000, 10, -550) := by
    decide +kernel
  obtain ⟨s, hs, hcall, hret, hx, hy, hlo⟩ := staged_after_eq_some heval
  have hwired : Wired s :=
    System.reach_wired (S := System.plain no_floats) (fun x hx => init_wired hx.init) hs
  refine ⟨s, _, _, hs, hcall, hret, read_target hwired, read_velocity hwired, hx, ?_, fun hc => ?_⟩
  · rw [hx, hlo]
    norm_num
  · have habove := hc.above
    rw [hx, hlo, half_lsb] at habove
    norm_num at habove

end Mgate.Threads
