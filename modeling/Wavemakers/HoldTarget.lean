/-
The target that `IndraDriveActuator::halt` holds.

The actuator remembers the last setpoint it has staged, and `halt()` moves to that
instead of the polled position. `Remembers` is what its memory is worth between two
calls: the staged target is the encoding of the remembered one, which lies inside the
drive's limits, and after an accepted setpoint either there is such a memory or the
drive is disabled. `Held` is what a call of `halt()` may have done so far: to the
outputs nothing but the new speed, and on a faulted or disabled drive nothing at all.
-/
import Wavemakers.StagedCommand

set_option autoImplicit false

namespace Mgate.Threads.HoldTarget

open Interleave Atomic Atomic.Prog MGateDriver

/-! ## The calls of the actuator -/

def of_actuator : Call → Bool
  | .actuator_start | .actuator_halt | .actuator_stop | .write_setpoint _ _ => true
  | _ => false

/-- Calls of the actuator only; the poll thread and aborts as they come. -/
def Actuator {σ : Type} (_ : σ) : Event → Prop
  | .call c _ => of_actuator c = true
  | _ => True

instance {σ : Type} (x : σ) (e : Event) : Decidable (Actuator x e) :=
  match e with
  | .call c _ => inferInstanceAs (Decidable (of_actuator c = true))
  | .cmd | .poll _ | .request_abort => isTrue trivial

/-- Whether a setpoint has been accepted since the last start, once `c` has returned `b`. -/
def after (accepted : Bool) : Call → Bool → Bool
  | .actuator_start, _ => false
  | .write_setpoint _ _, b => accepted || b
  | _, _ => accepted

/-- The history is brought up to date when the next call begins. -/
def note (accepted : Bool) (s : State) : Event → Bool
  | .call _ _ =>
      match s.prog with
      | .pure b => after accepted s.call b
      | .op _ _ => accepted
  | _ => accepted

/-- The runs with this history. -/
abbrev history (F : FloatCast) : System F (State × Bool) := .observed F note

/-! ## The actuator's memory -/

structure Remembers (accepted : Bool) (s : State) : Prop where
  target : s.has_target_ = true → target s.drv.out_ = encode s.last_target_ ∧
    s.cfg.drive.min_position ≤ s.last_target_ ∧ s.last_target_ ≤ s.cfg.drive.max_position
  held : accepted = true → s.has_target_ = true ∨ s.enabled_ = false

section Memory

variable {F : FloatCast} {a : Bool} {s t : State}

theorem Remembers.mono (h : Remembers a s) (hcfg : t.cfg = s.cfg)
    (hhas : t.has_target_ = s.has_target_) (hlast : t.last_target_ = s.last_target_)
    (htarget : Threads.target t.drv.out_ = Threads.target s.drv.out_)
    (henabled : t.enabled_ = true → s.enabled_ = true) : Remembers a t := by
  refine ⟨fun ht => ?_, fun ha => ?_⟩
  · rw [htarget, hlast, hcfg]
    rw [hhas] at ht
    exact h.target ht
  · rcases h.held ha with hs | hs
    · exact .inl (by rw [hhas]; exact hs)
    · exact .inr (Bool.eq_false_iff.mpr fun ht => Bool.eq_false_iff.mp hs (henabled ht))

/-- Nothing to remember, and nothing that has to be. -/
theorem Remembers.of_forgotten (hhas : s.has_target_ = false)
    (hheld : a = true → s.enabled_ = false) : Remembers a s := by
  refine ⟨fun hs => ?_, fun ha => .inr (hheld ha)⟩
  rw [hhas] at hs
  cases hs

theorem Remembers.disturbed (h : Remembers a s) (hd : Disturbed s t) : Remembers a t :=
  h.mono hd.cfg hd.has_target hd.last_target hd.target hd.enabled

end Memory

/-! ## What the calls leave in it -/

section Calls

variable {F : FloatCast} {cfg : IndraDriveActuator.Config} {x y : State × Bool}

/-- A call of the actuator, seen from inside; nothing is owed. -/
abbrev inside (F : FloatCast) : Setting (State × Bool) Resp :=
  (history F).setting Actuator fun _ _ => True

theorem own_history {o : Op} {r : Resp o} (h : (history F).Own Actuator x o y r) : y.2 = x.2 :=
  (observe_eq_some.mp h.step).2

theorem others_history (h : (history F).Others Actuator x y) : y.2 = x.2 := by
  rcases h.step with ⟨i, -, hs⟩ | ⟨-, hs⟩
  · exact (observe_eq_some.mp hs).2
  · have hs : observe (step F) note x .request_abort = some y := hs
    exact (observe_eq_some.mp hs).2

/-- What the memory is worth when `c` has returned `b`. -/
def Kept (c : Call) (b : Bool) (x : State × Bool) : Prop := Remembers (after x.2 c b) x.1

theorem kept_stable (c : Call) (b : Bool) : (inside F).Stable (Kept c b) := by
  intro x y hx hs
  have hh : y.2 = x.2 := others_history hs
  unfold Kept
  rw [hh]
  exact hx.disturbed hs.disturbed

/-- Between the operations of a call. -/
def Along (cfg : IndraDriveActuator.Config) (x : State × Bool) : Prop :=
  x.1.cfg = cfg ∧ Remembers x.2 x.1

theorem along_kept : (history F).Kept Actuator (fun _ _ => True) (Along cfg) := by
  refine ⟨fun x y hx hs => ?_, fun {o x y r} ho hx hs => ?_⟩
  · have hd : Disturbed x.1 y.1 := hs.disturbed
    have hh : y.2 = x.2 := others_history hs
    unfold Along
    rw [hd.cfg, hh]
    exact ⟨hx.1, hx.2.disturbed hd⟩
  · obtain ⟨e, p, hy⟩ := hs.passive ho
    have hy : y.1 = { x.1 with last_error_ := e, prog := p } := hy
    unfold Along
    rw [hy, own_history hs]
    exact ⟨hx.1, hx.2.mono rfl rfl rfl rfl id⟩

/-! ### `start` and `stop` -/

/-- Nothing is remembered. -/
def Forgotten (x : State × Bool) : Prop := x.1.has_target_ = false

/-- Nothing is remembered and the drive is disabled. -/
def Stopped (x : State × Bool) : Prop := x.1.has_target_ = false ∧ x.1.enabled_ = false

theorem forgotten_stable : (inside F).Stable Forgotten := by
  intro x y hx hs
  have hd : Disturbed x.1 y.1 := hs.disturbed
  unfold Forgotten
  rw [hd.has_target]
  exact hx

theorem stopped_stable : (inside F).Stable Stopped := by
  intro x y hx hs
  have hd : Disturbed x.1 y.1 := hs.disturbed
  exact ⟨hd.has_target.trans hx.1, hd.disabled hx.2⟩

/-- Only `write_setpoint` begins to remember. -/
theorem forgotten_frame {α : Type} {p : Drive α} (hp : p.All (· ≠ Op.store_has_target true)) :
    Triple (inside F) Forgotten p fun _ => Forgotten := by
  refine Triple.frame forgotten_stable (fun _ _ _ _ => trivial) (fun x o y r ho hx hs => ?_) hp
  obtain ⟨u, q, hst, hy⟩ := hs.stores
  have hy : y.1 = { u with prog := q } := hy
  unfold Forgotten
  rw [hy]
  exact hst.forgotten ho hx

/-- And only `enable` enables. -/
theorem stopped_frame {α : Type} {p : Drive α}
    (hp : p.All fun o => o ≠ .store_has_target true ∧ o ≠ .store_enabled true) :
    Triple (inside F) Stopped p fun _ => Stopped := by
  refine Triple.frame stopped_stable (fun _ _ _ _ => trivial) (fun x o y r ho hx hs => ?_) hp
  obtain ⟨u, q, hst, hy⟩ := hs.stores
  have hy : y.1 = { u with prog := q } := hy
  unfold Stopped
  rw [hy]
  exact ⟨hst.forgotten ho.1 hx.1, hst.disabled ho.2 hx.2⟩

/-- `start` and `stop` forget first. -/
theorem forgets {P : State × Bool → Prop} (hP : (inside F).Stable P) :
    Triple (inside F) P (act (.store_has_target false)) fun _ => Forgotten := by
  refine .lift hP (fun _ _ => trivial) (fun x y r _ hs => ?_) fun _ => forgotten_stable
  obtain ⟨k, u, hx, hy⟩ := hs.exec_eq
  cases hx
  exact congrArg State.has_target_ hy

theorem forgotten_ofDrive {α : Type} {p : Drive α} (hp : OfDrive p) :
    p.All (· ≠ Op.store_has_target true) :=
  hp.mono fun o ho heq => by
    rw [heq] at ho
    cases ho

theorem start_kept (rounds : ℕ → ℕ) :
    Triple (inside F) (fun _ => True) (IndraDriveActuator.start cfg rounds)
      (Kept .actuator_start) := by
  have hpassive : ∀ {α : Type} {p : Drive α}, Passive p → p.All (· ≠ Op.store_has_target true) :=
    fun hp => forgotten_ofDrive hp.ofDrive
  have hfail : IndraDriveActuator.stop_and_fail.All (· ≠ Op.store_has_target true) := by
    exact all_bind (all_driver_stop nofun nofun nofun nofun) fun _ => all_pure _ _
  refine .bind (forgets fun _ _ _ _ => trivial) fun _ => ?_
  refine (forgotten_frame ?_).weaken (fun _ => id) fun b y hy => .of_forgotten hy nofun
  refine all_bind (all_lift nofun) fun _ => ?_
  refine all_bind (hpassive (passive_wait_for_data _)) fun data => all_ite hfail ?_
  refine all_bind (all_lift nofun) fun first => all_bind (all_lift nofun) fun second => ?_
  refine all_ite hfail (all_ite hfail (all_ite hfail (all_ite hfail ?_)))
  refine all_bind (hpassive (passive_slave_live _)) fun live => all_ite hfail ?_
  exact all_bind (forgotten_ofDrive (ofDrive_enable _ _)) fun enabled => all_ite hfail (all_pure _ _)

theorem disable_stops (rounds : ℕ → ℕ) :
    Triple (inside F) Forgotten (IndraDrive.disable rounds) fun _ => Stopped := by
  have hframe : ∀ {α : Type} {p : Drive α}, OfDrive p → Triple (inside F) Forgotten p fun _ => Forgotten :=
    fun hp => forgotten_frame (forgotten_ofDrive hp)
  have hwait : ∀ what pred rounds, (IndraDrive.wait_for what pred false rounds).All
      fun o => o ≠ Op.store_has_target true ∧ o ≠ .store_enabled true :=
    fun what pred rounds => (passive_wait_for what pred false rounds).mono fun o ho => by
      constructor
      · rintro rfl
        cases ho
      · rintro rfl
        cases ho
  have hrest : ∀ ok : Bool, Triple (inside F) Forgotten (do
      act (.store_enabled false)
      IndraDrive.set_control indra_cw.kOperatingMode
      let online : Bool ← act .load_online
      if online then
        let stopped ← IndraDrive.wait_for "torque off" without_torque false (rounds 1)
        return stopped && ok
      return ok) fun _ => Stopped := by
    intro ok
    refine .bind (M := fun _ => Stopped) (.lift forgotten_stable (fun _ _ => trivial)
      (fun x y r hx hs => ?_) fun _ => stopped_stable) fun _ => ?_
    · obtain ⟨k, u, hu, hy⟩ := hs.exec_eq
      cases hu
      exact ⟨(congrArg State.has_target_ hy).trans hx, congrArg State.enabled_ hy⟩
    · refine stopped_frame ?_
      refine all_bind (all_lift ⟨nofun, nofun⟩) fun _ => all_bind (all_lift ⟨nofun, nofun⟩) fun online => ?_
      exact all_ite (all_bind (hwait _ _ _) fun stopped => all_pure _ _) (all_pure _ _)
  refine .bind (hframe (ofDrive_act rfl)) fun enabled => ?_
  refine .ite (fun _ => .bind (hframe (ofDrive_act rfl)) fun online => ?_) fun _ => hrest true
  refine .ite (fun _ => .bind (hframe (ofDrive_act rfl)) fun _ => ?_) fun _ => hrest true
  exact .bind (hframe (ofDrive_wait_for _ _ _ _)) hrest

theorem stop_kept (rounds : ℕ → ℕ) :
    Triple (inside F) (fun _ => True) (IndraDriveActuator.stop rounds) (Kept .actuator_stop) := by
  refine .bind (forgets fun _ _ _ _ => trivial) fun _ => .bind (disable_stops rounds) fun _ => ?_
  refine (stopped_frame ?_).weaken (fun _ => id) fun b y hy => .of_forgotten hy.1 fun _ => hy.2
  refine all_bind ?_ fun _ => all_pure _ _
  exact all_driver_stop ⟨nofun, nofun⟩ ⟨nofun, nofun⟩ ⟨nofun, nofun⟩ ⟨nofun, nofun⟩

/-! ### `write_setpoint` and `halt` -/

/-- A speed does not change what is remembered. -/
theorem along_velocity {v : ℚ} {r : Resp (.write .PosVelocity v)} (h : Along cfg x)
    (hs : (history F).Own Actuator x (.write .PosVelocity v) y r) : Along cfg y := by
  obtain ⟨d, q, hy, hst, -⟩ := hs.write
  have hy : y.1 = { x.1 with drv := d, prog := q } := hy
  unfold Along
  rw [own_history hs, hy]
  exact ⟨h.1, h.2.mono rfl rfl rfl (raw32_staged hst (.inl (by decide))) id⟩

/-- A target that is staged and not remembered yet. -/
def Ahead (cfg : IndraDriveActuator.Config) (p : ℚ) (x : State × Bool) : Prop :=
  x.1.cfg = cfg ∧ target x.1.drv.out_ = encode p ∧
    cfg.drive.min_position ≤ p ∧ p ≤ cfg.drive.max_position

theorem ahead_stable (p : ℚ) : (inside F).Stable (Ahead cfg p) := by
  intro x y hx hs
  have hd : Disturbed x.1 y.1 := hs.disturbed
  unfold Ahead
  rw [hd.cfg, hd.target]
  exact hx

theorem write_setpoint_kept (p v : ℚ) :
    Triple (inside F) (Along cfg) (IndraDriveActuator.write_setpoint cfg p v)
      (Kept (.write_setpoint p v)) := by
  have hmove : Triple (inside F) (Along cfg)
      (IndraDrive.move_to cfg.drive p (IndraDriveActuator.feedrate v))
      fun ok x => if ok then Ahead cfg p x else Along cfg x := by
    refine System.triple_move (V := Along cfg) (fun _ _ _ => trivial) along_kept along_kept.stable
      (fun b => ?_) (fun _ => id) (fun _ _ => ⟨fun _ => trivial, fun _ => trivial⟩)
      (fun _ x y r hx hs => along_velocity hx hs) fun haccepts x y r hx hs => ?_
    · cases b with
      | false => exact along_kept.stable
      | true => exact ahead_stable p
    · obtain ⟨d, q, hy, -, hvalue⟩ := hs.write
      have hy : y.1 = { x.1 with drv := d, prog := q } := hy
      simp only [if_true]
      unfold Ahead
      rw [hy]
      exact ⟨hx.1, hvalue nofun, haccepts.1⟩
  refine .bind hmove fun ok => .ite (fun hno => ?_) fun hok => ?_
  · simp only [hno, Bool.false_eq_true, if_false]
    refine Triple.weaken (P := Kept (.write_setpoint p v) false) (Triple.pure (kept_stable _ _))
      (fun x hx => ?_) fun _ _ => id
    unfold Kept
    rw [show after x.2 (.write_setpoint p v) false = x.2 from Bool.or_false x.2]
    exact hx.2
  · simp only [Bool.eq_true_of_not_eq_false hok, if_true]
    have hstable : (inside F).Stable fun x => Ahead cfg p x ∧ x.1.last_target_ = p := by
      intro x y hx hs
      have hd : Disturbed x.1 y.1 := hs.disturbed
      exact ⟨ahead_stable p x y hx.1 hs, hd.last_target.trans hx.2⟩
    refine .op (M := fun _ x => Ahead cfg p x ∧ x.1.last_target_ = p) (ahead_stable p)
      (fun _ _ => trivial) (fun x y r hx hs => ?_) fun _ => ?_
    · obtain ⟨k, u, hu, hy⟩ := hs.exec_eq
      cases hu
      have hy : y.1 = { x.1 with last_target_ := p, prog := k () } := hy
      unfold Ahead
      rw [hy]
      exact ⟨hx, rfl⟩
    · refine .op (M := fun _ => Kept (.write_setpoint p v) true) hstable
        (fun _ _ => trivial) (fun x y r hx hs => ?_) fun _ => Triple.pure (kept_stable _ _)
      obtain ⟨k, u, hu, hy⟩ := hs.exec_eq
      cases hu
      have hy : y.1 = { x.1 with has_target_ := true, prog := k () } := hy
      obtain ⟨⟨hcfg, htarget, hlimits⟩, hlast⟩ := hx
      unfold Kept
      rw [hy]
      refine ⟨fun _ => ?_, fun _ => .inl rfl⟩
      rw [hcfg, hlast]
      exact ⟨htarget, hlimits⟩

/-- What is remembered, if anything, is `p`. -/
def Aims (cfg : IndraDriveActuator.Config) (p : ℚ) (x : State × Bool) : Prop :=
  Along cfg x ∧ (x.1.has_target_ = true → x.1.last_target_ = p)

theorem aims_kept (p : ℚ) : (history F).Kept Actuator (fun _ _ => True) (Aims cfg p) := by
  have hkept : (history F).Kept Actuator (fun _ _ => True) (Along cfg) := along_kept
  refine ⟨fun x y hx hs => ?_, fun {o x y r} ho hx hs => ?_⟩
  · have hd : Disturbed x.1 y.1 := hs.disturbed
    refine ⟨hkept.stable x y hx.1 hs, ?_⟩
    rw [hd.has_target, hd.last_target]
    exact hx.2
  · refine ⟨hkept.passive ho hx.1 hs, ?_⟩
    obtain ⟨e, q, hy⟩ := hs.passive ho
    have hy : y.1 = { x.1 with last_error_ := e, prog := q } := hy
    rw [hy]
    exact hx.2

/-- The clamp in `halt` does not move what is remembered. -/
theorem clamp_eq {lo hi p : ℚ} (hlo : lo ≤ p) (hhi : p ≤ hi) : max lo (min p hi) = p := by
  rw [min_eq_left hhi, max_eq_right hlo]

theorem halt_kept : Triple (inside F) (Along cfg) (IndraDriveActuator.halt cfg)
    (Kept .actuator_halt) := by
  have hkept : (history F).Kept Actuator (fun _ _ => True) (Along cfg) := along_kept
  have hmove : ∀ p : ℚ, Triple (inside F) (Aims cfg p) (IndraDrive.move_to cfg.drive
      (max cfg.drive.min_position (min p cfg.drive.max_position)) cfg.hold_velocity_rpm_)
      (Kept .actuator_halt) := by
    intro p
    refine System.triple_move (V := Aims cfg p) (fun _ _ _ => trivial) (aims_kept p)
      (aims_kept p).stable (kept_stable _) (fun x hx => hx.1.2)
      (fun _ _ => ⟨fun _ => trivial, fun _ => trivial⟩) (fun _ x y r hx hs => ?_)
      fun _ x y r hx hs => ?_
    · refine ⟨along_velocity hx.1 hs, ?_⟩
      obtain ⟨d, q, hy, -, -⟩ := hs.write
      have hy : y.1 = { x.1 with drv := d, prog := q } := hy
      rw [hy]
      exact hx.2
    · obtain ⟨d, q, hy, -, hvalue⟩ := hs.write
      have hy : y.1 = { x.1 with drv := d, prog := q } := hy
      obtain ⟨⟨hcfg, hrem⟩, haim⟩ := hx
      unfold Kept
      rw [own_history hs, hy]
      refine ⟨fun hhas => ?_, hrem.held⟩
      -- what is written is the remembered target itself
      obtain ⟨-, hlo, hhi⟩ := hrem.target hhas
      have hp : x.1.last_target_ = p := haim hhas
      refine ⟨(hvalue nofun).trans ?_, hlo, hhi⟩
      rw [hcfg, hp] at hlo hhi
      rw [clamp_eq hlo hhi, hp]
  refine .bind (System.triple_passive (fun _ _ _ => trivial) hkept (passive_act rfl)) fun fault => ?_
  refine .ite (fun _ => ?_) fun _ => ?_
  · exact Triple.weaken (P := Kept .actuator_halt true) (Triple.pure (kept_stable _ _))
      (fun x hx => hx.2) fun _ _ => id
  refine .op (M := fun (has : Bool) x => Along cfg x ∧ x.1.has_target_ = has) hkept.stable
    (fun _ _ => trivial) (fun x y has hx hs => ?_) fun has => ?_
  · exact ⟨hkept.passive rfl hx hs, (hs.memory rfl).1.trans hs.load_has_target.symm⟩
  have hstable : (inside F).Stable fun x => Along cfg x ∧ x.1.has_target_ = has := by
    intro x y hx hs
    have hd : Disturbed x.1 y.1 := hs.disturbed
    exact ⟨hkept.stable x y hx.1 hs, hd.has_target.trans hx.2⟩
  refine .ite (fun _ => ?_) fun hno => ?_
  · refine .op (M := fun (p : ℚ) => Aims cfg p) hstable (fun _ _ => trivial)
      (fun x y p hx hs => ?_) hmove
    exact ⟨hkept.passive rfl hx.1 hs, fun _ => (hs.memory rfl).2.trans hs.load_last_target.symm⟩
  · refine .op (M := fun (p : ℚ) => Aims cfg p) hstable (fun _ _ => trivial)
      (fun x y p hx hs => ?_) hmove
    refine ⟨hkept.passive rfl hx.1 hs, fun hhas => ?_⟩
    have hsame : y.1.has_target_ = x.1.has_target_ := (hs.memory rfl).1
    rw [hsame, hx.2] at hhas
    exact absurd hhas hno

/-! ### Along a run -/

/-- Behind the constructors nothing has been accepted. -/
def Start (x : State × Bool) : Prop := Built x.1 ∧ x.2 = false

theorem reach_kept (h : Reach (history F).step Actuator Start x) {b : Bool}
    (hidle : x.1.prog = .pure b) : Kept x.1.call b x := by
  have hsafe : x.1.prog.Safe (inside F) (Kept x.1.call) x := by
    refine System.safe (S := history F) (fun x hx => init_wired hx.1.init) ?_ ?_ h
    · intro x hx
      obtain ⟨gateway, cfg, -, -, -, -, -, -, -, -, -, -, -, -, hhas, -⟩ := hx.1.init
      refine System.safe_idle (kept_stable _ _) hx.1.prog (.of_forgotten hhas fun ha => ?_)
      have hcall : ((history F).base x).call = .driver_stop := hx.1.call
      rw [hcall, hx.2] at ha
      cases ha
    · intro x y c rounds b _ hC hprog hx hs hy
      have hy : y.1 = { x.1 with call := c, prog := c.program x.1.cfg rounds } := hy
      have hprog : x.1.prog = .pure b := hprog
      have hhistory : y.2 = after x.2 x.1.call b := by
        have hs : observe (step F) note x (.call c rounds) = some y := hs
        rw [(observe_eq_some.mp hs).2]
        simp only [note, hprog]
      have halong : Along x.1.cfg y := by
        unfold Along
        rw [hy, hhistory]
        exact ⟨rfl, Remembers.mono (s := x.1) hx rfl rfl rfl rfl id⟩
      cases c with
      | actuator_start => exact start_kept rounds y trivial
      | actuator_halt => exact halt_kept y halong
      | actuator_stop => exact stop_kept rounds y trivial
      | write_setpoint p v => exact write_setpoint_kept p v y halong
      | _ => cases hC
  rw [hidle] at hsafe
  exact hsafe.result

end Calls

/-! ## One call of `halt` -/

/-- No call begins. -/
def InCall (_ : State) : Event → Prop
  | .call _ _ => False
  | _ => True

instance (s : State) (e : Event) : Decidable (InCall s e) :=
  match e with
  | .call _ _ => isFalse id
  | .cmd | .poll _ | .request_abort => isTrue trivial

/-- The drive takes no command. -/
def Barred (s : State) : Prop := s.fault_ = true ∨ s.enabled_ = false

section Halt

variable {F : FloatCast} {cfg : IndraDriveActuator.Config} {r : ℕ} {x y : State}

/-- All that `halt` does to the outputs while the staged target is `r`. -/
def Owes (hold : ℚ) (r : ℕ) (o : Op) : Prop :=
  passive o = true ∨ o = .write .PosVelocity hold ∨ ∃ p, o = .write .TargetPosition p ∧ encode p = r

abbrev halting (F : FloatCast) (hold : ℚ) (r : ℕ) : Setting State Resp :=
  (System.plain F).setting InCall fun _ => Owes hold r

/-- The same on a drive that takes no command. -/
abbrev reading (F : FloatCast) : Setting State Resp :=
  (System.plain F).setting InCall fun _ o => passive o = true

theorem barred_kept {G : State → Op → Prop} : (System.plain F).Kept InCall G Barred := by
  refine ⟨fun x y hx hs => ?_, fun {o x y r} ho hx hs => ?_⟩
  · have hd : Disturbed x y := hs.disturbed
    exact hx.imp (fun hf => (hd.fault hf).1) hd.disabled
  · obtain ⟨e, q, hy⟩ := hs.passive ho
    have hy : y = { x with last_error_ := e, prog := q } := hy
    rw [hy]
    exact hx

/-- A barred drive refuses the move. -/
theorem halt_barred :
    Triple (reading F) Barred (IndraDriveActuator.halt cfg) fun _ => Barred := by
  have hG : ∀ (_ : State) o, passive o = true → passive o = true := fun _ _ => id
  have hact : ∀ o, passive o = true → Triple (reading F) Barred (act o) fun _ => Barred :=
    fun o ho => System.triple_passive hG barred_kept (passive_act ho)
  have hmove : ∀ p v, Triple (reading F) Barred (IndraDrive.move_to cfg.drive p v)
      fun _ => Barred := by
    intro p v
    refine System.triple_move_to (E := fun x => x.fault_ = true) (N := fun _ => False)
      (V := fun _ => False) hG barred_kept.stable (fun x y hx hs => ?_)
      (fun _ _ hx _ => hx) (fun _ _ hx _ => hx) barred_kept (fun _ => barred_kept.stable)
      (fun _ => id) (fun x y b hx hs => ?_) (fun x y b hx hs => ?_) (fun _ _ => False.elim)
      (fun _ _ => ⟨False.elim, False.elim⟩) (fun _ _ _ _ hx _ => hx.elim)
      fun _ _ _ _ hx _ => hx.elim
    · have hd : Disturbed x y := hs.disturbed
      exact (hd.fault hx).1
    · -- an enabled drive is barred by its fault
      have hb : b = x.enabled_ := hs.load_enabled
      obtain ⟨e, q, hy⟩ := hs.passive rfl
      have hy : y = { x with last_error_ := e, prog := q } := hy
      rw [hy]
      split
      · rename_i hon
        exact hx.resolve_right (by rw [← hb, hon]; nofun)
      · exact hx
    · have hb : b = x.fault_ := hs.load_fault
      rw [hb, hx, if_pos rfl]
      exact (barred_kept (F := F) (G := fun _ o => passive o = true)).passive rfl (.inl hx) hs
  refine .bind (hact _ rfl) fun fault => .ite (fun _ => ?_) fun _ => ?_
  · exact Triple.pure (Q := fun _ => Barred) barred_kept.stable
  refine .bind (hact _ rfl) fun has => .ite (fun _ => ?_) fun _ => ?_
  · exact .bind (hact _ rfl) fun p => hmove _ _
  · exact .bind (hact _ rfl) fun p => hmove _ _

/-- Otherwise it is made, unless the drive is barred meanwhile. -/
def Made (hold : ℚ) (x : State) : Prop := Barred x ∨ velocity x.drv.out_ = encode hold

theorem made_stable {hold : ℚ} : (halting F hold r).Stable (Made hold) := by
  intro x y hx hs
  have hd : Disturbed x y := hs.disturbed
  rcases hx with hbar | hmade
  · exact .inl (barred_kept.stable x y hbar hs)
  · exact .inr (hd.velocity.trans hmade)

/-- The remembered target is there. -/
def Recalls (p : ℚ) (x : State) : Prop := x.has_target_ = true ∧ x.last_target_ = p

theorem recalls_kept {G : State → Op → Prop} (p : ℚ) :
    (System.plain F).Kept InCall G (Recalls p) := by
  refine ⟨fun x y hx hs => ?_, fun {o x y r} ho hx hs => ?_⟩
  · have hd : Disturbed x y := hs.disturbed
    exact ⟨hd.has_target.trans hx.1, hd.last_target.trans hx.2⟩
  · obtain ⟨e, q, hy⟩ := hs.passive ho
    have hy : y = { x with last_error_ := e, prog := q } := hy
    rw [hy]
    exact hx

/-- **A remembered target is held.** -/
theorem halt_made {p : ℚ} (hp : cfg.drive.Accepts p cfg.hold_velocity_rpm_) :
    Triple (halting F cfg.hold_velocity_rpm_ (encode p)) (Recalls p) (IndraDriveActuator.halt cfg)
      fun _ => Made cfg.hold_velocity_rpm_ := by
  have hG : ∀ (_ : State) o, passive o = true → Owes cfg.hold_velocity_rpm_ (encode p) o :=
    fun _ _ => .inl
  have hmove : Triple (halting F cfg.hold_velocity_rpm_ (encode p)) (fun _ => True)
      (IndraDrive.move_to cfg.drive p cfg.hold_velocity_rpm_)
      fun _ => Made cfg.hold_velocity_rpm_ := by
    refine System.triple_move_to (E := fun _ => True) (N := fun _ => True) (R := Barred)
      (V := fun x => velocity x.drv.out_ = encode cfg.hold_velocity_rpm_) hG
      (fun _ _ _ _ => trivial) (fun _ _ _ _ => trivial) (fun _ _ _ _ => trivial)
      (fun x y hx hs => ?_) barred_kept (fun _ => made_stable) (fun _ => .inl) (fun x y b _ hs => ?_)
      (fun x y b _ hs => ?_) (fun hno => absurd hp hno)
      (fun _ _ => ⟨fun _ => .inr (.inl rfl), fun _ => .inr (.inr ⟨p, rfl, rfl⟩)⟩)
      (fun _ x y r _ hs => ?_) fun _ x y r hx hs => ?_
    · have hd : Disturbed x y := hs.disturbed
      exact hd.velocity.trans hx
    · have hb : b = x.enabled_ := hs.load_enabled
      obtain ⟨e, q, hy⟩ := hs.passive rfl
      have hy : y = { x with last_error_ := e, prog := q } := hy
      split
      · trivial
      · rename_i hoff
        rw [hy]
        exact .inr (hb.symm.trans (Bool.eq_false_iff.mpr hoff))
    · have hb : b = x.fault_ := hs.load_fault
      obtain ⟨e, q, hy⟩ := hs.passive rfl
      have hy : y = { x with last_error_ := e, prog := q } := hy
      split
      · rename_i hon
        rw [hy]
        exact .inl (hb.symm.trans hon)
      · trivial
    · obtain ⟨d, q, hy, -, hvalue⟩ := hs.write
      have hy : y = { x with drv := d, prog := q } := hy
      rw [hy]
      exact hvalue nofun
    · obtain ⟨d, q, hy, hst, -⟩ := hs.write
      have hy : y = { x with drv := d, prog := q } := hy
      have hspeed : velocity d.out_ = velocity x.drv.out_ := raw32_staged hst (.inr (by decide))
      refine .inr ?_
      rw [hy]
      exact hspeed.trans hx
  have hkept : (System.plain F).Kept InCall (fun _ => Owes cfg.hold_velocity_rpm_ (encode p))
      (Recalls p) := recalls_kept p
  have hstable : ∀ b : Bool, (halting F cfg.hold_velocity_rpm_ (encode p)).Stable
      fun x => Recalls p x ∧ (b = true → x.fault_ = true) := by
    intro b x y hx hs
    have hd : Disturbed x y := hs.disturbed
    exact ⟨hkept.stable x y hx.1 hs, fun hb => (hd.fault (hx.2 hb)).1⟩
  refine .op (M := fun (fault : Bool) x => Recalls p x ∧ (fault = true → x.fault_ = true))
    hkept.stable (fun x _ => hG x _ rfl) (fun x y fault hx hs => ?_) fun fault => ?_
  · obtain ⟨e, q, hy⟩ := hs.passive rfl
    have hy : y = { x with last_error_ := e, prog := q } := hy
    refine ⟨hkept.passive rfl hx hs, fun hf => ?_⟩
    rw [hy]
    exact hs.load_fault.symm.trans hf
  refine .ite (fun hf => ?_) fun _ => ?_
  · exact (Triple.pure (Q := fun _ => Made cfg.hold_velocity_rpm_) (a := true) made_stable).weaken
      (fun x hx => .inl (.inl (hx.2 hf))) fun _ _ => id
  refine .op (M := fun (has : Bool) x => Recalls p x ∧ has = true) (hstable fault)
    (fun x _ => hG x _ rfl) (fun x y has hx hs => ?_) fun has => ?_
  · exact ⟨hkept.passive rfl hx.1 hs, hs.load_has_target.trans hx.1.1⟩
  refine .ite (fun _ => ?_) fun hno => fun x hx => absurd hx.2 hno
  refine .op (M := fun (target : ℚ) _ => target = p)
    (fun x y hx hs => ⟨hkept.stable x y hx.1 hs, hx.2⟩) (fun x _ => hG x _ rfl)
    (fun x y target hx hs => hs.load_last_target.trans hx.1.2) fun target => ?_
  rintro x rfl
  -- the clamp leaves a target inside the limits
  have hclamp : ∀ q, q = target → Triple (halting F cfg.hold_velocity_rpm_ (encode target))
      (fun _ => True) (IndraDrive.move_to cfg.drive q cfg.hold_velocity_rpm_)
      fun _ => Made cfg.hold_velocity_rpm_ := by
    rintro q rfl
    exact hmove
  exact hclamp _ (clamp_eq hp.1.1 hp.1.2) x trivial

/-! ### What has happened so far -/

section Run

variable {A : Op → Prop} {Q : Bool → State → Prop} {s u t : State} {o : Op} {res : Resp o}

theorem reach_safe (hw : Wired u)
    (hu : u.prog.Safe ((System.plain F).setting InCall fun _ => A) Q u)
    (h : Reach (step F) InCall (· = u) t) :
    Wired t ∧ t.prog.Safe ((System.plain F).setting InCall fun _ => A) Q t := by
  have hI : ∀ x, x = u → Wired x := by
    rintro x rfl
    exact hw
  refine ⟨System.reach_wired (S := System.plain F) hI h, ?_⟩
  refine System.safe (S := System.plain F) (Q := fun _ => Q) hI ?_ ?_ h
  · rintro x rfl
    exact hu
  · exact fun _ _ _ _ _ _ hC => hC.elim

/-- The operation of a step is one that is allowed. -/
theorem step_allowed (hsafe : t.prog.Safe ((System.plain F).setting InCall fun _ => A) Q t)
    {t' : State} (hs : step F t .cmd = some t') :
    ∃ (o : Op) (v : State) (res : Resp o), A o ∧ exec F t o = some (v, res) ∧
      t'.drv = v.drv := by
  rcases step_cases hs with ⟨_, _, _, he, -⟩ | ⟨o, k, v, res, -, hprog, hx, rfl⟩ | ⟨_, he, -⟩ |
    ⟨he, -⟩
  · cases he
  · rw [hprog] at hsafe
    exact ⟨o, v, res, hsafe.guar, hx, rfl⟩
  · cases he
  · cases he

/-- **The outputs along a call.** What the allowed operations and the poll thread keep. -/
theorem reach_outputs {K : ProcessImage → Prop} (hw : Wired u)
    (hu : u.prog.Safe ((System.plain F).setting InCall fun _ => A) Q u)
    (hcmd : ∀ (x v : State) (o : Op) (res : Resp o), Wired x → A o → exec F x o = some (v, res) →
      K x.drv.out_ → K v.drv.out_)
    (hpoll : ∀ x v, Disturbed x v → K x.drv.out_ → K v.drv.out_) (hK : K u.drv.out_)
    (h : Reach (step F) InCall (· = u) t) : K t.drv.out_ := by
  induction h with
  | init hx =>
      rw [hx]
      exact hK
  | @step x y e hreach hC hs ih =>
      obtain ⟨hwired, hsafe⟩ := reach_safe hw hu hreach
      cases e with
      | call c rounds => exact hC.elim
      | cmd =>
          obtain ⟨o, v, res, ho, hx, hdrv⟩ := step_allowed hsafe hs
          rw [hdrv]
          exact hcmd x v o res hwired ho hx ih
      | poll i => exact hpoll x y (poll_disturbs hwired hs) ih
      | request_abort =>
          cases hs
          exact ih

/-- What one operation of `halt` may do. -/
theorem owes_effect {hold : ℚ} (hw : Wired s) (ho : Owes hold r o)
    (hx : exec F s o = some (t, res)) (htarget : target s.drv.out_ = r) :
    target t.drv.out_ = r ∧ (∀ i, 10 ≤ i → t.drv.out_.buf_[i]? = s.drv.out_.buf_[i]?) ∧
      control t.drv.out_ = control s.drv.out_ ∧
      (velocity t.drv.out_ = velocity s.drv.out_ ∨ velocity t.drv.out_ = encode hold) := by
  rcases ho with ho | rfl | ⟨p, rfl, hp⟩
  · obtain ⟨e, rfl⟩ := exec_passive ho hx
    exact ⟨htarget, fun _ _ => rfl, rfl, .inl rfl⟩
  · obtain ⟨d, hd, heq⟩ := Option.map_eq_some_iff.mp hx
    cases heq
    have hok := ProcessImage.toOption_eq_some hd
    have hst := write_staged hw hok
    have hvalue : velocity d.out_ = encode hold := write_value (c := .PosVelocity) hw nofun hok
    exact ⟨(raw32_staged hst (.inl (by decide))).trans htarget,
      fun i hi => hst.frame.outside i (.inr hi), control_staged hst (by decide), .inr hvalue⟩
  · obtain ⟨d, hd, heq⟩ := Option.map_eq_some_iff.mp hx
    cases heq
    have hok := ProcessImage.toOption_eq_some hd
    have hst := write_staged hw hok
    have hvalue : target d.out_ = encode p := write_value (c := .TargetPosition) hw nofun hok
    exact ⟨hvalue.trans hp,
      fun i hi => hst.frame.outside i (.inr ((by decide : 6 ≤ 10).trans hi)),
      control_staged hst (by decide), .inl (raw32_staged hst (.inr (by decide)))⟩

/-- What a call of `halt()` that began in `s` may have done by `t`. The control word is left
to the poll thread, which drops it when the drive is lost. -/
structure Held (F : FloatCast) (s t : State) : Prop where
  target : target t.drv.out_ = target s.drv.out_
  control : control t.drv.out_ = control s.drv.out_ ∨ control t.drv.out_ = 0
  others : ∀ i, 10 ≤ i → t.drv.out_.buf_[i]? = s.drv.out_.buf_[i]?
  velocity : velocity t.drv.out_ = velocity s.drv.out_ ∨
    velocity t.drv.out_ = encode s.cfg.hold_velocity_rpm_
  /-- `halt()` itself never touches the control word -/
  leaves : ∀ t', step F t .cmd = some t' → Threads.control t'.drv.out_ = Threads.control t.drv.out_
  /-- when it has returned, a drive that takes commands has the new speed -/
  done : ∀ b, t.prog = .pure b → Barred t ∨ Threads.velocity t.drv.out_ =
    encode s.cfg.hold_velocity_rpm_
  /-- and on one that takes none it does nothing at all -/
  barred : Barred s → Threads.velocity t.drv.out_ = Threads.velocity s.drv.out_ ∧
    ∀ t', step F t .cmd = some t' → t'.drv.out_ = t.drv.out_

/-- The part that a barred drive and one with a remembered target have in common. -/
theorem held_outputs (hold : ℚ) (hw : Wired u)
    (hu : u.prog.Safe ((System.plain F).setting InCall fun _ => A) Q u)
    (hA : ∀ o, A o → Owes hold (target u.drv.out_) o) (h : Reach (step F) InCall (· = u) t) :
    target t.drv.out_ = target u.drv.out_ ∧
      (control t.drv.out_ = control u.drv.out_ ∨ control t.drv.out_ = 0) ∧
      (∀ i, 10 ≤ i → t.drv.out_.buf_[i]? = u.drv.out_.buf_[i]?) ∧
      (velocity t.drv.out_ = velocity u.drv.out_ ∨ velocity t.drv.out_ = encode hold) := by
  refine reach_outputs (K := fun img => target img = target u.drv.out_ ∧
    (control img = control u.drv.out_ ∨ control img = 0) ∧
    (∀ i, 10 ≤ i → img.buf_[i]? = u.drv.out_.buf_[i]?) ∧
    (velocity img = velocity u.drv.out_ ∨ velocity img = encode hold)) hw hu ?_ ?_
    ⟨rfl, .inl rfl, fun _ _ => rfl, .inl rfl⟩ h
  · rintro x v o res hx ho hex ⟨htarget, hcontrol, hothers, hvelocity⟩
    obtain ⟨e1, e2, e3, e4⟩ := owes_effect hx (hA o ho) hex htarget
    refine ⟨e1, by rw [e3]; exact hcontrol, fun i hi => (e2 i hi).trans (hothers i hi), ?_⟩
    rcases e4 with hsame | hnew
    · rw [hsame]
      exact hvelocity
    · exact .inr hnew
  · rintro x v hd ⟨htarget, hcontrol, hothers, hvelocity⟩
    refine ⟨hd.target.trans htarget, ?_, fun i hi => ?_, by rw [hd.velocity]; exact hvelocity⟩
    · rcases hd.control with hsame | hzero
      · rw [hsame]
        exact hcontrol
      · exact .inr hzero
    · rcases hd.outputs with ⟨hst, -⟩ | hout
      · exact (hst.frame.outside i (.inr (by omega))).trans (hothers i hi)
      · rw [hout]
        exact hothers i hi

end Run

/-- On a barred drive. -/
theorem held_barred {rounds : ℕ → ℕ} {s u t : State} (hw : Wired s)
    (hs : step F s (.call .actuator_halt rounds) = some u) (hbar : Barred s)
    (h : Reach (step F) InCall (· = u) t) : Held F s t := by
  have hwired := step_wired hw hs
  obtain ⟨_, -, hu⟩ := step_call hs
  have hdrv : u.drv = s.drv := by rw [hu]
  have hsafe : u.prog.Safe (reading F) (fun _ => Barred) u := by
    rw [hu]
    exact halt_barred _ hbar
  obtain ⟨htarget, hcontrol, hothers, -⟩ := held_outputs
    s.cfg.hold_velocity_rpm_ hwired hsafe (fun _ ho => .inl ho) h
  have hstill : ∀ t', step F t .cmd = some t' → t'.drv.out_ = t.drv.out_ := by
    intro t' ht'
    obtain ⟨o, v, res, ho, hx, hdrv⟩ := step_allowed (reach_safe hwired hsafe h).2 ht'
    obtain ⟨e, rfl⟩ := exec_passive ho hx
    rw [hdrv]
  have hspeed : velocity t.drv.out_ = velocity s.drv.out_ := by
    refine reach_outputs (K := fun img => velocity img = velocity s.drv.out_) hwired hsafe
      (fun x v o res _ ho hx hK => ?_) (fun x v hd hK => hd.velocity.trans hK) (by rw [hdrv]) h
    obtain ⟨e, rfl⟩ := exec_passive ho hx
    exact hK
  rw [hdrv] at htarget hcontrol hothers
  refine ⟨htarget, hcontrol, hothers, .inl hspeed, fun t' ht' => by rw [hstill t' ht'],
    fun b hb => .inl ?_, fun _ => ⟨hspeed, hstill⟩⟩
  have hend := (reach_safe hwired hsafe h).2
  rw [hb] at hend
  exact hend.result

/-- On a drive that takes commands, with a remembered target. -/
theorem held_recalled {rounds : ℕ → ℕ} {s u t : State} (hw : Wired s)
    (hs : step F s (.call .actuator_halt rounds) = some u) (hbar : ¬ Barred s)
    (hhas : s.has_target_ = true) (htarget : target s.drv.out_ = encode s.last_target_)
    (hlimits : s.cfg.drive.Accepts s.last_target_ s.cfg.hold_velocity_rpm_)
    (h : Reach (step F) InCall (· = u) t) : Held F s t := by
  have hwired := step_wired hw hs
  obtain ⟨_, -, hu⟩ := step_call hs
  have hdrv : u.drv = s.drv := by rw [hu]
  have hsafe : u.prog.Safe (halting F s.cfg.hold_velocity_rpm_ (encode s.last_target_))
      (fun _ => Made s.cfg.hold_velocity_rpm_) u := by
    rw [hu]
    exact halt_made hlimits _ ⟨hhas, rfl⟩
  have hstaged : target u.drv.out_ = encode s.last_target_ := by rw [hdrv, htarget]
  obtain ⟨hsame, hcontrol, hothers, hvelocity⟩ := held_outputs _ hwired hsafe
    (fun o ho => by rw [hstaged]; exact ho) h
  rw [hdrv] at hsame hcontrol hothers hvelocity
  obtain ⟨ht, hend⟩ := reach_safe hwired hsafe h
  refine ⟨hsame, hcontrol, hothers, hvelocity, fun t' ht' => ?_, fun b hb => ?_,
    fun hs => absurd hs hbar⟩
  · obtain ⟨o, v, res, ho, hx, hv⟩ := step_allowed hend ht'
    rw [hv]
    exact (owes_effect ht ho hx (hsame.trans htarget)).2.2.1
  · rw [hb] at hend
    exact hend.result

end Halt

/-- **The last commanded target is held.** Between any two calls of the actuator, a remembered
target is the staged one and lies inside the limits; and `halt()` after an accepted setpoint
changes the speed only, on a barred drive nothing. -/
theorem hold_last_target {F : FloatCast} {x : State × Bool}
    (h : Reach (history F).step Actuator Start x) {b : Bool} (hidle : x.1.prog = .pure b) :
    (x.1.has_target_ = true → target x.1.drv.out_ = encode x.1.last_target_ ∧
      x.1.cfg.drive.min_position ≤ x.1.last_target_ ∧
      x.1.last_target_ ≤ x.1.cfg.drive.max_position) ∧
    (after x.2 x.1.call b = true → ∀ rounds u t,
      step F x.1 (.call .actuator_halt rounds) = some u →
      Reach (step F) InCall (· = u) t → Held F x.1 t) := by
  have hrem : Remembers (after x.2 x.1.call b) x.1 := reach_kept h hidle
  have hI : ∀ y : State × Bool, Start y → Wired y.1 := fun y hy => init_wired hy.1.init
  have hwired : Wired x.1 := System.reach_wired (S := history F) hI h
  have hhold : 0 < x.1.cfg.hold_velocity_rpm_ ∧
      x.1.cfg.hold_velocity_rpm_ ≤ x.1.cfg.drive.max_velocity_rpm :=
    System.reach_cfg (S := history F) (P := fun cfg => 0 < cfg.hold_velocity_rpm_ ∧
      cfg.hold_velocity_rpm_ ≤ cfg.drive.max_velocity_rpm) hI (fun y hy => hy.1.limits.2) h
  refine ⟨hrem.target, fun ha rounds u t hu ht => ?_⟩
  by_cases hbar : Barred x.1
  · exact held_barred hwired hu hbar ht
  · have hhas : x.1.has_target_ = true :=
      (hrem.held ha).resolve_right fun hoff => hbar (.inr hoff)
    obtain ⟨htarget, hlimits⟩ := hrem.target hhas
    exact held_recalled hwired hu hbar hhas htarget ⟨hlimits, hhold⟩ ht

/-- A start that finds the drive ready, and a setpoint of 100 degrees at 20 rpm. -/
def accepts_setpoint : List Event :=
  [.call .actuator_start fun _ => 0] ++ commands 2 ++ to_send ++ answered 0xC002 ++ quiet 1 ++
    commands 2 ++ to_send ++ answered 0xC002 ++ quiet 1 ++ commands 36 ++
    [.call (.write_setpoint 100 120) fun _ => 0] ++ commands 6

theorem hold_last_target_bench :
    ∃ x u t, Reach (history no_floats).step Actuator Start x ∧
      x.1.call = .write_setpoint 100 120 ∧ x.1.prog = .pure true ∧
      decode (velocity x.1.drv.out_) = 20 ∧
      step no_floats x.1 (.call .actuator_halt fun _ => 0) = some u ∧
      Reach (step no_floats) InCall (· = u) t ∧ t.prog = .pure true ∧
      decode (velocity t.drv.out_) = 10 ∧ x.1.has_target_ = true ∧
      target x.1.drv.out_ = encode x.1.last_target_ ∧ Held no_floats x.1 t := by
  have heval : ((WavemakerController.IndraDriveActuator.construct (bench_params 500)).bind fun a =>
      (run (guarded (history no_floats).step Actuator) (built a, false) accepts_setpoint).bind
        fun x => (step no_floats x.1 (.call .actuator_halt fun _ => 0)).bind fun u =>
          (run (guarded (step no_floats) InCall) u (commands 7)).map fun t =>
            ((x.1.call, OffCommand.returned x.1.prog, decode (velocity x.1.drv.out_),
              x.1.has_target_), OffCommand.returned t.prog, decode (velocity t.drv.out_))) =
      some ((.write_setpoint 100 120, some true, 20, true), some true, 10) := by
    decide +kernel
  obtain ⟨a, ha, h⟩ := Option.bind_eq_some_iff.mp heval
  obtain ⟨x, hx, h⟩ := Option.bind_eq_some_iff.mp h
  obtain ⟨u, hu, h⟩ := Option.bind_eq_some_iff.mp h
  obtain ⟨t, ht, h⟩ := Option.map_eq_some_iff.mp h
  simp only [Prod.mk.injEq] at h
  obtain ⟨⟨hcall, hret, hspeed, hhas⟩, hdone, hnew⟩ := h
  have hreach : Reach (history no_floats).step Actuator Start x :=
    .guarded_run _ (.init ⟨built_bench ha, rfl⟩) hx
  have hin : Reach (step no_floats) InCall (· = u) t := .guarded_run _ (.init rfl) ht
  have hidle := OffCommand.eq_pure_of_returned hret
  have haccepted : after x.2 x.1.call true = true := by
    rw [hcall]
    exact Bool.or_true x.2
  obtain ⟨htarget, hheld⟩ := hold_last_target hreach hidle
  exact ⟨x, u, t, hreach, hcall, hidle, hspeed, hu, hin, OffCommand.eq_pure_of_returned hdone, hnew,
    hhas, (htarget hhas).1, hheld haccepted _ u t hu hin⟩

end Mgate.Threads.HoldTarget
