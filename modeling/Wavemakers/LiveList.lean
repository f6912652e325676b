/-
A drive that the gateway does not list stays off.

`enable()` gives up before its first control word unless the gateway's live list has the drive's
bit, and nobody else sets `enabled_`. `halt` and `disable` ask `enabled_` before they stage
`kDriveOn`, and `clear_errors` stages on top of what is there. So as long as no status block of the
gateway lists the drive, the drive is not enabled, no control word that is staged, under way or
acknowledged has `kDriveOn` or `kDriveStart`, and every call that needs the drive returns false, in
every interleaving with the poll thread (`unlisted_stays_off`).

A status block has as many registers as the configuration says, from 0 to 65535. Where they end in
front of the register of the drive's bit there is no block that lists it: such a configuration is
taken, and the drive cannot be enabled by anything the gateway sends (`short_block_stays_off`).
-/
import Wavemakers.FailedEnable

set_option autoImplicit false

namespace Mgate.Threads.LiveList

open Splice Interleave Atomic Atomic.Prog MGateDriver
open FailedEnable (still still_zero)
open FaultLatch (transmits poll_latched)

/-! ## What the gateway sends -/

/-- The status block that is taken over in this step. -/
def reported (s : State) : Event → Option (List UInt16)
  | .poll (.read r regs) =>
      match s.poll with
      | .status => if s.drv.cfg_.status_word_count ≠ 0 ∧ r.ok then some regs else none
      | _ => none
  | _ => none

/-- It does not list the drive. -/
def Unlisted (s : State) (e : Event) : Prop :=
  ∀ regs ∈ reported s e, live_list s.cfg.drive regs = false

instance (s : State) (e : Event) : Decidable (Unlisted s e) :=
  Option.decidableForallMem (reported s e)

/-- **What the poll thread hands on**: status blocks to the driver, and the registers of a flush to
the gateway. -/
structure Relayed (s t : State) (i : Input) : Prop where
  status : t.drv.status_ = s.drv.status_ ∨ reported s (.poll i) = some t.drv.status_
  gw : t.gw = s.gw ∨ ∃ lo hi regs sent, s.poll = .send lo hi regs sent ∧ sent < regs.length ∧
    t.gw = acknowledge s lo regs sent

theorem status_clear (d : MGateDriver) (lo hi : ℕ) : (d.flush_clear lo hi).status_ = d.status_ := by
  unfold flush_clear
  split
  · rfl
  · split
    · rfl
    · rfl

theorem poll_relayed {F : FloatCast} {s t : State} {i : Input} (h : Wired s)
    (hx : poll_step F s i = some t) : Relayed s t i := by
  have quiet : ∀ u : State, u.drv.status_ = s.drv.status_ → u.gw = s.gw → Relayed s u i :=
    fun u hs hg => ⟨.inl hs, .inl hg⟩
  have zero : ∀ f : State → State, (∀ u, (f u).drv = u.drv ∧ (f u).gw = u.gw) →
      (set_control F s 0).map f = some t → Relayed s t i := by
    intro f hf hx
    obtain ⟨d, hd, hst, -⟩ := set_control_spec F h 0
    rw [hd, Option.map_some, Option.some.injEq] at hx
    obtain ⟨hdrv, hgw⟩ := hf { s with drv := d }
    subst hx
    exact quiet _ (by rw [hdrv]; exact hst.others.2.2) hgw
  unfold poll_step at hx
  cases hp : s.poll <;> simp only [hp] at hx
  case none => cases hx
  case done => cases hx
  case zero =>
    refine zero _ ?_ hx
    exact fun u => ⟨rfl, rfl⟩
  case latch_zero why =>
    refine zero _ ?_ hx
    exact fun u => ⟨rfl, rfl⟩
  case connect =>
    split at hx
    · cases hx
      exact quiet _ rfl rfl
    · split at hx
      · split at hx
        · cases hx
          exact quiet _ rfl rfl
        · cases hx
          exact quiet _ rfl rfl
      · cases hx
  case span =>
    split at hx
    · cases hx
      exact quiet _ rfl rfl
    · cases hx
      exact quiet _ rfl rfl
  case copy lo hi =>
    obtain ⟨regs, -, rfl⟩ := Option.map_eq_some_iff.mp hx
    exact quiet _ rfl rfl
  case send lo hi regs sent =>
    split at hx
    · rename_i hmore
      split at hx
      · split at hx
        · cases hx
          exact ⟨.inl rfl, .inr ⟨lo, hi, regs, sent, hp, hmore, rfl⟩⟩
        · cases hx
          refine ⟨.inl rfl, ?_⟩
          simp only
          split
          · exact .inr ⟨lo, hi, regs, sent, hp, hmore, rfl⟩
          · exact .inl rfl
      · cases hx
    · cases hx
      exact quiet _ (status_clear _ _ _) rfl
  case inputs =>
    split at hx
    · cases hx
      exact quiet _ rfl rfl
    · split at hx
      · split at hx
        · split at hx
          · obtain ⟨img, -, rfl⟩ := Option.map_eq_some_iff.mp hx
            exact quiet _ rfl rfl
          · cases hx
        · cases hx
          exact quiet _ rfl rfl
      · cases hx
  case status =>
    split at hx
    · cases hx
      exact quiet _ rfl rfl
    · rename_i hcount
      split at hx
      · split at hx
        · rename_i hok
          split at hx
          · cases hx
            refine ⟨.inr ?_, .inl rfl⟩
            simp only [reported, hp]
            exact if_pos ⟨hcount, hok⟩
          · cases hx
        · cases hx
          exact quiet _ rfl rfl
      · cases hx
  case account ok =>
    split at hx
    · cases hx
      exact quiet _ rfl rfl
    · cases hx
  case error | diag =>
    obtain ⟨d, -, rfl⟩ := Option.map_eq_some_iff.mp hx
    exact quiet _ rfl rfl
  case latch_reason why =>
    split at hx
    · cases hx
      exact quiet _ rfl rfl
    · cases hx
      exact quiet _ rfl rfl
  all_goals
    cases hx
    exact quiet _ rfl rfl

/-- The command thread has to do with neither. -/
theorem exec_relayed {F : FloatCast} {s t : State} {o : Op} {r : Resp o} (h : Wired s)
    (hx : exec F s o = some (t, r)) : t.drv.status_ = s.drv.status_ := by
  cases o with
  | set_control cw =>
      obtain ⟨d, hd, hst, -⟩ := set_control_spec F h cw
      simp only [exec, hd, Option.map_some, Option.some.injEq, Prod.mk.injEq] at hx
      obtain ⟨rfl, -⟩ := hx
      exact hst.others.2.2
  | write c v =>
      simp only [exec, Option.map_eq_some_iff, Prod.mk.injEq] at hx
      obtain ⟨d, hd, rfl, -⟩ := hx
      obtain ⟨⟨lo, hi, hst⟩, -⟩ := write_control F h (ProcessImage.toOption_eq_some hd)
      exact hst.others.2.2
  | driver_start =>
      simp only [exec, Option.some.injEq, Prod.mk.injEq] at hx
      obtain ⟨rfl, -⟩ := hx
      split
      · rfl
      · rfl
  | join =>
      simp only [exec] at hx
      split at hx
      · cases hx
        rfl
      · cases hx
  | read_int u | read u | read_output_int u =>
      simp only [exec, Option.map_eq_some_iff, Prod.mk.injEq] at hx
      obtain ⟨_, -, rfl, -⟩ := hx
      rfl
  | _ =>
      cases hx
      rfl

/-- The control word reads back as it is staged. -/
theorem read_control {F : FloatCast} {s : State} (h : Wired s) {i : ℤ}
    (hx : s.drv.read_output_int F (s.tag .ControlWord) = .ok i) :
    UInt16.ofNat (to_unsigned 16 i) = control s.drv.out_ := by
  have hroom : (0 : UInt64).toNat + 2 ≤ s.drv.out_.size := by
    have := h.room
    show 0 + 2 ≤ _
    omega
  obtain ⟨a, b, rest, hbuf⟩ : ∃ a b rest, s.drv.out_.buf_ = a :: b :: rest := by
    have hlen : 2 ≤ s.drv.out_.buf_.length := hroom
    cases hb : s.drv.out_.buf_ with
    | nil =>
        rw [hb] at hlen
        cases hlen
    | cons a l =>
        cases l with
        | nil =>
            rw [hb] at hlen
            exact absurd hlen (by simp)
        | cons b rest => exact ⟨a, b, rest, rfl⟩
  have hget : s.drv.out_.get_int F (s.cfg.drive.entry .ControlWord) =
      .ok (((a.toNat * 256 + b.toNat : ℕ)) : ℤ) := by
    have hbe : s.drv.out_.get_be 0 2 .BigEndian = .ok (a.toNat * 256 + b.toNat) := by
      unfold ProcessImage.get_be
      rw [ProcessImage.check_eq_ok hroom]
      unfold ProcessImage.peek
      rw [if_pos hroom, hbuf]
      show Except.ok ((0 * 256 + a.toNat) * 256 + b.toNat) = _
      rw [Nat.zero_mul, Nat.zero_add]
    unfold ProcessImage.get_int ProcessImage.get_u16
    simp only [IndraDriveConfig.entry, hbe]
    rfl
  unfold read_output_int at hx
  rw [tag_checked_entry h .ControlWord rfl] at hx
  have heq : (((a.toNat * 256 + b.toNat : ℕ)) : ℤ) = i := Except.ok.inj (hget.symm.trans hx)
  have ha := a.toNat_lt
  have hb := b.toNat_lt
  rw [← heq, control, hbuf, ← UInt16.toNat_inj, UInt16.toNat_ofNat']
  show _ = (word a b).toNat
  rw [toNat_word]
  unfold to_unsigned
  omega

/-! ## What stays dark -/

/-- The operation does not switch the drive on. -/
def dim : Op → Prop
  | .store_enabled b => b = false
  | .set_control cw => still cw
  | _ => True

structure Dark (cfg : IndraDriveActuator.Config) (s : State) : Prop where
  wired : Wired s
  cfg_eq : s.cfg = cfg
  unlisted : live_list cfg.drive s.drv.status_ = false
  disabled : s.enabled_ = false
  staged : still (control s.drv.out_)
  sent : ∀ cw, transmits s.poll = some cw → still cw
  held : still (OffCommand.gateway_control s)

variable {F : FloatCast} {cfg : IndraDriveActuator.Config} {s t : State}

/-- The poll thread only ever stages 0. -/
theorem poll_dark {i : Input} (h : Dark cfg s) (hu : Unlisted s (.poll i))
    (hx : poll_step F s i = some t) : Dark cfg t := by
  have hpoll := poll_spec h.wired hx
  have hrelayed := poll_relayed h.wired hx
  refine ⟨hpoll.wired h.wired, hpoll.cfg.trans h.cfg_eq, ?_,
    (poll_disturbs h.wired hx).disabled h.disabled, ?_, ?_, ?_⟩
  · rcases hrelayed.status with hsame | hnew
    · rw [hsame]
      exact h.unlisted
    · rw [← h.cfg_eq]
      exact hu _ hnew
  · rcases hpoll.control with hc | hc
    · rw [hc]
      exact h.staged
    · rw [hc]
      exact still_zero
  · intro cw hcw
    rw [(poll_latched h.wired hx).transmits cw hcw]
    exact h.staged
  · rcases hrelayed.gw with hsame | ⟨lo, hi, regs, sent, hp, hmore, hack⟩
    · unfold OffCommand.gateway_control
      rw [hsame]
      exact h.held
    · have hfirst := OffCommand.acknowledged_control h.wired hp hmore
      rw [← hack] at hfirst
      unfold OffCommand.gateway_control at hfirst ⊢
      rw [hfirst]
      split
      · rename_i hlo
        refine h.sent _ ?_
        rw [hp, transmits, if_pos hlo, List.getElem?_eq_getElem (by omega),
          List.getD_eq_getElem _ _ (by omega)]
      · exact h.held

theorem exec_dark {o : Op} {r : Resp o} (h : Dark cfg s) (ho : dim o)
    (hx : exec F s o = some (t, r)) : Dark cfg t := by
  have hex := exec_spec h.wired hx
  have henabled : o ≠ .store_enabled true := by
    rintro rfl
    cases ho
  refine ⟨hex.wired h.wired, hex.cfg.trans h.cfg_eq, ?_,
    (exec_stores hx).disabled henabled h.disabled, ?_, ?_, ?_⟩
  · rw [exec_relayed h.wired hx]
    exact h.unlisted
  · rcases hex.control with hc | ⟨cw, rfl, hc⟩
    · rw [hc]
      exact h.staged
    · rw [hc]
      exact ho
  · -- a new poll thread has sent nothing
    intro cw hcw
    rcases hex.poll with hp | ⟨-, hp⟩ | ⟨-, hp⟩
    · rw [hp] at hcw
      exact h.sent cw hcw
    · rw [hp] at hcw
      cases hcw
    · rw [hp] at hcw
      cases hcw
  · unfold OffCommand.gateway_control
    rw [hex.gw]
    exact h.held

/-- What is left of the call is not part of it. -/
theorem Dark.call (h : Dark cfg s) (c : Call) (p : Drive Bool) :
    Dark cfg { s with call := c, prog := p } :=
  ⟨h.wired.of_shape (.refl _) rfl rfl h.wired.fits, h.cfg_eq, h.unlisted, h.disabled, h.staged,
    h.sent, h.held⟩

theorem init_dark (h : Init s) : Dark s.cfg s := by
  have hwired := init_wired h
  obtain ⟨gateway, cfg, hdrv, -, -, -, -, -, -, henabled, -, -, -, -, -, hgw, -, -, hpoll⟩ := h
  obtain ⟨heq, -⟩ := add_tags_spec hdrv
  refine ⟨hwired, rfl, ?_, henabled, ?_, fun cw hcw => ?_, ?_⟩
  · -- the first register is zero, or there is none
    have hzero : s.drv.status_.getD 0 0 = 0 := by
      rw [heq]
      simp only [MGateDriver.create, List.getD_eq_getElem?_getD, List.getElem?_replicate]
      split
      · rfl
      · rfl
    unfold live_list
    rw [hzero]
    simp
  · have hzero : ∀ k, s.drv.out_.buf_.getD k 0 = 0 := by
      intro k
      rw [heq]
      simp only [MGateDriver.create, ProcessImage.resize, List.getD_eq_getElem?_getD,
        List.getElem?_replicate]
      split
      · rfl
      · rfl
    unfold control
    rw [hzero, hzero]
    exact still_zero
  · rw [hpoll] at hcw
    cases hcw
  · have hzero : OffCommand.gateway_control s = 0 := by
      unfold OffCommand.gateway_control
      rw [hgw, List.getD_eq_getElem?_getD, List.getElem?_replicate]
      split
      · rfl
      · rfl
    rw [hzero]
    exact still_zero

/-! ## The calls -/

abbrev inside (F : FloatCast) : Setting State Resp :=
  (System.plain F).setting Unlisted fun _ => dim

theorem dark_stable : (inside F).Stable (Dark cfg) := by
  intro x y hx hs
  rcases hs.step with ⟨i, hu, hstep⟩ | ⟨-, hstep⟩
  · exact poll_dark hx hu hstep
  · cases hstep
    exact ⟨hx.wired.of_shape (.refl _) rfl rfl hx.wired.fits, hx.cfg_eq, hx.unlisted, hx.disabled,
      hx.staged, hx.sent, hx.held⟩

theorem own_dark {x y : State} {o : Op} {r : Resp o}
    (h : (System.plain F).Own Unlisted x o y r) (ho : dim o) (hx : Dark cfg x) : Dark cfg y := by
  obtain ⟨k, u, hexec, hy⟩ := h.exec_eq
  have hy : y = { u with prog := k r } := hy
  rw [hy]
  exact (exec_dark hx ho hexec).call u.call (k r)

theorem dim_passive {o : Op} (ho : passive o = true) : dim o := by
  cases o <;> trivial

theorem dark_kept : (System.plain F).Kept Unlisted (fun _ => dim) (Dark cfg) :=
  ⟨dark_stable, fun ho hx hs => own_dark hs (dim_passive ho) hx⟩

/-- Dark, and the call has failed. -/
def Off (cfg : IndraDriveActuator.Config) (b : Bool) (s : State) : Prop := b = false ∧ Dark cfg s

theorem off_stable (b : Bool) : (inside F).Stable (Off cfg b) :=
  fun x y hx hs => ⟨hx.1, dark_stable x y hx.2 hs⟩

section Programs

variable {α : Type}

/-- A program that does not switch on. -/
theorem triple_dim {p : Drive α} (hp : p.All dim) :
    Triple (inside F) (Dark cfg) p fun _ => Dark cfg :=
  Triple.frame dark_stable (fun _ _ ho _ => ho) (fun _ _ _ _ ho hx hs => own_dark hs ho hx) hp

theorem triple_reads {p : Drive α} (hp : Passive p) : Triple (inside F) (Dark cfg) p fun _ => Dark cfg :=
  triple_dim (hp.mono fun _ => dim_passive)

theorem triple_fails (why : DriveError) : Triple (inside F) (Dark cfg) (IndraDrive.fail why) (Off cfg) :=
  System.triple_fail (fun _ _ => dim_passive) dark_kept off_stable fun _ _ _ hx hs =>
    ⟨rfl, dark_kept.passive rfl hx hs⟩

/-- `enabled_` answers false. -/
theorem triple_enabled {k : Bool → Drive α} {Q : α → State → Prop}
    (hk : Triple (inside F) (Dark cfg) (k false) Q) :
    Triple (inside F) (Dark cfg) (act .load_enabled >>= k) Q := by
  refine .op (M := fun (b : Bool) x => b = false ∧ Dark cfg x) dark_stable
    (fun _ _ => trivial) (fun x y b hx hs => ?_) fun b => ?_
  · refine ⟨?_, dark_kept.passive rfl hx hs⟩
    rw [hs.load_enabled]
    exact hx.disabled
  · rintro x ⟨rfl, hx⟩
    exact hk x hx

theorem still_operating : still indra_cw.kOperatingMode := by decide

theorem triple_move_to (position velocity_rpm : ℚ) :
    Triple (inside F) (Dark cfg) (IndraDrive.move_to cfg.drive position velocity_rpm) (Off cfg) := by
  refine triple_enabled ?_
  refine .bind (triple_reads (passive_act rfl)) fun fault => .ite (fun _ => ?_) fun _ =>
    triple_fails _
  exact .bind (triple_reads (passive_act rfl)) fun reason => triple_fails _

theorem triple_halt : Triple (inside F) (Dark cfg) IndraDrive.halt fun _ => Dark cfg :=
  triple_enabled (Triple.pure (Q := fun _ => Dark cfg) dark_stable)

/-- Behind the first load: `online` is not asked for either. -/
theorem triple_disable (rounds : ℕ → ℕ) :
    Triple (inside F) (Dark cfg) (IndraDrive.disable rounds) fun _ => Dark cfg := by
  refine triple_enabled ?_
  show Triple (inside F) (Dark cfg) (do
    act (.store_enabled false)
    IndraDrive.set_control indra_cw.kOperatingMode
    let online : Bool ← act .load_online
    if online then
      let stopped ← IndraDrive.wait_for "torque off" without_torque false (rounds 1)
      return stopped && true
    return true) fun _ => Dark cfg
  refine .bind (triple_dim (all_lift rfl)) fun _ => ?_
  refine .bind (triple_dim (all_lift still_operating)) fun _ => ?_
  refine .bind (triple_reads (passive_act rfl)) fun online => .ite (fun _ => ?_) fun _ => ?_
  · exact .bind (triple_reads (passive_wait_for _ _ _ _)) fun stopped =>
      Triple.pure (Q := fun _ => Dark cfg) dark_stable
  · exact Triple.pure (Q := fun _ => Dark cfg) dark_stable

/-- What `clear_errors` stages is what was there, with the bit for C5. -/
theorem still_clearing {cw : UInt16} (h : still cw) :
    still (cw &&& ~~~indra_cw.kClearErrors) ∧
      still ((cw &&& ~~~indra_cw.kClearErrors) ||| indra_cw.kClearErrors) := by
  have hbase : still (cw &&& ~~~indra_cw.kClearErrors) := by
    unfold still at h ⊢
    rw [UInt16.and_assoc, show ~~~indra_cw.kClearErrors &&&
      (indra_cw.kDriveOn ||| indra_cw.kDriveStart) =
        indra_cw.kDriveOn ||| indra_cw.kDriveStart by decide]
    exact h
  refine ⟨hbase, ?_⟩
  have hdistrib : ∀ a b c : UInt16, (a ||| b) &&& c = (a &&& c) ||| (b &&& c) :=
    fun a b c => UInt16.toBitVec_inj.mp BitVec.and_or_distrib_right
  unfold still at hbase ⊢
  rw [hdistrib, hbase]
  decide

theorem triple_clear_errors (rounds : ℕ) :
    Triple (inside F) (Dark cfg) (IndraDrive.clear_errors rounds) fun _ => Dark cfg := by
  refine .op (M := fun (i : ℤ) x => still (UInt16.ofNat (to_unsigned 16 i)) ∧ Dark cfg x) dark_stable
    (fun _ _ => trivial) (fun x y i hx hs => ?_) fun i => ?_
  · refine ⟨?_, dark_kept.passive rfl hx hs⟩
    obtain ⟨k, u, hexec, -⟩ := hs.exec_eq
    obtain ⟨v, hv, heq⟩ := Option.map_eq_some_iff.mp hexec
    rw [Prod.mk.injEq] at heq
    rw [← heq.2, read_control hx.wired (ProcessImage.toOption_eq_some hv)]
    exact hx.staged
  · rintro x ⟨hstill, hx⟩
    obtain ⟨hbase, hclear⟩ := still_clearing hstill
    have hset : ∀ {cw : UInt16}, still cw →
        Triple (inside F) (Dark cfg) (IndraDrive.set_control cw) fun _ => Dark cfg :=
      fun hcw => triple_dim (all_lift hcw)
    refine Triple.bind (hset hclear) (fun _ => ?_) x hx
    refine .bind (triple_reads (passive_wait_for _ _ _ _)) fun ok => ?_
    exact .bind (hset hbase) fun _ =>
      Triple.pure (Q := fun _ => Dark cfg) dark_stable

/-- `slave_live()` answers false, offline or not. -/
theorem triple_slave_live :
    Triple (inside F) (Dark cfg) (IndraDrive.slave_live cfg.drive) (Off cfg) := by
  refine .bind (triple_reads (passive_act rfl)) fun online => .ite (fun _ => ?_) fun _ => ?_
  · exact (Triple.pure (off_stable false)).weaken (fun x hx => ⟨rfl, hx⟩) fun _ _ => id
  · refine .op (M := fun (st : List UInt16) x => live_list cfg.drive st = false ∧ Dark cfg x)
      dark_stable (fun _ _ => trivial) (fun x y st hx hs => ?_) fun st => ?_
    · refine ⟨?_, dark_kept.passive rfl hx hs⟩
      obtain ⟨k, u, hexec, -⟩ := hs.exec_eq
      cases hexec
      exact hx.unlisted
    · exact Triple.pure (Q := Off cfg) fun x y hx hs => ⟨hx.1, dark_stable x y hx.2 hs⟩

/-- What follows a check that has answered false. -/
theorem triple_off {k : Bool → Drive α} {Q : α → State → Prop}
    (hk : Triple (inside F) (Dark cfg) (k false) Q) (b : Bool) :
    Triple (inside F) (Off cfg b) (k b) Q := by
  rintro x ⟨rfl, hx⟩
  exact hk x hx

theorem triple_enable (rounds : ℕ → ℕ) :
    Triple (inside F) (Dark cfg) (IndraDrive.enable cfg.drive rounds) (Off cfg) := by
  refine .bind (triple_dim (all_lift trivial)) fun _ => ?_
  refine .bind (triple_reads (passive_act rfl)) fun online => .ite (fun _ => triple_fails _) fun _ => ?_
  exact .bind triple_slave_live (triple_off (triple_fails _))

theorem dim_driver_stop : driver_stop.All dim :=
  all_driver_stop trivial trivial trivial trivial

theorem triple_stop_and_fail :
    Triple (inside F) (Dark cfg) IndraDriveActuator.stop_and_fail (Off cfg) := by
  refine .bind (triple_dim dim_driver_stop) fun _ => ?_
  exact (Triple.pure (off_stable false)).weaken (fun x hx => ⟨rfl, hx⟩) fun _ _ => id

/-- `start()` does not get as far as `enable()`. -/
theorem triple_start (rounds : ℕ → ℕ) :
    Triple (inside F) (Dark cfg) (IndraDriveActuator.start cfg rounds) (Off cfg) := by
  refine .bind (triple_dim (all_lift trivial)) fun _ => ?_
  refine .bind (triple_dim (all_lift trivial)) fun _ => ?_
  refine .bind (triple_reads (passive_wait_for_data _)) fun data =>
    .ite (fun _ => triple_stop_and_fail) fun _ => ?_
  refine .bind (triple_reads (passive_act rfl)) fun first =>
    .bind (triple_reads (passive_act rfl)) fun second => ?_
  refine .ite (fun _ => triple_stop_and_fail) fun _ =>
    .ite (fun _ => triple_stop_and_fail) fun _ => ?_
  refine .ite (fun _ => triple_stop_and_fail) fun _ =>
    .ite (fun _ => triple_stop_and_fail) fun _ => ?_
  exact .bind triple_slave_live (triple_off triple_stop_and_fail)

theorem triple_write_setpoint (position velocity : ℚ) :
    Triple (inside F) (Dark cfg) (IndraDriveActuator.write_setpoint cfg position velocity)
      (Off cfg) := by
  refine .bind (triple_move_to _ _) (triple_off ?_)
  exact (Triple.pure (off_stable false)).weaken (fun x hx => ⟨rfl, hx⟩) fun _ _ => id

theorem triple_actuator_halt :
    Triple (inside F) (Dark cfg) (IndraDriveActuator.halt cfg) fun _ => Dark cfg := by
  have hmove : ∀ p, Triple (inside F) (Dark cfg)
      (IndraDrive.move_to cfg.drive p cfg.hold_velocity_rpm_) fun _ => Dark cfg :=
    fun p => (triple_move_to _ _).weaken (fun _ => id) fun _ _ hx => hx.2
  refine .bind (triple_reads (passive_act rfl)) fun fault => .ite (fun _ => ?_) fun _ => ?_
  · exact Triple.pure (Q := fun _ => Dark cfg) dark_stable
  refine .bind (triple_reads (passive_act rfl)) fun has => .ite (fun _ => ?_) fun _ => ?_
  · exact .bind (triple_reads (passive_act rfl)) fun target => hmove _
  · exact .bind (triple_reads (passive_act rfl)) fun position => hmove _

theorem triple_actuator_stop (rounds : ℕ → ℕ) :
    Triple (inside F) (Dark cfg) (IndraDriveActuator.stop rounds) fun _ => Dark cfg := by
  refine .bind (triple_dim (all_lift trivial)) fun _ => .bind (triple_disable rounds) fun _ => ?_
  exact .bind (triple_dim dim_driver_stop) fun _ => Triple.pure (Q := fun _ => Dark cfg) dark_stable

/-- The calls that need the drive. -/
def needs_drive : Call → Bool
  | .enable | .move_to _ _ | .actuator_start | .write_setpoint _ _ => true
  | _ => false

/-- When call `c` has returned `b`. -/
def Returned (cfg : IndraDriveActuator.Config) (c : Call) (b : Bool) (s : State) : Prop :=
  (needs_drive c = true → b = false) ∧ Dark cfg s

theorem returned_stable (c : Call) (b : Bool) : (inside F).Stable (Returned cfg c b) :=
  fun x y hx hs => ⟨hx.1, dark_stable x y hx.2 hs⟩

/-- **Every call.** -/
theorem program_returned (c : Call) (rounds : ℕ → ℕ) :
    Triple (inside F) (Dark cfg) (c.program cfg rounds) (Returned cfg c) := by
  have hoff : ∀ {p : Drive Bool}, Triple (inside F) (Dark cfg) p (Off cfg) →
      Triple (inside F) (Dark cfg) p (Returned cfg c) :=
    fun hp => hp.weaken (fun _ => id) fun b x hx => ⟨fun _ => hx.1, hx.2⟩
  have hany : ∀ {p : Drive Bool}, needs_drive c = false →
      Triple (inside F) (Dark cfg) p (fun _ => Dark cfg) →
      Triple (inside F) (Dark cfg) p (Returned cfg c) := by
    intro p hc hp
    refine hp.weaken (fun _ => id) fun b x hx => ⟨fun hn => ?_, hx⟩
    rw [hc] at hn
    cases hn
  cases c with
  | enable => exact hoff (triple_enable rounds)
  | move_to p v => exact hoff (triple_move_to p v)
  | actuator_start => exact hoff (triple_start rounds)
  | write_setpoint p v => exact hoff (triple_write_setpoint p v)
  | halt => exact hany rfl triple_halt
  | disable => exact hany rfl (triple_disable rounds)
  | clear_errors => exact hany rfl (triple_clear_errors _)
  | actuator_halt => exact hany rfl triple_actuator_halt
  | actuator_stop => exact hany rfl (triple_actuator_stop rounds)
  | driver_start =>
      exact hany rfl (triple_dim (all_bind (all_lift trivial) fun _ => all_pure _ _))
  | driver_stop =>
      exact hany rfl (triple_dim (all_bind dim_driver_stop fun _ => all_pure _ _))
  | shutdown =>
      refine hany rfl (triple_dim (all_bind (all_lift rfl) fun _ => ?_))
      exact all_bind (all_lift still_zero) fun _ => all_pure _ _

end Programs

/-! ## The runs -/

/-- Nothing has been called. -/
structure Start (cfg : IndraDriveActuator.Config) (s : State) : Prop where
  init : Init s
  fresh : s.call = .driver_stop
  cfg_eq : s.cfg = cfg

theorem reach_safe (h : Reach (step F) Unlisted (Start cfg) s) :
    s.prog.Safe (inside F) (Returned cfg s.call) s := by
  refine System.safe (S := System.plain F) (fun x hx => init_wired hx.init) ?_ ?_ h
  · intro x hx
    obtain ⟨gateway, _, -, -, -, -, -, -, -, -, -, -, -, -, -, -, -, hprog, -⟩ := hx.init
    refine System.safe_idle (Q := Returned cfg x.call) (returned_stable _ _) hprog ⟨?_, ?_⟩
    · rw [hx.fresh]
      rintro ⟨⟩
    · rw [← hx.cfg_eq]
      exact init_dark hx.init
  · intro x y c rounds b _ _ _ hQ _ hy
    have hcfg : x.cfg = cfg := hQ.2.cfg_eq
    have hy : y = { x with call := c, prog := c.program x.cfg rounds } := hy
    have hdark : Dark cfg y := by
      rw [hy]
      exact hQ.2.call _ _
    show (c.program x.cfg rounds).Safe (inside F) (Returned cfg c) y
    rw [hcfg]
    exact program_returned c rounds y hdark

/-- What the command thread performs is what it may. -/
theorem reach_dark (h : Reach (step F) Unlisted (Start cfg) s) : Dark cfg s := by
  induction h with
  | init hx =>
      rw [← hx.cfg_eq]
      exact init_dark hx.init
  | step hreach hu hs ih =>
      rcases step_cases hs with ⟨c, rounds, b, -, -, rfl⟩ | ⟨o, k, u, r, -, hprog, hx, rfl⟩ |
        ⟨i, rfl, hx⟩ | ⟨-, rfl⟩
      · exact ih.call _ _
      · have hsafe := reach_safe hreach
        rw [hprog] at hsafe
        exact (exec_dark ih hsafe.guar hx).call u.call (k r)
      · exact poll_dark ih hu hx
      · exact ⟨ih.wired.of_shape (.refl _) rfl rfl ih.wired.fits, ih.cfg_eq, ih.unlisted,
          ih.disabled, ih.staged, ih.sent, ih.held⟩

/-- The drive is off, all the way to the gateway, and the last call could not change it. -/
structure Unpowered (s : State) : Prop where
  disabled : s.enabled_ = false
  staged : still (control s.drv.out_)
  sent : ∀ cw, transmits s.poll = some cw → still cw
  held : still (OffCommand.gateway_control s)
  refused : ∀ b, s.prog = .pure b → needs_drive s.call = true → b = false

theorem unpowered_of (hdark : Dark cfg s) (hsafe : s.prog.Safe (inside F) (Returned cfg s.call) s) :
    Unpowered s := by
  refine ⟨hdark.disabled, hdark.staged, hdark.sent, hdark.held, fun b hprog => ?_⟩
  rw [hprog] at hsafe
  exact hsafe.result.1

/-- **Not listed, not on.** In every run in which no status block of the gateway lists the drive, it
is never enabled, no control word that is staged, sent or acknowledged has `kDriveOn` or
`kDriveStart`, and every finished `enable`, `move_to`, `start` and `write_setpoint` has returned
false. -/
theorem unlisted_stays_off (h : Reach (step F) Unlisted (Start cfg) s) : Unpowered s :=
  unpowered_of (reach_dark h) (reach_safe h)

/-- A cycle of a drive that is ready, with the gateway's status block. -/
def cycle (st : List UInt16) : List Event :=
  to_send ++ [.poll (.write {} false), .poll .none, .poll (.read {} [0xC002, 0, 0, 0, 0, 0, 0]),
    .poll .none, .poll (.read {} st), .poll .none, .poll (.time 10), .poll .none]

/-- The driver runs, and after a cycle the drive is to be enabled. -/
def tries (st : List UInt16) : List Event :=
  [.call .driver_start fun _ => 0] ++ commands 1 ++ cycle st ++ [.call .enable fun _ => 0] ++
    commands 5

theorem bench_start : Start {} bench := ⟨bench_init, rfl, rfl⟩

/-- The gateway is in data exchange, with another drive. -/
theorem unlisted_stays_off_bench :
    ∃ s, Reach (step no_floats) Unlisted (Start {}) s ∧ s.call = .enable ∧ s.prog = .pure false ∧
      s.last_error_ = .not_in_data_exchange ∧ Unpowered s := by
  have heval : (run (guarded (step no_floats) Unlisted) bench (tries [0x0003, 0x0800])).map
      (fun s => (s.call, OffCommand.returned s.prog, s.last_error_)) =
      some (.enable, some false, .not_in_data_exchange) := by
    decide +kernel
  obtain ⟨s, hs, hval⟩ := Option.map_eq_some_iff.mp heval
  simp only [Prod.mk.injEq] at hval
  obtain ⟨hcall, hret, herror⟩ := hval
  have hreach : Reach (step no_floats) Unlisted (Start {}) s := .guarded_run _ (.init bench_start) hs
  exact ⟨s, hreach, hcall, OffCommand.eq_pure_of_returned hret, herror, unlisted_stays_off hreach⟩

/-! ### Blocks that are too short -/

/-- The register of the status block that has the drive's bit. -/
def live_register (cfg : IndraDriveConfig) : ℕ :=
  (2 + (cfg.profibus_address % 2 ^ 64).toNat / 8) / 2

theorem live_list_short {cfg : IndraDriveConfig} {st : List UInt16}
    (h : st.length ≤ live_register cfg) : live_list cfg st = false := by
  unfold live_list
  split
  · rfl
  · exact if_pos h

/-- The configured blocks end in front of it. -/
def Short (cfg : IndraDriveActuator.Config) (s : State) : Prop :=
  s.drv.cfg_.status_word_count.toNat ≤ live_register cfg.drive

instance (s : State) : Decidable (Short cfg s) := inferInstanceAs (Decidable (_ ≤ _))

theorem short_unlisted {e : Event} (hcfg : s.cfg = cfg) (h : Short cfg s)
    (hs : step F s e = some t) : Unlisted s e := by
  intro regs hregs
  unfold reported at hregs
  split at hregs
  · rename_i r regs'
    split at hregs
    · rename_i hpoll
      split at hregs
      · rename_i hok
        cases hregs
        -- the poll thread takes no block of another length
        simp only [step, poll_step, hpoll, if_neg hok.1, hok.2, if_true] at hs
        split at hs
        · rename_i hlen
          refine live_list_short ?_
          rw [hlen, hcfg]
          exact h
        · cases hs
      · cases hregs
    · cases hregs
  · cases hregs

theorem step_short {e : Event} (hw : Wired s) (h : Short cfg s) (hs : step F s e = some t) :
    Short cfg t := by
  have hkeep : ∀ u : State, SameShape s.drv u.drv → Short cfg u := by
    intro u hu
    unfold Short
    rw [hu.cfg]
    exact h
  rcases step_cases hs with ⟨c, rounds, b, -, -, rfl⟩ | ⟨o, k, u, r, -, -, hx, rfl⟩ |
    ⟨i, -, hx⟩ | ⟨-, rfl⟩
  · exact h
  · exact hkeep u (exec_spec hw hx).shape
  · exact hkeep t (poll_spec hw hx).shape
  · exact h

theorem reach_short (h : Reach (step F) Any (fun x => Start cfg x ∧ Short cfg x) s) :
    Reach (step F) Unlisted (Start cfg) s ∧ Short cfg s := by
  induction h with
  | init hx => exact ⟨.init hx.1, hx.2⟩
  | step _ _ hs ih =>
      have hdark := reach_dark ih.1
      exact ⟨.step ih.1 (short_unlisted hdark.cfg_eq ih.2 hs) hs, step_short hdark.wired ih.2 hs⟩

/-- **A block that is too short.** Where the configured status block ends in front of the drive's
register, the drive stays off in every run, whatever the gateway sends. -/
theorem short_block_stays_off
    (h : Reach (step F) Any (fun x => Start cfg x ∧ Short cfg x) s) : Unpowered s :=
  unpowered_of (reach_dark (reach_short h).1) (reach_safe (reach_short h).1)

/-- The bench with a status block of one register; the bit of address 2 is in the second. -/
def short_bench : State :=
  { bench with drv := { MGateDriver.create { bench_gateway with status_word_count := 1 } with
                          tags_ := ({} : IndraDriveConfig).tags } }

theorem short_bench_start : Start {} short_bench ∧ Short {} short_bench := by
  refine ⟨⟨⟨{ bench_gateway with status_word_count := 1 }, {}, ?_, rfl, rfl, rfl, rfl, rfl, rfl, rfl,
    rfl, rfl, rfl, rfl, rfl, rfl, rfl, rfl, rfl⟩, rfl, rfl⟩, by decide +kernel⟩
  have hsome : ((MGateDriver.create { bench_gateway with status_word_count := 1 }).add_tags
      ({} : IndraDriveConfig).tags).toOption.isSome = true := by
    decide +kernel
  obtain ⟨d, hd⟩ := Option.isSome_iff_exists.mp hsome
  have hok := ProcessImage.toOption_eq_some hd
  rw [hok, (add_tags_spec hok).1]
  rfl

theorem short_block_stays_off_bench :
    ∃ s, Reach (step no_floats) Any (fun x => Start {} x ∧ Short {} x) s ∧ s.call = .enable ∧
      s.prog = .pure false ∧ s.last_error_ = .not_in_data_exchange ∧ Unpowered s := by
  have heval : (run (step no_floats) short_bench (tries [0x0003])).map
      (fun s => (s.call, OffCommand.returned s.prog, s.last_error_)) =
      some (.enable, some false, .not_in_data_exchange) := by
    decide +kernel
  obtain ⟨s, hs, hval⟩ := Option.map_eq_some_iff.mp heval
  simp only [Prod.mk.injEq] at hval
  obtain ⟨hcall, hret, herror⟩ := hval
  have hreach : Reach (step no_floats) Any (fun x => Start {} x ∧ Short {} x) s :=
    .run (.init short_bench_start) hs
  exact ⟨s, hreach, hcall, OffCommand.eq_pure_of_returned hret, herror, short_block_stays_off hreach⟩

end Mgate.Threads.LiveList
