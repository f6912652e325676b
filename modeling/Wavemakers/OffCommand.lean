/-
The off command when the driver stops: `IndraDriveActuator::start` after a
failed `enable()`, and `IndraDriveActuator::stop`.

Both stage a control word without `kDriveOn` and then call
`MGateDriver::stop()`, which clears `running_` and joins the poll thread.
There is no last flush: the poll thread finishes the cycle it is in, and the
control word the gateway ends up with is decided at the moment `running_` is
cleared. `final_control` reads it off the state at that moment, and
`stopped_control` says that this is what the gateway holds when the call
returns. A call therefore leaves the drive off exactly when `final_control` is
off where it clears `running_`.

The programs enter through one fact about their text, `Stops`: `running_` is
cleared at most once, the join follows at once, and nothing behind it touches
the driver's thread.
-/
import Wavemakers.DriveThreads

set_option autoImplicit false

namespace Mgate.Threads.OffCommand

open Interleave MGateDriver Splice Atomic Atomic.Prog

/-! ## The control word the gateway is left with -/

/-- The control word the gateway has acknowledged. -/
def gateway_control (s : State) : UInt16 := s.gw.getD 0 0

/-- The control word the gateway holds after the flush of `lo .. hi`. -/
def flushed_control (s : State) : Option (ℕ × ℕ) → UInt16
  | none => gateway_control s
  | some (lo, _) => if lo < 2 then control s.drv.out_ else gateway_control s

/-- The control word the gateway holds after the cycle the poll thread is in,
if nothing else is staged and every request succeeds. -/
def final_control (s : State) : UInt16 :=
  match s.poll with
  | .connect =>
      if s.connected then flushed_control s s.drv.flush_span else control s.drv.out_
  | .span => flushed_control s s.drv.flush_span
  | .copy lo hi => flushed_control s (some (lo, hi))
  | .send lo _ regs sent => if lo < 2 ∧ sent = 0 then regs.getD 0 0 else gateway_control s
  | _ => gateway_control s

/-- The exchange in this step, if there is one, succeeds. No new call begins. -/
def succeeds : Event → Bool
  | .call _ _ => false
  | .poll (.connect r) => r.ok
  | .poll (.write r _) => r.ok
  | .poll (.read r _) => r.ok
  | _ => true

def Succeeds (e : Event) : Prop := succeeds e = true

instance (e : Event) : Decidable (Succeeds e) := inferInstanceAs (Decidable (_ = _))

/-! ## The text of the programs -/

/-- Not a part of stopping the driver. -/
def plain : Op → Bool
  | .clear_running | .join => false
  | _ => true

/-- Not a part of starting or stopping the driver. -/
def harmless : Op → Bool
  | .clear_running | .join | .driver_start => false
  | _ => true

/-- **How a program stops the driver.** It clears `running_` at most once,
joins the poll thread right behind it and then leaves the driver alone; and it
returns an `r` with `must r` only after that. -/
def Stops (must : Bool → Prop) : Drive Bool → Prop
  | .pure r => ¬ must r
  | .op .clear_running k =>
      (∃ k' : Unit → Drive Bool, k true = .op .join k' ∧ (k' ()).All (harmless · = true)) ∧
        (k false).All (harmless · = true)
  | .op .join _ => False
  | .op _ k => ∀ r, Stops must (k r)

theorem stops_op {must : Bool → Prop} {o : Op} {k : Resp o → Drive Bool} (ho : plain o = true) :
    Stops must (.op o k) ↔ ∀ r, Stops must (k r) := by
  cases o <;> first
    | exact Iff.rfl
    | cases ho

/-- A plain piece of program in front. -/
theorem stops_bind {must : Bool → Prop} {α : Type} {p : Drive α} {f : α → Drive Bool}
    (hp : p.All (plain · = true)) (hf : ∀ a, Stops must (f a)) : Stops must (p >>= f) := by
  induction p with
  | pure a => exact hf a
  | op o k ih => exact (stops_op hp.1).mpr fun r => ih r (hp.2 r)

theorem stops_ite {must : Bool → Prop} {c : Prop} [Decidable c] {p q : Drive Bool}
    (hp : Stops must p) (hq : Stops must q) : Stops must (if c then p else q) := by
  by_cases hc : c
  · rw [if_pos hc]
    exact hp
  · rw [if_neg hc]
    exact hq

/-- `driver_.stop()` at the end of a program. -/
theorem stops_driver_stop (must : Bool → Prop) (r : Bool) :
    Stops must (do driver_stop; return r) := by
  refine ⟨⟨_, rfl, ?_⟩, ?_⟩
  · exact ⟨rfl, fun _ => ⟨rfl, fun _ => trivial⟩⟩
  · trivial

/-- A program without the driver's start and stop. -/
theorem stops_plain {p : Drive Bool} (hp : p.All (plain · = true)) :
    Stops (fun _ => False) p := by
  induction p with
  | pure r => exact id
  | op o k ih => exact (stops_op hp.1).mpr fun r => ih r (hp.2 r)

theorem Stops.mono {must must' : Bool → Prop} (h : ∀ r, must' r → must r) {p : Drive Bool}
    (hp : Stops must p) : Stops must' p := by
  induction p with
  | pure r => exact fun hr => hp (h r hr)
  | op o k ih =>
      cases o <;> first
        | exact hp
        | exact fun r => ih r (hp r)

section Programs

open IndraDrive

abbrev Plain {α : Type} (p : Drive α) : Prop := p.All (plain · = true)

theorem plain_act {o : Op} (h : plain o = true) : Plain (act o) := all_lift h

/-- The drive's own commands are plain. -/
theorem plain_ofDrive {α : Type} {p : Drive α} (h : OfDrive p) : Plain p :=
  h.mono fun o ho => by cases o <;> first
    | rfl
    | cases ho

theorem plain_passive {α : Type} {p : Drive α} (h : Passive p) : Plain p := plain_ofDrive h.ofDrive

/-- The results a call returns only after it has stopped the driver. -/
def must_stop : Call → Bool → Prop
  | .actuator_start, r => r = false
  | .actuator_stop, _ => True
  | _, _ => False

/-- **Every call** clears `running_` at most once and joins right behind it. -/
theorem program_stops (cfg : IndraDriveActuator.Config) (rounds : ℕ → ℕ) (c : Call) :
    Stops (must_stop c) (c.program cfg rounds) := by
  cases c with
  | actuator_start =>
      -- every failed check of `start` ends in `stop_and_fail`
      have hfail : Stops (· = false) IndraDriveActuator.stop_and_fail := stops_driver_stop _ _
      refine stops_bind (plain_act rfl) fun _ => stops_bind (plain_act rfl) fun _ => ?_
      refine stops_bind (plain_passive (passive_wait_for_data _)) fun data => stops_ite hfail ?_
      refine stops_bind (plain_act rfl) fun first => stops_bind (plain_act rfl) fun second => ?_
      refine stops_ite hfail (stops_ite hfail (stops_ite hfail (stops_ite hfail ?_)))
      refine stops_bind (plain_passive (passive_slave_live _)) fun live => stops_ite hfail ?_
      refine stops_bind (plain_ofDrive (ofDrive_enable _ _)) fun enabled => stops_ite hfail ?_
      exact Bool.true_eq_false.mp
  | actuator_stop =>
      refine stops_bind (plain_act rfl) fun _ => ?_
      refine stops_bind (plain_ofDrive (steering_disable _).ofDrive) fun _ => ?_
      exact stops_driver_stop _ _
  | driver_stop => exact stops_driver_stop _ _
  | driver_start => exact stops_plain (all_bind (plain_act rfl) fun _ => all_pure _ _)
  | enable => exact stops_plain (plain_ofDrive (ofDrive_enable _ _))
  | move_to p v => exact stops_plain (plain_ofDrive (ofDrive_move_to _ _ _))
  | halt => exact stops_plain (plain_ofDrive steering_halt.ofDrive)
  | disable => exact stops_plain (plain_ofDrive (steering_disable _).ofDrive)
  | clear_errors => exact stops_plain (plain_ofDrive (steering_clear_errors _).ofDrive)
  | shutdown => exact stops_plain (plain_ofDrive steering_shutdown.ofDrive)
  | actuator_halt =>
      exact stops_plain (plain_ofDrive (all_actuator_halt (fun _ => of_drive_passive) (fun _ _ => rfl) _))
  | write_setpoint p v =>
      have hmove : Plain (move_to cfg.drive p (IndraDriveActuator.feedrate v)) :=
        plain_ofDrive (ofDrive_move_to _ _ _)
      refine stops_plain (all_bind hmove fun ok => all_ite (all_pure _ _) ?_)
      exact all_bind (plain_act rfl) fun _ => all_bind (plain_act rfl) fun _ => all_pure _ _

end Programs

/-! ## The last cycle -/

theorem flush_span_marked {d : MGateDriver} (h : 0 < d.out_.size) :
    d.mark_outputs_dirty.flush_span = some (0, d.out_.size) := by
  have hempty : ¬ d.out_.empty = true := by
    simpa [ProcessImage.empty, ProcessImage.size, List.length_pos_iff] using h
  unfold flush_span
  rw [show d.mark_outputs_dirty.out_ = d.out_ from rfl, if_neg hempty]
  by_cases hd : d.mark_outputs_dirty.cfg_.write_only_dirty = true
  · rw [if_pos hd, if_neg]
    · rfl
    · exact not_le.mpr h
  · rw [if_neg hd]

/-- What an acknowledged request does to the gateway's control word. -/
theorem acknowledged_control {s : State} (h : Wired s) {lo hi sent : ℕ} {regs : List UInt16}
    (hp : s.poll = .send lo hi regs sent) (hmore : sent < regs.length) :
    (acknowledge s lo regs sent).getD 0 0 =
      if lo < 2 ∧ sent = 0 then regs.getD 0 0 else gateway_control s := by
  have hfits := h.fits
  rw [hp] at hfits
  obtain ⟨hlt, hle, hlen, hsent⟩ := hfits
  have hsize := h.out_size
  have hgw := h.gw_length
  have hstart : first_word lo + sent ≤ s.gw.length := by
    rw [hlen] at hmore
    unfold word_count at hmore
    unfold first_word
    omega
  rw [acknowledge, List.getD_eq_getElem?_getD]
  by_cases hfirst : lo < 2 ∧ sent = 0
  · -- the request starts at the control word
    obtain ⟨hlo, rfl⟩ := hfirst
    have hzero : first_word lo = 0 := by
      unfold first_word
      omega
    have hpos : 0 < (chunk regs 0).length := by
      rw [length_chunk hsent]
      unfold write_chunk kMaxWriteRegs
      omega
    rw [if_pos ⟨hlo, rfl⟩, getElem?_splice_mid hstart (by omega) (by omega), hzero,
      getElem?_chunk hpos]
    rfl
  · have hbehind : 0 < first_word lo + sent := by
      unfold first_word
      omega
    rw [if_neg hfirst, getElem?_splice_lt hstart hbehind]
    rfl

/-- **The last cycle.** With `running_` cleared and nothing staged in between,
the poll thread brings `final_control` to the gateway. -/
theorem poll_final {F : FloatCast} {s t : State} {i : Input} (h : Wired s)
    (hrun : s.running_ = false) (hok : Succeeds (.poll i)) (hx : poll_step F s i = some t) :
    final_control t = final_control s := by
  -- outside a flush the gateway's word is final
  have quiet : ∀ u : State, u.gw = s.gw → final_control u = gateway_control u →
      final_control s = gateway_control s → final_control u = final_control s := by
    intro u hg hu hs
    rw [hu, hs, gateway_control, hg]
    rfl
  unfold poll_step at hx
  cases hp : s.poll <;> simp only [hp] at hx
  case none => cases hx
  case done => cases hx
  case loop =>
    cases hx
    refine quiet _ rfl ?_ (by simp only [final_control, hp])
    simp only [final_control, hrun]
    rfl
  case connect =>
    by_cases hc : s.connected = true
    · rw [if_pos hc] at hx
      cases hx
      simp only [final_control, hp, if_pos hc]
      rfl
    · rw [if_neg hc] at hx
      split at hx
      · rename_i r
        have hr : r.ok = true := hok
        rw [if_pos hr] at hx
        cases hx
        have hroom := h.room
        simp only [final_control, hp, if_neg hc, flush_span_marked (d := s.drv) (by omega)]
        rfl
      · cases hx
  case span =>
    split at hx
    · rename_i hspan
      cases hx
      simp only [final_control, hp, hspan]
      rfl
    · rename_i lo hi hspan
      cases hx
      simp only [final_control, hp, hspan]
      rfl
  case copy lo hi =>
    obtain ⟨regs, hregs, rfl⟩ := Option.map_eq_some_iff.mp hx
    simp only [final_control, hp, flushed_control, and_true]
    by_cases hlo : lo < 2
    · have hget := copy_control h hp hlo (ProcessImage.toOption_eq_some hregs)
      rw [if_pos hlo, if_pos hlo, List.getD_eq_getElem?_getD, hget]
      rfl
    · rw [if_neg hlo, if_neg hlo]
      rfl
  case send lo hi regs sent =>
    have hfits := h.fits
    rw [hp] at hfits
    obtain ⟨hlt, hle, hlen, hsent⟩ := hfits
    by_cases hmore : sent < regs.length
    · rw [if_pos hmore] at hx
      split at hx
      · rename_i r applied
        have hr : r.ok = true := hok
        rw [if_pos hr] at hx
        cases hx
        have hpos : ¬ (lo < 2 ∧ sent + (chunk regs sent).length = 0) := by
          rw [length_chunk hsent]
          unfold write_chunk kMaxWriteRegs
          omega
        simp only [final_control, hp, if_neg hpos]
        exact acknowledged_control h hp hmore
      · cases hx
    · rw [if_neg hmore] at hx
      cases hx
      -- a flush sends at least one register
      have hsome : ¬ (lo < 2 ∧ sent = 0) := by
        unfold word_count at hlen
        omega
      simp only [final_control, hp, if_neg hsome]
      rfl
  case inputs =>
    split at hx
    · cases hx
      exact quiet _ rfl rfl (by simp only [final_control, hp])
    · split at hx
      · rename_i r regs
        have hr : r.ok = true := hok
        rw [if_pos hr] at hx
        split at hx
        · obtain ⟨img, -, rfl⟩ := Option.map_eq_some_iff.mp hx
          exact quiet _ rfl rfl (by simp only [final_control, hp])
        · cases hx
      · cases hx
  case status =>
    split at hx
    · cases hx
      exact quiet _ rfl rfl (by simp only [final_control, hp])
    · split at hx
      · rename_i r regs
        have hr : r.ok = true := hok
        rw [if_pos hr] at hx
        split at hx
        · cases hx
          exact quiet _ rfl rfl (by simp only [final_control, hp])
        · cases hx
      · cases hx
  case account ok =>
    split at hx
    · cases hx
      refine quiet _ rfl ?_ (by simp only [final_control, hp])
      cases ok
      · rfl
      · rfl
    · cases hx
  case zero =>
    obtain ⟨d, hd, -, -⟩ := set_control_spec F h 0
    rw [hd, Option.map_some, Option.some.injEq] at hx
    subst hx
    exact quiet _ rfl rfl (by simp only [final_control, hp])
  case latch_zero why =>
    obtain ⟨d, hd, -, -⟩ := set_control_spec F h 0
    rw [hd, Option.map_some, Option.some.injEq] at hx
    subst hx
    exact quiet _ rfl rfl (by simp only [final_control, hp])
  case error =>
    obtain ⟨sw, -, rfl⟩ := Option.map_eq_some_iff.mp hx
    refine quiet _ rfl ?_ (by simp only [final_control, hp])
    by_cases hn : no_error (UInt16.ofNat (to_unsigned 16 sw)) = true
    · simp only [final_control, if_pos hn]
    · simp only [final_control, if_neg hn]
  case diag =>
    obtain ⟨d, -, rfl⟩ := Option.map_eq_some_iff.mp hx
    exact quiet _ rfl rfl (by simp only [final_control, hp])
  case latch_reason why =>
    split at hx
    · cases hx
      exact quiet _ rfl rfl (by simp only [final_control, hp])
    · cases hx
      exact quiet _ rfl rfl (by simp only [final_control, hp])
  case latch_fault newly =>
    cases hx
    refine quiet _ rfl ?_ (by simp only [final_control, hp])
    cases newly
    · rfl
    · rfl
  all_goals
    cases hx
    refine quiet _ rfl ?_ (by simp only [final_control, hp])
    first
    | rfl
    | (split_ifs
       · rfl
       · rfl)

/-! ## The two phases of a call -/

/-- Before `running_` is cleared. -/
def Before (must : Bool → Prop) (s : State) : Prop :=
  Stops must s.prog ∧ (s.running_ = false → s.poll = .none)

/-- From there on: waiting in the join, or behind it. -/
def After (s : State) : Prop :=
  s.running_ = false ∧
    ((∃ k : Unit → Drive Bool, s.prog = .op .join k ∧ (k ()).All (harmless · = true)) ∨
      (s.prog.All (harmless · = true) ∧ s.poll = .none))

theorem exec_harmless {F : FloatCast} {s t : State} {o : Op} {r : Resp o} (h : Wired s)
    (ho : harmless o = true) (hx : exec F s o = some (t, r)) :
    t.poll = s.poll ∧ t.running_ = s.running_ ∧ t.gw = s.gw := by
  have hex := exec_spec h hx
  refine ⟨?_, hex.running ?_ ?_, hex.gw⟩
  · rcases hex.poll with hp | ⟨rfl, -⟩ | ⟨rfl, -⟩
    · exact hp
    · cases ho
    · cases ho
  · rintro rfl
    cases ho
  · rintro rfl
    cases ho

/-- **Clearing `running_`** leads from the first phase to the second and leaves
`final_control` as it is. -/
theorem clear_step {F : FloatCast} {must : Bool → Prop} {s t : State} {k : Bool → Drive Bool}
    (h : Before must s) (hprog : s.prog = .op .clear_running k) (hs : step F s .cmd = some t) :
    After t ∧ final_control t = final_control s := by
  obtain ⟨hstops, hidle⟩ := h
  rw [hprog] at hstops
  obtain ⟨⟨k', hk', hall⟩, hfalse⟩ := hstops
  simp only [step, hprog, exec, Option.map_some, Option.some.injEq] at hs
  subst hs
  refine ⟨⟨rfl, ?_⟩, rfl⟩
  by_cases hrun : s.running_ = true
  · rw [hrun]
    exact .inl ⟨k', hk', hall⟩
  · rw [Bool.not_eq_true] at hrun
    rw [hrun]
    exact .inr ⟨hfalse, hidle hrun⟩

/-- The first phase lasts until `running_` is cleared. -/
theorem before_step {F : FloatCast} {must : Bool → Prop} {s t : State} {e : Event} (hw : Wired s)
    (h : Before must s) (hcall : ∀ c rounds, e ≠ .call c rounds) (hs : step F s e = some t) :
    Before must t ∨ e = .cmd ∧ ∃ k, s.prog = .op .clear_running k := by
  obtain ⟨hstops, hidle⟩ := h
  rcases step_cases hs with ⟨c, rounds, r, he, -, -⟩ | ⟨o, k, u, r, rfl, hprog, hx, rfl⟩ |
    ⟨i, -, hx⟩ | ⟨-, rfl⟩
  · exact absurd he (hcall c rounds)
  · rw [hprog] at hstops
    by_cases hclear : o = .clear_running
    · subst hclear
      exact .inr ⟨rfl, k, hprog⟩
    · by_cases hstart : o = .driver_start
      · subst hstart
        simp only [exec, Option.some.injEq, Prod.mk.injEq] at hx
        obtain ⟨rfl, -⟩ := hx
        refine .inl ⟨hstops r, ?_⟩
        intro hrun
        by_cases hwas : s.running_ = true
        · rw [if_pos hwas, hwas] at hrun
          cases hrun
        · rw [if_neg hwas] at hrun
          cases hrun
      · have hjoin : o ≠ .join := by
          rintro rfl
          exact hstops
        have hplain : plain o = true ∧ harmless o = true := by
          cases o <;> first
            | exact ⟨rfl, rfl⟩
            | contradiction
        obtain ⟨hp, hr, -⟩ := exec_harmless hw hplain.2 hx
        refine .inl ⟨(stops_op hplain.1).mp hstops r, ?_⟩
        intro hrun
        rw [show _ = u.poll from rfl, hp]
        exact hidle (by rw [← hr]; exact hrun)
  · have hpoll := poll_spec hw hx
    refine .inl ⟨by rw [hpoll.prog]; exact hstops, ?_⟩
    intro hrun
    rw [hpoll.running] at hrun
    -- a stopped driver has no poll thread to take this step
    simp only [poll_step, hidle hrun] at hx
    cases hx
  · exact .inl ⟨hstops, hidle⟩

theorem after_step {F : FloatCast} {s t : State} {e : Event} (hw : Wired s) (h : After s)
    (hcall : ∀ c rounds, e ≠ .call c rounds) (hs : step F s e = some t) : After t := by
  obtain ⟨hrun, hphase⟩ := h
  rcases step_cases hs with ⟨c, rounds, r, he, -, -⟩ | ⟨o, k, u, r, rfl, hprog, hx, rfl⟩ |
    ⟨i, -, hx⟩ | ⟨-, rfl⟩
  · exact absurd he (hcall c rounds)
  · rcases hphase with ⟨k', hjoin, hall⟩ | ⟨hall, hnone⟩
    · rw [hjoin] at hprog
      cases hprog
      simp only [exec] at hx
      split at hx
      · cases hx
        exact ⟨hrun, .inr ⟨hall, rfl⟩⟩
      · cases hx
    · rw [hprog] at hall
      obtain ⟨hp, hr, -⟩ := exec_harmless hw hall.1 hx
      exact ⟨hr.trans hrun, .inr ⟨hall.2 r, hp.trans hnone⟩⟩
  · have hpoll := poll_spec hw hx
    rcases hphase with ⟨k', hjoin, hall⟩ | ⟨-, hnone⟩
    · exact ⟨hpoll.running.trans hrun, .inl ⟨k', hpoll.prog.trans hjoin, hall⟩⟩
    · simp only [poll_step, hnone] at hx
      cases hx
  · exact ⟨hrun, hphase⟩

/-- In the second phase the final control word is settled. -/
theorem after_final {F : FloatCast} {s t : State} {e : Event} (hw : Wired s) (h : After s)
    (hok : Succeeds e) (hs : step F s e = some t) : final_control t = final_control s := by
  obtain ⟨hrun, hphase⟩ := h
  rcases step_cases hs with ⟨c, rounds, r, rfl, -, -⟩ | ⟨o, k, u, r, rfl, hprog, hx, rfl⟩ |
    ⟨i, rfl, hx⟩ | ⟨-, rfl⟩
  · cases hok
  · rcases hphase with ⟨k', hjoin, hall⟩ | ⟨hall, hnone⟩
    · rw [hjoin] at hprog
      cases hprog
      simp only [exec] at hx
      split at hx
      · rename_i hdone
        cases hx
        simp only [final_control, hdone]
        rfl
      · cases hx
    · rw [hprog] at hall
      obtain ⟨hp, -, hg⟩ := exec_harmless hw hall.1 hx
      simp only [final_control, hp, hnone, gateway_control, hg]
  · exact poll_final hw hrun hok hx
  · rfl

/-! ## Whole runs -/

/-- Between calls the poll thread is there exactly as long as the driver runs. -/
def Settled (s : State) : Prop := Wired s ∧ (Before (fun _ => False) s ∨ After s)

theorem settled_idle {s : State} {r : Bool} (h : Settled s) (hp : s.prog = .pure r) :
    s.running_ = false → s.poll = .none := by
  intro hrun
  rcases h.2 with ⟨-, hidle⟩ | ⟨-, ⟨k, hk, -⟩ | ⟨-, hnone⟩⟩
  · exact hidle hrun
  · rw [hp] at hk
    cases hk
  · exact hnone

/-- A call begins in its first phase. -/
theorem call_before {F : FloatCast} {s t : State} {c : Call} {rounds : ℕ → ℕ} (h : Settled s)
    (hs : step F s (.call c rounds) = some t) : Before (must_stop c) t := by
  obtain ⟨r, hp, rfl⟩ := step_call hs
  have hidle := settled_idle h hp
  exact ⟨program_stops _ _ _, hidle⟩

theorem init_settled {s : State} (h : Init s) : Settled s := by
  refine ⟨init_wired h, .inl ?_⟩
  obtain ⟨-, -, -, -, -, -, -, -, -, -, -, -, -, -, -, -, -, hprog, hpoll⟩ := h
  exact ⟨by rw [hprog]; exact id, fun _ => hpoll⟩

theorem step_settled {F : FloatCast} {s t : State} {e : Event} (h : Settled s)
    (hs : step F s e = some t) : Settled t := by
  refine ⟨step_wired h.1 hs, ?_⟩
  by_cases hcall : ∃ c rounds, e = .call c rounds
  · obtain ⟨c, rounds, rfl⟩ := hcall
    have hb := call_before h hs
    exact .inl ⟨hb.1.mono fun _ => False.elim, hb.2⟩
  · push Not at hcall
    rcases h.2 with hb | ha
    · rcases before_step h.1 hb hcall hs with hb' | ⟨rfl, k, hk⟩
      · exact .inl hb'
      · exact .inr (clear_step hb hk hs).1
    · exact .inr (after_step h.1 ha hcall hs)

theorem reach_settled {F : FloatCast} {s : State} (h : Reach (step F) Any Init s) : Settled s :=
  h.invariant (fun _ => init_settled) fun _ _ _ hi _ hs => step_settled hi hs

theorem succeeds_not_call {e : Event} (h : Succeeds e) : ∀ c rounds, e ≠ .call c rounds := by
  rintro c rounds rfl
  cases h

/-- What the gateway holds when a call returns that has cleared `running_`. -/
theorem stopped_control {F : FloatCast} {s t : State} {es : List Event} {r : Bool} (hw : Wired s)
    (h : After s) (hok : ∀ e ∈ es, Succeeds e) (hrun : run (step F) s es = some t)
    (hret : t.prog = .pure r) : gateway_control t = final_control s := by
  have hstep : ∀ u e v, (Wired u ∧ After u ∧ final_control u = final_control s) → Succeeds e →
      step F u e = some v → Wired v ∧ After v ∧ final_control v = final_control s := by
    rintro u e v ⟨huw, hu, hf⟩ he hs
    exact ⟨step_wired huw hs, after_step huw hu (succeeds_not_call he) hs,
      (after_final huw hu he hs).trans hf⟩
  obtain ⟨-, ⟨-, hphase⟩, hf⟩ := run_invariant hstep ⟨hw, h, rfl⟩ hok hrun
  rcases hphase with ⟨k, hk, -⟩ | ⟨-, hnone⟩
  · rw [hret] at hk
    cases hk
  · rw [← hf, final_control, hnone]

/-- The condition on a run of a call: where it clears `running_`, the cycle the
poll thread is in leaves the gateway with an off word. -/
def ClearsOff (F : FloatCast) (s : State) (es : List Event) : Prop :=
  ∀ before after u k, es = before ++ .cmd :: after → run (step F) s before = some u →
    u.prog = .op .clear_running k → off (final_control u)

/-- A call that returns what it only returns behind the driver's stop has
cleared `running_` on the way. -/
theorem clears_on_the_way {F : FloatCast} {must : Bool → Prop} {s t : State} {es : List Event}
    {r : Bool} (hw : Wired s) (h : Before must s) (hok : ∀ e ∈ es, Succeeds e)
    (hrun : run (step F) s es = some t) (hret : t.prog = .pure r) (hmust : must r) :
    ∃ before after u k, es = before ++ .cmd :: after ∧ run (step F) s before = some u ∧
      u.prog = .op .clear_running k ∧ gateway_control t = final_control u := by
  induction es generalizing s with
  | nil =>
      cases hrun
      have hstops := h.1
      rw [hret] at hstops
      exact absurd hmust hstops
  | cons e es ih =>
      obtain ⟨v, hs, hrest⟩ := run_cons_eq_some.mp hrun
      have htail : ∀ e' ∈ es, Succeeds e' := fun e' he' => hok e' (List.mem_cons_of_mem _ he')
      have hcall := succeeds_not_call (hok e List.mem_cons_self)
      rcases before_step hw h hcall hs with hv | ⟨rfl, k, hk⟩
      · obtain ⟨before, after, u, k, rfl, hu, hk, hg⟩ := ih (step_wired hw hs) hv htail hrest
        exact ⟨e :: before, after, u, k, rfl, run_cons_eq_some.mpr ⟨v, hs, hu⟩, hk, hg⟩
      · obtain ⟨ha, hf⟩ := clear_step h hk hs
        refine ⟨[], es, s, k, rfl, rfl, hk, ?_⟩
        rw [stopped_control (step_wired hw hs) ha htail hrest hret, hf]

/-- **A call leaves the drive off exactly when it clears `running_` at the right
moment.** -/
theorem off_iff_clearsOff {F : FloatCast} {must : Bool → Prop} {s t : State} {es : List Event}
    {r : Bool} (hw : Wired s) (h : Before must s) (hok : ∀ e ∈ es, Succeeds e)
    (hrun : run (step F) s es = some t) (hret : t.prog = .pure r) (hmust : must r) :
    off (gateway_control t) ↔ ClearsOff F s es := by
  constructor
  · rintro hoff before after u k rfl hu hk
    -- up to there the call is in its first phase
    have hstep : ∀ v e w, (Wired v ∧ (Before must v ∨ After v)) → Succeeds e →
        step F v e = some w → Wired w ∧ (Before must w ∨ After w) := by
      rintro v e w ⟨hvw, hv⟩ he hs
      refine ⟨step_wired hvw hs, ?_⟩
      rcases hv with hv | hv
      · rcases before_step hvw hv (succeeds_not_call he) hs with hw' | ⟨rfl, k', hk'⟩
        · exact .inl hw'
        · exact .inr (clear_step hv hk' hs).1
      · exact .inr (after_step hvw hv (succeeds_not_call he) hs)
    have hbefore : ∀ e ∈ before, Succeeds e := fun e he => hok e (List.mem_append_left _ he)
    obtain ⟨huw, hphase⟩ := run_invariant hstep ⟨hw, .inl h⟩ hbefore hu
    have hub : Before must u := by
      rcases hphase with hub | ⟨-, ⟨k', hk', -⟩ | ⟨hall, -⟩⟩
      · exact hub
      · rw [hk] at hk'
        cases hk'
      · rw [hk] at hall
        cases hall.1
    rw [run_append, hu, Option.bind_some] at hrun
    obtain ⟨v, hs, hrun⟩ := run_cons_eq_some.mp hrun
    obtain ⟨ha, hf⟩ := clear_step hub hk hs
    have hafter : ∀ e ∈ after, Succeeds e := fun e he =>
      hok e (List.mem_append_right _ (List.mem_cons_of_mem _ he))
    rw [← hf, ← stopped_control (step_wired huw hs) ha hafter hrun hret]
    exact hoff
  · intro hclears
    obtain ⟨before, after, u, k, hes, hu, hk, hg⟩ := clears_on_the_way hw h hok hrun hret hmust
    rw [hg]
    exact hclears before after u k hes hu hk

/-- **A failed start.** When every exchange succeeds and `start()` returns false,
the gateway is left with the drive off if and only if the poll thread's cycle
leaves it so at the moment `driver_.stop()` clears `running_`. -/
theorem failed_start_off_iff {F : FloatCast} {s u t : State} {rounds : ℕ → ℕ} {es : List Event}
    (h : Reach (step F) Any Init s) (hcall : step F s (.call .actuator_start rounds) = some u)
    (hok : ∀ e ∈ es, Succeeds e) (hrun : run (step F) u es = some t) (hret : t.prog = .pure false) :
    off (gateway_control t) ↔ ClearsOff F u es := by
  have hs := reach_settled h
  exact off_iff_clearsOff (step_wired hs.1 hcall) (call_before hs hcall) hok hrun hret rfl

/-- **A stop.** The same for `stop()`, from every reachable state. -/
theorem stop_off_iff {F : FloatCast} {s u t : State} {rounds : ℕ → ℕ} {es : List Event} {r : Bool}
    (h : Reach (step F) Any Init s) (hcall : step F s (.call .actuator_stop rounds) = some u)
    (hok : ∀ e ∈ es, Succeeds e) (hrun : run (step F) u es = some t) (hret : t.prog = .pure r) :
    off (gateway_control t) ↔ ClearsOff F u es := by
  have hs := reach_settled h
  exact off_iff_clearsOff (step_wired hs.1 hcall) (call_before hs hcall) hok hrun hret trivial

/-! ## Two schedules -/

def returned : Drive Bool → Option Bool
  | .pure r => some r
  | .op _ _ => none

theorem eq_pure_of_returned {p : Drive Bool} {r : Bool} (h : returned p = some r) :
    p = .pure r := by
  cases p with
  | pure r' =>
      cases h
      rfl
  | op o k => cases h

/-- A call made after `es` that runs along `fs`: the call before it and what that
returned, what it returns itself and what it leaves at the gateway. -/
def outcome (es : List Event) (c : Call) (fs : List Event) :
    Option (Call × Option Bool × Option Bool × UInt16) :=
  (run (step no_floats) bench es).bind fun s =>
    (step no_floats s (.call c fun _ => 0)).bind fun u =>
      (run (step no_floats) u fs).map fun t =>
        (s.call, returned s.prog, returned t.prog, gateway_control t)

theorem outcome_eq_some {es fs : List Event} {c d : Call} {r r' : Bool} {cw : UInt16}
    (h : outcome es c fs = some (d, some r, some r', cw)) :
    ∃ s u t, Reach (step no_floats) Any Init s ∧ (s.call = d ∧ s.prog = .pure r) ∧
      step no_floats s (.call c fun _ => 0) = some u ∧ run (step no_floats) u fs = some t ∧
      t.prog = .pure r' ∧ gateway_control t = cw := by
  obtain ⟨s, hs, h⟩ := Option.bind_eq_some_iff.mp h
  obtain ⟨u, hu, h⟩ := Option.bind_eq_some_iff.mp h
  obtain ⟨t, ht, h⟩ := Option.map_eq_some_iff.mp h
  simp only [Prod.mk.injEq] at h
  obtain ⟨hcall, hbefore, hret, hcw⟩ := h
  exact ⟨s, u, t, .run (.init bench_init) hs, ⟨hcall, eq_pure_of_returned hbefore⟩, hu, ht,
    eq_pure_of_returned hret, hcw⟩

/-- `start()` up to the wait for "drive ON": torque is requested and the gateway
has acknowledged it, but the drive stays at `Ab`. -/
def starting : List Event :=
  commands 2 ++ to_send ++ answered 0x8002 ++ quiet 1 ++ commands 2 ++ quiet 3 ++
    received 0x8002 ++ quiet 1 ++ commands 25 ++ to_send ++ answered 0x8002 ++ quiet 3

/-- The wait times out while the poll thread sleeps: the off word is staged,
`running_` is cleared, and the gateway keeps `kDriveOn`. -/
def timeout_asleep : List Event := starting ++ commands 8 ++ quiet 4 ++ commands 3

/-- The same with the poll thread already inside its next cycle. -/
def timeout_awake : List Event :=
  starting ++ commands 7 ++ quiet 2 ++ commands 1 ++ quiet 3 ++ answered 0x8002 ++ quiet 4 ++
    commands 3

theorem failed_start_leaves_on :
    ∃ s u t, Reach (step no_floats) Any Init s ∧
      step no_floats s (.call .actuator_start fun _ => 0) = some u ∧
      run (step no_floats) u timeout_asleep = some t ∧ (∀ e ∈ timeout_asleep, Succeeds e) ∧
      t.prog = .pure false ∧ ¬ off (gateway_control t) := by
  have heval : outcome [] .actuator_start timeout_asleep =
      some (.driver_stop, some true, some false, 0x8002) := by
    decide +kernel
  obtain ⟨s, u, t, hs, -, hu, ht, hret, hcw⟩ := outcome_eq_some heval
  refine ⟨s, u, t, hs, hu, ht, by decide, hret, ?_⟩
  rw [hcw]
  decide

theorem failed_start_leaves_off :
    ∃ s u t, Reach (step no_floats) Any Init s ∧
      step no_floats s (.call .actuator_start fun _ => 0) = some u ∧
      run (step no_floats) u timeout_awake = some t ∧ t.prog = .pure false ∧
      off (gateway_control t) ∧ ClearsOff no_floats u timeout_awake := by
  have heval : outcome [] .actuator_start timeout_awake =
      some (.driver_stop, some true, some false, 0x0002) := by
    decide +kernel
  obtain ⟨s, u, t, hs, -, hu, ht, hret, hcw⟩ := outcome_eq_some heval
  have hoff : off (gateway_control t) := by
    rw [hcw]
    decide
  exact ⟨s, u, t, hs, hu, ht, hret, hoff,
    (failed_start_off_iff hs hu (by decide) ht hret).mp hoff⟩

/-- A successful start; then the drive loses its power section and reports
standstill without torque. -/
def power_lost : List Event :=
  [.call .actuator_start fun _ => 0] ++ commands 2 ++ to_send ++ answered 0x8002 ++ quiet 1 ++
    commands 2 ++ quiet 3 ++ received 0x8002 ++ quiet 1 ++ commands 25 ++ to_send ++
    answered 0xC002 ++ quiet 4 ++ commands 7 ++ to_send ++ answered 0xC002 ++ quiet 4 ++
    commands 4 ++ quiet 3 ++ received 0x800A ++ quiet 3

/-- `disable()` finds the cached word without torque and does not wait; the off
word it staged is not sent any more. -/
def stop_asleep : List Event := commands 12 ++ quiet 4 ++ commands 3

def stop_awake : List Event :=
  commands 11 ++ quiet 2 ++ commands 1 ++ quiet 3 ++ answered 0x800A ++ quiet 4 ++ commands 3

theorem stop_leaves_on :
    ∃ s u t, Reach (step no_floats) Any Init s ∧ s.call = .actuator_start ∧ s.prog = .pure true ∧
      step no_floats s (.call .actuator_stop fun _ => 0) = some u ∧
      run (step no_floats) u stop_asleep = some t ∧ (∀ e ∈ stop_asleep, Succeeds e) ∧
      t.prog = .pure true ∧ ¬ off (gateway_control t) := by
  have heval : outcome power_lost .actuator_stop stop_asleep =
      some (.actuator_start, some true, some true, 0xA002) := by
    decide +kernel
  obtain ⟨s, u, t, hs, ⟨hcall, hbefore⟩, hu, ht, hret, hcw⟩ := outcome_eq_some heval
  refine ⟨s, u, t, hs, hcall, hbefore, hu, ht, by decide, hret, ?_⟩
  rw [hcw]
  decide

theorem stop_leaves_off :
    ∃ s u t, Reach (step no_floats) Any Init s ∧ s.call = .actuator_start ∧ s.prog = .pure true ∧
      step no_floats s (.call .actuator_stop fun _ => 0) = some u ∧
      run (step no_floats) u stop_awake = some t ∧ t.prog = .pure true ∧
      off (gateway_control t) ∧ ClearsOff no_floats u stop_awake := by
  have heval : outcome power_lost .actuator_stop stop_awake =
      some (.actuator_start, some true, some true, 0x0002) := by
    decide +kernel
  obtain ⟨s, u, t, hs, ⟨hcall, hbefore⟩, hu, ht, hret, hcw⟩ := outcome_eq_some heval
  have hoff : off (gateway_control t) := by
    rw [hcw]
    decide
  exact ⟨s, u, t, hs, hcall, hbefore, hu, ht, hret, hoff,
    (stop_off_iff hs hu (by decide) ht hret).mp hoff⟩

end Mgate.Threads.OffCommand
