/-
The fault latch under every interleaving.

`latch_fault` stages control word 0, clears `enabled_` and sets `fault_`; from
then on the drive must not see `kDriveOn` again before `enable()` is called.
The poll thread does its part: it copies the staged word, so all it can send
after the latch is what is staged after it. The command thread does not:
`enable`, `halt`, `disable` and `clear_errors` test a flag in one step and
stage a control word with `kDriveOn` in a later one, and a latch that falls
in between is overwritten.

`StepOk` excludes exactly these writes. Under it the latch keeps the drive off
in every run (`latched_transmits_off`); `latch_between_check_and_write` is the
run that shows it is needed.
-/
import Wavemakers.DriveThreads

set_option autoImplicit false

namespace Mgate.Threads.FaultLatch

open Interleave MGateDriver

/-- `latch_fault` has staged 0 and has not set `fault_` yet. -/
def latching : Poll → Bool
  | .latch_enabled _ | .latch_reason _ | .latch_fault _ => true
  | _ => false

/-- The control word in the request the poll thread is about to send. -/
def transmits : Poll → Option UInt16
  | .send lo _ regs sent => if lo < 2 ∧ sent = 0 then regs[0]? else none
  | _ => none

/-- The control word the event makes the command thread stage. -/
def stages (s : State) : Event → Option UInt16
  | .cmd =>
      match s.prog with
      | .op (.set_control cw) _ => some cw
      | _ => none
  | _ => none

/-- The condition on a step: the command thread stages `kDriveOn` only while no
fault is latched or being latched. -/
def StepOk (s : State) (e : Event) : Prop :=
  ∀ cw ∈ stages s e, off cw ∨ s.latched = false ∧ latching s.poll = false

instance (s : State) (e : Event) : Decidable (StepOk s e) :=
  Option.decidableForallMem (stages s e)

/-! ## What the poll thread does to the latch -/

/-- **The latch, step by step.** A fault is latched only at the end of
`latch_fault`, `latch_fault` begins by staging 0, and what a flush transmits is
the control word that was staged when it was copied. -/
structure Latched (s t : State) : Prop where
  latched : t.latched = true → s.latched = true ∨ latching s.poll = true
  latching : latching t.poll = true → latching s.poll = true ∨ control t.drv.out_ = 0
  transmits : ∀ cw, transmits t.poll = some cw → cw = control s.drv.out_

theorem poll_latched {F : FloatCast} {s t : State} {i : Input} (h : Wired s)
    (hx : poll_step F s i = some t) : Latched s t := by
  -- most steps neither latch nor transmit
  have quiet : ∀ u : State, u.latched = s.latched → latching u.poll = false →
      transmits u.poll = none → Latched s u := by
    intro u hl hg ht
    refine ⟨fun hu => .inl (by rw [← hl]; exact hu), fun hu => ?_, fun cw hcw => ?_⟩
    · rw [hg] at hu
      cases hu
    · rw [ht] at hcw
      cases hcw
  -- inside `latch_fault` nothing is transmitted
  have inside : ∀ u : State, latching s.poll = true → transmits u.poll = none → Latched s u := by
    intro u hs ht
    refine ⟨fun _ => .inr hs, fun _ => .inl hs, fun cw hcw => ?_⟩
    rw [ht] at hcw
    cases hcw
  have hfits := h.fits
  unfold poll_step at hx
  cases hp : s.poll <;> simp only [hp] at hx hfits
  case none => cases hx
  case done => cases hx
  case connect =>
    split at hx
    · cases hx
      exact quiet _ rfl rfl rfl
    · split at hx
      · split at hx
        · cases hx
          exact quiet _ rfl rfl rfl
        · cases hx
          exact quiet _ rfl rfl rfl
      · cases hx
  case span =>
    split at hx
    · cases hx
      exact quiet _ rfl rfl rfl
    · cases hx
      exact quiet _ rfl rfl rfl
  case copy lo hi =>
    obtain ⟨regs, hregs, rfl⟩ := Option.map_eq_some_iff.mp hx
    refine ⟨.inl, nofun, fun cw hcw => ?_⟩
    simp only [FaultLatch.transmits] at hcw
    split at hcw
    · rename_i hlo
      rw [copy_control h hp hlo.1 (ProcessImage.toOption_eq_some hregs)] at hcw
      exact (Option.some.inj hcw).symm
    · cases hcw
  case send lo hi regs sent =>
    obtain ⟨hlt, hle, hlen, hsent⟩ := hfits
    split at hx
    · rename_i hmore
      split at hx
      · split at hx
        · cases hx
          refine quiet _ rfl rfl ?_
          -- the second request no longer holds the control word
          have hnot : ¬ (lo < 2 ∧ sent + (chunk regs sent).length = 0) := by
            rw [length_chunk hsent]
            unfold write_chunk kMaxWriteRegs
            omega
          simp only [FaultLatch.transmits, if_neg hnot]
        · cases hx
          exact quiet _ rfl rfl rfl
      · cases hx
    · cases hx
      exact quiet _ rfl rfl rfl
  case inputs =>
    split at hx
    · cases hx
      exact quiet _ rfl rfl rfl
    · split at hx
      · split at hx
        · split at hx
          · obtain ⟨img, -, rfl⟩ := Option.map_eq_some_iff.mp hx
            exact quiet _ rfl rfl rfl
          · cases hx
        · cases hx
          exact quiet _ rfl rfl rfl
      · cases hx
  case status =>
    split at hx
    · cases hx
      exact quiet _ rfl rfl rfl
    · split at hx
      · split at hx
        · split at hx
          · cases hx
            exact quiet _ rfl rfl rfl
          · cases hx
        · cases hx
          exact quiet _ rfl rfl rfl
      · cases hx
  case account ok =>
    split at hx
    · cases hx
      cases ok
      · exact quiet _ rfl rfl rfl
      · exact quiet _ rfl rfl rfl
    · cases hx
  case zero =>
    obtain ⟨d, hd, -, -⟩ := set_control_spec F h 0
    rw [hd, Option.map_some, Option.some.injEq] at hx
    subst hx
    exact quiet _ rfl rfl rfl
  case error =>
    obtain ⟨sw, -, rfl⟩ := Option.map_eq_some_iff.mp hx
    refine quiet _ rfl ?_ ?_
    · simp only
      split
      · rfl
      · rfl
    · simp only
      split
      · rfl
      · rfl
  case diag =>
    obtain ⟨d, -, rfl⟩ := Option.map_eq_some_iff.mp hx
    exact quiet _ rfl rfl rfl
  case latch_zero why =>
    obtain ⟨d, hd, -, hcw⟩ := set_control_spec F h 0
    rw [hd, Option.map_some, Option.some.injEq] at hx
    subst hx
    exact ⟨.inl, fun _ => .inr hcw, nofun⟩
  case latch_reason why =>
    split at hx
    · cases hx
      exact inside _ (by rw [hp]; rfl) rfl
    · cases hx
      exact inside _ (by rw [hp]; rfl) rfl
  case latch_enabled why =>
    cases hx
    exact inside _ (by rw [hp]; rfl) rfl
  case latch_fault newly =>
    cases hx
    refine inside _ (by rw [hp]; rfl) ?_
    cases newly
    · rfl
    · rfl
  all_goals
    cases hx
    refine quiet _ rfl ?_ ?_
    all_goals
      first
      | rfl
      | (simp only
         split
         · rfl
         · rfl)

/-! ## The invariant -/

structure Inv (s : State) : Prop where
  wired : Wired s
  latching_off : latching s.poll = true → off (control s.drv.out_)
  staged_off : s.latched = true → off (control s.drv.out_)
  sent_off : s.latched = true → ∀ cw, transmits s.poll = some cw → off cw

theorem init_inv {s : State} (h : Init s) : Inv s := by
  have hw := init_wired h
  obtain ⟨gateway, cfg, -, -, -, -, -, -, -, -, -, -, -, -, -, -, hl, -, hp⟩ := h
  refine ⟨hw, fun hs => ?_, fun hs => ?_, fun hs => ?_⟩
  · rw [hp] at hs
    cases hs
  · rw [hl] at hs
    cases hs
  · rw [hl] at hs
    cases hs

theorem off_zero : off 0 := by decide

/-- The poll thread keeps it by itself. -/
theorem poll_inv {F : FloatCast} {s t : State} {i : Input} (h : Inv s)
    (hx : poll_step F s i = some t) : Inv t := by
  have hpoll := poll_spec h.wired hx
  have hlat := poll_latched h.wired hx
  -- a control word that was off stays off
  have keep : off (control s.drv.out_) → off (control t.drv.out_) := by
    intro hoff
    rcases hpoll.control with hc | hc
    · rw [hc]
      exact hoff
    · rw [hc]
      exact off_zero
  have before : t.latched = true → off (control s.drv.out_) := by
    intro ht
    rcases hlat.latched ht with hs | hs
    · exact h.staged_off hs
    · exact h.latching_off hs
  refine ⟨hpoll.wired h.wired, fun ht => ?_, fun ht => keep (before ht), fun ht cw hcw => ?_⟩
  · rcases hlat.latching ht with hs | hc
    · exact keep (h.latching_off hs)
    · rw [hc]
      exact off_zero
  · rw [hlat.transmits cw hcw]
    exact before ht

/-- The command thread keeps it as long as it stages `kDriveOn` in time. -/
theorem exec_inv {F : FloatCast} {s t : State} {o : Op} {r : Resp o} (h : Inv s)
    (hok : ∀ cw, o = .set_control cw → off cw ∨ s.latched = false ∧ latching s.poll = false)
    (hx : exec F s o = some (t, r)) : Inv t := by
  have hex := exec_spec h.wired hx
  -- the poll thread stays where it is, begins or is gone
  have hpoll : t.poll = s.poll ∨ latching t.poll = false ∧ transmits t.poll = none := by
    rcases hex.poll with hp | ⟨-, hp⟩ | ⟨-, hp⟩
    · exact .inl hp
    · rw [hp]
      exact .inr ⟨rfl, rfl⟩
    · rw [hp]
      exact .inr ⟨rfl, rfl⟩
  have keep : s.latched = true ∨ latching s.poll = true → off (control s.drv.out_) →
      off (control t.drv.out_) := by
    intro hs hoff
    rcases hex.control with hc | ⟨cw, ho, hc⟩
    · rw [hc]
      exact hoff
    · rw [hc]
      rcases hok cw ho with hcw | ⟨hl, hg⟩
      · exact hcw
      · rw [hl, hg] at hs
        rcases hs with hs | hs
        · cases hs
        · cases hs
  refine ⟨hex.wired h.wired, fun ht => ?_, fun ht => ?_, fun ht cw hcw => ?_⟩
  · rcases hpoll with hp | ⟨hp, -⟩
    · rw [hp] at ht
      exact keep (.inr ht) (h.latching_off ht)
    · rw [hp] at ht
      cases ht
  · have hs := hex.latched ht
    exact keep (.inl hs) (h.staged_off hs)
  · rcases hpoll with hp | ⟨-, hp⟩
    · rw [hp] at hcw
      exact h.sent_off (hex.latched ht) cw hcw
    · rw [hp] at hcw
      cases hcw

theorem step_inv {F : FloatCast} {s t : State} {e : Event} (h : Inv s) (hok : StepOk s e)
    (hs : step F s e = some t) : Inv t := by
  have hwired := step_wired h.wired hs
  rcases step_cases hs with ⟨c, rounds, r, -, -, rfl⟩ | ⟨o, k, u, r, rfl, hprog, hx, rfl⟩ |
    ⟨i, -, hx⟩ | ⟨-, rfl⟩
  · exact ⟨hwired, h.latching_off, h.staged_off, h.sent_off⟩
  · have hu : Inv u := by
      refine exec_inv h ?_ hx
      rintro cw rfl
      refine hok cw ?_
      simp only [stages, hprog, Option.mem_def]
    exact ⟨hwired, hu.latching_off, hu.staged_off, hu.sent_off⟩
  · exact poll_inv h hx
  · exact ⟨hwired, h.latching_off, h.staged_off, h.sent_off⟩

/-- **The latch keeps the drive off.** In every run in which the command thread
stages `kDriveOn` only while no fault is latched or being latched, no request
sent after the latch carries `kDriveOn` before `enable()` is called again. -/
theorem latched_transmits_off {F : FloatCast} {s : State} (h : Reach (step F) StepOk Init s) :
    s.latched = true → ∀ cw, transmits s.poll = some cw → off cw := by
  have hinv : Inv s := h.invariant (fun _ => init_inv) fun _ _ _ hi hc hs => step_inv hi hc hs
  exact hinv.sent_off

/-! ## The race -/

/-- A running driver, and `enable()` just behind `enabled_.store(true)`: the
next operation stages `kOperatingMode | kDriveOn`. -/
def enabling : List Event :=
  [.call .driver_start fun _ => 0] ++ commands 1 ++ to_send ++ answered 0x8002 ++ quiet 1 ++
    [.call .enable fun _ => 0] ++ commands 21

/-- A cycle in which the drive reports an error: `on_cycle` latches it. -/
def error_cycle : List Event := to_send ++ answered 0xA002 ++ quiet 10

/-- The latch falls between the check and the write: `enable()` stages
`kDriveOn` on top of the 0, and the next cycle transmits it. -/
theorem latch_between_check_and_write :
    ∃ s, Reach (step no_floats) Any Init s ∧ s.latched = true ∧ transmits s.poll = some 0x8002 ∧
      ¬ off 0x8002 := by
  have heval : ((run (step no_floats) bench (enabling ++ error_cycle ++ commands 1 ++
      to_send)).map fun s => (s.latched, transmits s.poll)) = some (true, some 0x8002) := by
    decide +kernel
  obtain ⟨s, hrun, hval⟩ := Option.map_eq_some_iff.mp heval
  obtain ⟨hl, ht⟩ := Prod.mk.inj hval
  exact ⟨s, .run (.init bench_init) hrun, hl, ht, by decide⟩

/-- The latch falls behind the write: `enable()` sees the fault, stages
`kOperatingMode` and the next cycle transmits that. -/
theorem latch_behind_write :
    ∃ s, Reach (step no_floats) StepOk Init s ∧ s.latched = true ∧
      transmits s.poll = some 0x0002 ∧ off 0x0002 := by
  have heval : ((run (guarded (step no_floats) StepOk) bench (enabling ++ commands 1 ++
      error_cycle ++ commands 6 ++ to_send)).map fun s => (s.latched, transmits s.poll)) =
      some (true, some 0x0002) := by
    decide +kernel
  obtain ⟨s, hrun, hval⟩ := Option.map_eq_some_iff.mp heval
  obtain ⟨hl, ht⟩ := Prod.mk.inj hval
  have hreach : Reach (step no_floats) StepOk Init s := .guarded_run _ (.init bench_init) hrun
  exact ⟨s, hreach, hl, ht, latched_transmits_off hreach hl _ ht⟩

end Mgate.Threads.FaultLatch
