/-
What a failed `enable()` leaves behind.

`enable()` clears the latch before it has found out whether the drive can be enabled,
and its first exits do not touch the control word. A call on a disabled drive that
fails therefore leaves the drive disabled, with a control word that moves nothing and
with the fault it found, as long as the exits behind the clearing are taken with a
fault latched again, and the first three with a harmless control word (`StepOk`,
`failed_enable_safe`). `re_enable_forgets_the_fault` is a drive that still reports its
error while the latch is gone.

The reason of a fault is stored before `fault_` is set, in another section. `Told`
says that it is there in between as well.
-/
import Wavemakers.FaultLatch
import Wavemakers.StagedCommand

set_option autoImplicit false

namespace Mgate.Threads.FailedEnable

open Interleave Atomic Atomic.Prog MGateDriver

/-! ## The reason of a fault -/

/-- `latch_fault` is on its way with this reason. -/
def reports : Poll → Option String
  | .latch_zero why | .latch_enabled why | .latch_reason why => some why
  | _ => none

/-- `latch_fault` stands between its section and `fault_.store(true)`. -/
def setting_fault : Poll → Bool
  | .latch_fault _ => true
  | _ => false

/-- A reason on its way is not empty. -/
def Reports (s : State) : Prop := ∀ why, reports s.poll = some why → why ≠ ""

/-- Nor is the one that is stored, as soon as a fault is about to be set. -/
def Told (s : State) : Prop :=
  s.fault_ = true ∨ setting_fault s.poll = true → s.fault_reason_ ≠ ""

theorem drive_error_text_ne (d : ℕ) : drive_error_text d ≠ "" := by
  intro h
  have hlen : (drive_error_text d).length = 0 := by
    rw [h]
    rfl
  unfold drive_error_text at hlen
  rw [String.length_append, String.length_append] at hlen
  have hhead : "drive error ".length = 12 := rfl
  omega

section Told

variable {F : FloatCast} {s t : State}

/-- The poll thread latches no fault without a reason. -/
theorem poll_told {i : Input} (h : Reports s) (hx : poll_step F s i = some t) :
    Reports t ∧ (Told s → Told t) := by
  -- most steps are outside of `latch_fault`
  have outside : ∀ u : State, reports u.poll = none → setting_fault u.poll = false →
      u.fault_ = s.fault_ → u.fault_reason_ = s.fault_reason_ → Reports u ∧ (Told s → Told u) := by
    intro u hnone hset hf hr
    refine ⟨fun why hwhy => ?_, fun hs hu => ?_⟩
    · rw [hnone] at hwhy
      cases hwhy
    · rw [hr]
      rcases hu with hu | hu
      · exact hs (.inl (hf.symm.trans hu))
      · exact nomatch hset.symm.trans hu
  -- a step into it, or a further one, has a reason
  have inside : ∀ (u : State) (why : String), reports u.poll = some why → why ≠ "" →
      setting_fault u.poll = false → u.fault_ = s.fault_ → u.fault_reason_ = s.fault_reason_ →
      Reports u ∧ (Told s → Told u) := by
    intro u why hsome hne hset hf hr
    refine ⟨fun why' hwhy => ?_, fun hs hu => ?_⟩
    · rw [← Option.some.inj (hsome.symm.trans hwhy)]
      exact hne
    · rw [hr]
      rcases hu with hu | hu
      · exact hs (.inl (hf.symm.trans hu))
      · exact nomatch hset.symm.trans hu
  unfold poll_step at hx
  cases hp : s.poll <;> simp only [hp] at hx
  case none => cases hx
  case done => cases hx
  case latch_zero why =>
    obtain ⟨u, hu, rfl⟩ := Option.map_eq_some_iff.mp hx
    obtain ⟨d, -, rfl⟩ := Option.map_eq_some_iff.mp hu
    exact inside _ why rfl (h why (by rw [hp]; rfl)) rfl rfl rfl
  case latch_enabled why =>
    cases hx
    exact inside _ why rfl (h why (by rw [hp]; rfl)) rfl rfl rfl
  case latch_reason why =>
    split at hx
    · rename_i hfault
      cases hx
      exact ⟨nofun, fun hs _ => hs (.inl hfault)⟩
    · cases hx
      exact ⟨nofun, fun _ _ => h why (by rw [hp]; rfl)⟩
  case latch_fault newly =>
    cases hx
    have hreason : Told s → s.fault_reason_ ≠ "" := fun hs => hs (.inr (by rw [hp]; rfl))
    cases newly with
    | none => exact ⟨nofun, fun hs _ => hreason hs⟩
    | some why => exact ⟨nofun, fun hs _ => hreason hs⟩
  case zero =>
    obtain ⟨u, hu, rfl⟩ := Option.map_eq_some_iff.mp hx
    obtain ⟨d, -, rfl⟩ := Option.map_eq_some_iff.mp hu
    exact outside _ rfl rfl rfl rfl
  case copy lo hi =>
    obtain ⟨regs, -, rfl⟩ := Option.map_eq_some_iff.mp hx
    exact outside _ rfl rfl rfl rfl
  case diag =>
    obtain ⟨d, -, rfl⟩ := Option.map_eq_some_iff.mp hx
    exact inside _ _ rfl (drive_error_text_ne _) rfl rfl rfl
  case error =>
    obtain ⟨sw, -, rfl⟩ := Option.map_eq_some_iff.mp hx
    refine outside _ ?_ ?_ rfl rfl
    · simp only
      split
      · rfl
      · rfl
    · simp only
      split
      · rfl
      · rfl
  case lost =>
    split at hx
    · cases hx
      exact inside _ _ rfl (by decide) rfl rfl rfl
    · cases hx
      exact outside _ rfl rfl rfl rfl
  case live | live_list =>
    split at hx
    · cases hx
      exact outside _ rfl rfl rfl rfl
    · cases hx
      exact inside _ _ rfl (by decide) rfl rfl rfl
  case inputs =>
    split at hx
    · cases hx
      exact outside _ rfl rfl rfl rfl
    · split at hx
      · split at hx
        · split at hx
          · obtain ⟨img, -, rfl⟩ := Option.map_eq_some_iff.mp hx
            exact outside _ rfl rfl rfl rfl
          · cases hx
        · cases hx
          exact outside _ rfl rfl rfl rfl
      · cases hx
  all_goals
    -- what is left branches on an answer or on a flag, and latches nothing
    repeat' split at hx
    all_goals
      cases hx
    all_goals
      exact outside _ rfl rfl rfl rfl

end Told

/-! ## The history -/

/-- How the running call has found the drive; `disabled` is for calls of `enable()` alone. -/
structure Began where
  disabled : Bool
  faulted : Bool
  deriving DecidableEq, Repr

def note (b : Began) (s : State) : Event → Began
  | .call .enable _ => ⟨!s.enabled_, s.fault_⟩
  | .call _ _ => ⟨false, false⟩
  | _ => b

abbrev history (F : FloatCast) : System F (State × Began) := .observed F note

/-- The control word moves nothing. -/
def still (cw : UInt16) : Prop := cw &&& (indra_cw.kDriveOn ||| indra_cw.kDriveStart) = 0

instance (cw : UInt16) : Decidable (still cw) := inferInstanceAs (Decidable (_ = _))

/-- The exits of `enable()` in front of its first control word. -/
def untouched : DriveError → Bool
  | .gateway_offline | .not_in_data_exchange | .active_error => true
  | _ => false

/-- The exits in front of the clearing of the latch. -/
def uncleared : DriveError → Bool
  | .gateway_offline | .not_in_data_exchange => true
  | _ => false

/-- Why the command thread is about to fail. -/
def failing (s : State) : Event → Option DriveError
  | .cmd =>
      match s.prog with
      | .op (.set_last_error why) _ => some why
      | _ => none
  | _ => none

/-- The command thread is about to clear `fault_`. -/
def releasing (s : State) : Event → Bool
  | .cmd =>
      match s.prog with
      | .op (.store_fault _) _ => true
      | _ => false
  | _ => false

/-- The condition on a step. `enable()` on a disabled drive leaves by one of its first exits
only with a harmless control word, and once it has cleared a latched fault it fails only
with a fault latched again. And the latch is not cleared between the two halves of
`latch_fault` when the reason is gone. -/
structure StepOk (x : State × Began) (e : Event) : Prop where
  exits : ∀ why ∈ failing x.1 e, x.2.disabled = true → untouched why = true →
    still (control x.1.drv.out_)
  faults : ∀ why ∈ failing x.1 e, x.2.disabled = true → uncleared why = false →
    x.2.faulted = true → x.1.fault_ = true
  reason : releasing x.1 e = true → setting_fault x.1.poll = true → x.1.fault_reason_ ≠ ""

instance (x : State × Began) (e : Event) : Decidable (StepOk x e) :=
  decidable_of_iff
    ((∀ why ∈ failing x.1 e, x.2.disabled = true → untouched why = true →
        still (control x.1.drv.out_)) ∧
      (∀ why ∈ failing x.1 e, x.2.disabled = true → uncleared why = false →
        x.2.faulted = true → x.1.fault_ = true) ∧
      (releasing x.1 e = true → setting_fault x.1.poll = true → x.1.fault_reason_ ≠ ""))
    ⟨fun h => ⟨h.1, h.2.1, h.2.2⟩, fun h => ⟨h.exits, h.faults, h.reason⟩⟩

/-! ## What holds on the way -/

section Calls

variable {F : FloatCast} {cfg : IndraDriveActuator.Config} {x y : State × Began}
  {disabled faulted quiet : Prop}

abbrev inside (F : FloatCast) : Setting (State × Began) Resp :=
  (history F).setting StepOk fun _ _ => True

/-- In a call of `enable()` on a disabled drive: the drive is disabled, the fault it found is
latched, and the control word is harmless, as far as each is asked for. -/
structure At (disabled faulted quiet : Prop) (x : State × Began) : Prop where
  reports : Reports x.1
  told : Told x.1
  disabled : x.2.disabled = true → disabled → x.1.enabled_ = false
  faulted : x.2.disabled = true → faulted → x.2.faulted = true → x.1.fault_ = true
  quiet : x.2.disabled = true → quiet → still (control x.1.drv.out_)

theorem At.mono {disabled' faulted' quiet' : Prop} (h : At disabled faulted quiet x)
    (hd : disabled' → disabled) (hf : faulted' → faulted) (hq : quiet' → quiet) :
    At disabled' faulted' quiet' x :=
  ⟨h.reports, h.told, fun ha hn => h.disabled ha (hd hn), fun ha hn => h.faulted ha (hf hn),
    fun ha hn => h.quiet ha (hq hn)⟩

theorem still_zero : still 0 := by decide

theorem others_told (h : (history F).Others StepOk x y) (hx : Reports x.1) :
    y.2 = x.2 ∧ Reports y.1 ∧ (Told x.1 → Told y.1) := by
  rcases h.step with ⟨i, -, hstep⟩ | ⟨-, hstep⟩
  · obtain ⟨hp, hnote⟩ := observe_eq_some.mp hstep
    exact ⟨hnote, poll_told hx hp⟩
  · have hstep : observe (step F) note x .request_abort = some y := hstep
    obtain ⟨hp, hnote⟩ := observe_eq_some.mp hstep
    rw [← Option.some.inj hp]
    exact ⟨hnote, hx, id⟩

/-- The poll thread keeps all of it. -/
theorem at_stable : (inside F).Stable (At disabled faulted quiet) := by
  intro x y hx hs
  have hd : Disturbed x.1 y.1 := hs.disturbed
  have hstill : still (control x.1.drv.out_) → still (control y.1.drv.out_) := by
    intro hstill
    rcases hd.control with hc | hc
    · rw [hc]
      exact hstill
    · rw [hc]
      exact still_zero
  obtain ⟨hnote, hreports, htold⟩ := others_told hs hx.reports
  refine ⟨hreports, htold hx.told, fun ha hn => ?_, fun ha hn hf => ?_, fun ha hn => ?_⟩
  · rw [hnote] at ha
    exact hd.disabled (hx.disabled ha hn)
  · rw [hnote] at ha hf
    exact (hd.fault (hx.faulted ha hn hf)).1
  · rw [hnote] at ha
    exact hstill (hx.quiet ha hn)

theorem own_history {o : Op} {r : Resp o} (h : (history F).Own StepOk x o y r) : y.2 = x.2 := by
  have hs : observe (step F) note x .cmd = some y := h.step
  exact (observe_eq_some.mp hs).2

/-- It is a part of clearing the latch. -/
def clears : Op → Bool
  | .clear_fault_reason | .store_fault _ => true
  | _ => false

/-- What any other operation keeps. -/
theorem own_at {o : Op} {r : Resp o} (h : (history F).Own StepOk x o y r) (ho : clears o = false)
    (hx : At disabled faulted quiet x) :
    At (disabled ∧ o ≠ .store_enabled true) faulted (quiet ∧ ∀ cw, o ≠ .set_control cw) y := by
  obtain ⟨k, u, -, hexec, hy⟩ := h.exec
  have hy : y.1 = { u with prog := k r } := hy
  have hwired : Wired x.1 := h.wired
  have hex := exec_spec hwired hexec
  have hst := exec_stores hexec
  have hfault : u.fault_ = x.1.fault_ := by
    refine hst.fault.resolve_right ?_
    rintro rfl
    cases ho
  have hreason : u.fault_reason_ = x.1.fault_reason_ := by
    refine hst.reason.resolve_right ?_
    rintro ⟨rfl, -⟩
    cases ho
  -- the poll thread stays where it is, begins or is gone
  have hpoll : (∀ why, reports u.poll = some why → reports x.1.poll = some why) ∧
      (setting_fault u.poll = true → setting_fault x.1.poll = true) := by
    rcases hex.poll with hp | ⟨-, hp⟩ | ⟨-, hp⟩
    · rw [hp]
      exact ⟨fun _ => id, id⟩
    · rw [hp]
      exact ⟨nofun, nofun⟩
    · rw [hp]
      exact ⟨nofun, nofun⟩
  rw [show y = (y.1, y.2) from rfl, own_history h, hy]
  refine ⟨fun why hwhy => hx.reports why (hpoll.1 why hwhy), fun ht => ?_, fun ha hn => ?_,
    fun ha hn hf => ?_, fun ha hn => ?_⟩
  · show u.fault_reason_ ≠ ""
    rw [hreason]
    refine hx.told (ht.imp (fun hf => ?_) hpoll.2)
    rw [← hfault]
    exact hf
  · exact hst.disabled hn.2 (hx.disabled ha hn.1)
  · show u.fault_ = true
    rw [hfault]
    exact hx.faulted ha hn hf
  · show still (control u.drv.out_)
    rcases hex.control with hc | ⟨cw, hcw, -⟩
    · rw [hc]
      exact hx.quiet ha hn.1
    · exact absurd hcw (hn.2 cw)

/-- Such an operation in a program. -/
theorem triple_act {o : Op} (ho : clears o = false) {disabled' quiet' : Prop}
    (hd : disabled' → disabled ∧ o ≠ .store_enabled true)
    (hq : quiet' → quiet ∧ ∀ cw, o ≠ .set_control cw) :
    Triple (inside F) (At disabled faulted quiet) (act o) fun _ => At disabled' faulted quiet' :=
  Triple.lift at_stable (fun _ _ => trivial) (fun _ _ _ hx hs => (own_at hs ho hx).mono hd id hq)
    fun _ => at_stable

theorem at_kept : (history F).Kept StepOk (fun _ _ => True) (At disabled faulted quiet) := by
  refine ⟨at_stable, fun {o x y r} ho hx hs => ?_⟩
  have hclears : clears o = false := by
    cases o <;> first
      | rfl
      | cases ho
  refine (own_at hs hclears hx).mono (fun hn => ⟨hn, ?_⟩) id fun hn => ⟨hn, ?_⟩
  · rintro rfl
    cases ho
  · rintro cw rfl
    cases ho

/-- What the steps that store why a call has failed are asked for. -/
theorem own_fails {why : DriveError} {r : Resp (.set_last_error why)}
    (h : (history F).Own StepOk x (.set_last_error why) y r) (hx : At disabled faulted quiet x) :
    At disabled (faulted ∨ uncleared why = false) (quiet ∨ untouched why = true) y := by
  obtain ⟨k, u, hprog, hexec, hy⟩ := h.exec
  have hprog : x.1.prog = .op (.set_last_error why) k := hprog
  have hmeets : StepOk x .cmd := h.meets
  have hwhy : why ∈ failing x.1 .cmd := by
    simp only [failing, hprog, Option.mem_def]
  have hnew := at_kept.passive (o := .set_last_error why) rfl hx h
  have hy : y.1 = { u with prog := k r } := hy
  cases hexec
  have hnote := own_history h
  refine ⟨hnew.reports, hnew.told, hnew.disabled, fun ha hn hf => ?_, fun ha hn => ?_⟩
  · rcases hn with hn | hn
    · exact hnew.faulted ha hn hf
    · rw [hnote] at ha hf
      rw [hy]
      exact hmeets.faults why hwhy ha hn hf
  · rcases hn with hn | hn
    · exact hnew.quiet ha hn
    · rw [hnote] at ha
      rw [hy]
      exact hmeets.exits why hwhy ha hn

/-- The latch has been cleared halfway. -/
structure Half (x : State × Began) : Prop where
  reports : Reports x.1
  disabled : x.2.disabled = true → x.1.enabled_ = false

theorem half_stable : (inside F).Stable Half := by
  intro x y hx hs
  have hd : Disturbed x.1 y.1 := hs.disturbed
  obtain ⟨hnote, hreports, -⟩ := others_told hs hx.reports
  refine ⟨hreports, fun ha => hd.disabled (hx.disabled ?_)⟩
  rw [← hnote]
  exact ha

theorem own_clears {r : Resp .clear_fault_reason}
    (h : (history F).Own StepOk x .clear_fault_reason y r) (hx : At True True False x) : Half y := by
  obtain ⟨k, u, -, hexec, hy⟩ := h.exec
  have hy : y.1 = { u with prog := k r } := hy
  cases hexec
  have hnote := own_history h
  refine ⟨?_, fun ha => ?_⟩
  · rw [hy]
    exact hx.reports
  · rw [hnote] at ha
    rw [hy]
    exact hx.disabled ha trivial

/-- The other half, unless `latch_fault` is just about to set `fault_` without a reason. -/
theorem own_released {r : Resp (.store_fault false)}
    (h : (history F).Own StepOk x (.store_fault false) y r) (hx : Half x) :
    At True False False y := by
  obtain ⟨k, u, hprog, hexec, hy⟩ := h.exec
  have hprog : x.1.prog = .op (.store_fault false) k := hprog
  have hmeets : StepOk x .cmd := h.meets
  have hreleasing : releasing x.1 .cmd = true := by
    simp only [releasing, hprog]
  have hy : y.1 = { u with prog := k r } := hy
  cases hexec
  have hnote := own_history h
  refine ⟨?_, ?_, fun ha _ => ?_, fun _ => False.elim, fun _ => False.elim⟩
  · rw [hy]
    exact hx.reports
  · rw [hy]
    rintro (hf | hset)
    · cases hf
    · exact hmeets.reason hreleasing hset
  · rw [hnote] at ha
    rw [hy]
    exact hx.disabled ha

/-- Torque is given up. -/
theorem own_disables {r : Resp (.store_enabled false)}
    (h : (history F).Own StepOk x (.store_enabled false) y r) (hx : At disabled faulted quiet x) :
    At True faulted quiet y := by
  have hnew := own_at h rfl hx
  obtain ⟨k, u, -, hexec, hy⟩ := h.exec
  have hy : y.1 = { u with prog := k r } := hy
  cases hexec
  refine ⟨hnew.reports, hnew.told, fun _ _ => ?_, hnew.faulted, fun ha hn => hnew.quiet ha ⟨hn, nofun⟩⟩
  rw [hy]

theorem own_quiets {cw : UInt16} {r : Resp (.set_control cw)}
    (h : (history F).Own StepOk x (.set_control cw) y r) (hcw : still cw)
    (hx : At disabled faulted quiet x) : At disabled faulted True y := by
  have hnew := own_at h rfl hx
  obtain ⟨d, p, hy, -, hvalue⟩ := h.set_control
  have hy : y.1 = { x.1 with drv := d, prog := p } := hy
  refine ⟨hnew.reports, hnew.told, fun ha hn => hnew.disabled ha ⟨hn, nofun⟩, hnew.faulted,
    fun _ _ => ?_⟩
  rw [hy]
  show still (control d.out_)
  rw [hvalue]
  exact hcw

/-- What `enable()` has returned. -/
def Result (b : Bool) (x : State × Began) : Prop :=
  At False False False x ∧ (b = false → At True True True x)

theorem result_stable (b : Bool) : (inside F).Stable (Result b) :=
  fun x y hx hs => ⟨at_stable x y hx.1 hs, fun hb => at_stable x y (hx.2 hb) hs⟩

theorem At.any (h : At disabled faulted quiet x) : At False False False x :=
  h.mono False.elim False.elim False.elim

theorem At.result (h : At True True True x) (b : Bool) : Result b x := ⟨h.any, fun _ => h⟩

/-- The failure path behind the first control word. -/
theorem abort_result : Triple (inside F) (At False True False) IndraDrive.abort_enable Result := by
  refine .op (M := fun _ => At True True False) at_stable (fun _ _ => trivial)
    (fun x y r hx hs => own_disables hs hx) fun _ => ?_
  refine .op (M := fun _ => At True True True) at_stable (fun _ _ => trivial)
    (fun x y r hx hs => own_quiets hs (by decide) hx) fun _ => ?_
  exact (Triple.pure (Q := Result) (result_stable false)).weaken (fun x hx => hx.result false)
    fun _ _ => id

theorem enable_result {drive : IndraDriveConfig} {rounds : ℕ → ℕ} :
    Triple (inside F) (At True True False) (IndraDrive.enable drive rounds) Result := by
  -- the exits in front of the first control word
  have hfail : ∀ {faulted : Prop} why, untouched why = true → (faulted ∨ uncleared why = false) →
      Triple (inside F) (At True faulted False) (IndraDrive.fail why) Result := by
    intro faulted why hun hwhy
    refine System.triple_fail (fun _ _ _ => trivial) at_kept result_stable fun x y r hx hs => ?_
    have hy := own_fails hs hx
    exact (hy.mono id (fun _ => hwhy) fun _ => .inr hun).result false
  -- a step that writes neither the latch nor `enabled_`
  have hact : ∀ {faulted : Prop} (o : Op), clears o = false → o ≠ .store_enabled true →
      Triple (inside F) (At True faulted False) (act o) fun _ => At True faulted False :=
    fun o ho hen => triple_act ho (fun _ => ⟨trivial, hen⟩) False.elim
  have hany : ∀ o : Op, clears o = false →
      Triple (inside F) (At False False False) (act o) fun _ => At False False False :=
    fun o ho => triple_act ho False.elim False.elim
  have hwait : ∀ {what : String} {pred : UInt16 → Bool} {rounds : ℕ},
      Triple (inside F) (At False False False) (IndraDrive.wait_for what pred true rounds)
        fun ok => At False (ok = false) False := by
    intro what pred rounds
    refine System.triple_wait_for (fun _ _ _ => trivial) at_kept (fun _ => at_stable)
      (fun x y raw hx hs _ => ?_) fun why x y r hwhy hx hs => ?_
    · exact (at_kept.passive rfl hx hs).mono id nofun id
    · have hbehind : uncleared why = false := by
        cases why <;> first
          | rfl
          | cases hwhy
      exact (own_fails hs hx).mono id (fun _ => .inr hbehind) False.elim
  -- what follows a wait
  have hnext : ∀ {what : String} {pred : UInt16 → Bool} {rounds : ℕ} {k : Drive Bool},
      Triple (inside F) (At False False False) k Result →
      Triple (inside F) (At False False False) (do
        let ok ← IndraDrive.wait_for what pred true rounds
        if ok = false then return ← IndraDrive.abort_enable
        k) Result := by
    intro what pred rounds k hk
    refine .bind hwait fun ok => .ite (fun hok => ?_) fun _ => ?_
    · exact abort_result.weaken (fun x hx => hx.mono id (fun _ => hok) id) fun _ _ => id
    · exact hk.weaken (fun x hx => hx.any) fun _ _ => id
  refine .bind (hact _ rfl nofun) fun _ => .bind (hact _ rfl nofun) fun online =>
    .ite (fun _ => hfail _ rfl (.inl trivial)) fun _ => ?_
  refine .bind (System.triple_passive (fun _ _ _ => trivial) at_kept (passive_slave_live _))
    fun live => .ite (fun _ => hfail _ rfl (.inl trivial)) fun _ => ?_
  refine .bind (Triple.lift (M := fun _ => Half) at_stable (fun _ _ => trivial)
    (fun x y r hx hs => own_clears hs hx) fun _ => half_stable) fun _ => ?_
  refine .bind (Triple.lift (M := fun _ => At True False False) half_stable (fun _ _ => trivial)
    (fun x y r hx hs => own_released hs hx) fun _ => at_stable) fun _ => ?_
  refine .bind (System.triple_passive (fun _ _ _ => trivial) at_kept passive_status_word)
    fun sw => .ite (fun _ => hfail _ rfl (.inr rfl)) fun _ => ?_
  refine Triple.weaken (P := At False False False) ?_ (fun x hx => hx.any) fun _ _ => id
  refine .bind (hany _ rfl) fun _ => .bind (hany _ rfl) fun _ => .bind
    (System.triple_passive (fun _ _ _ => trivial) at_kept (passive_act rfl)) fun p => ?_
  refine .bind (hany _ rfl) fun _ => .bind (hany _ rfl) fun _ => hnext (hnext ?_)
  refine .bind (hany _ rfl) fun _ => .bind (hany _ rfl) fun _ => hnext ?_
  refine .bind (System.triple_passive (fun _ _ _ => trivial) at_kept (passive_act rfl)) fun p => ?_
  refine .bind (hany _ rfl) fun _ => .bind (hany _ rfl) fun _ => hnext ?_
  exact (Triple.pure (Q := Result) (result_stable true)).weaken (fun x hx => ⟨hx, nofun⟩)
    fun _ _ => id

/-! ## The runs -/

/-- When call `c` has returned `b`. -/
def Returned (c : Call) (b : Bool) (x : State × Began) : Prop :=
  At False False False x ∧ (c = .enable → b = false → At True True True x)

theorem returned_stable (c : Call) (b : Bool) : (inside F).Stable (Returned c b) :=
  fun x y hx hs => ⟨at_stable x y hx.1 hs, fun hc hb => at_stable x y (hx.2 hc hb) hs⟩

theorem clears_passive {o : Op} (ho : passive o = true) : clears o = false := by
  cases o <;> first
    | rfl
    | cases ho

theorem clears_steering {o : Op} (ho : steering o = true) : clears o = false := by
  cases o <;> first
    | rfl
    | cases ho

/-- Apart from `enable()` nothing touches the latch. -/
theorem program_unclearing (rounds : ℕ → ℕ) {c : Call} (hc : c ≠ .enable ∧ c ≠ .actuator_start) :
    (c.program cfg rounds).All (clears · = false) := by
  have hsteering : ∀ {α : Type} {p : Drive α}, Steering p → p.All (clears · = false) :=
    fun hp => hp.mono fun _ => clears_steering
  have hstop : driver_stop.All (clears · = false) := all_driver_stop rfl rfl rfl rfl
  have hmove : ∀ p v, (IndraDrive.move_to cfg.drive p v).All (clears · = false) :=
    all_move_to (fun _ => clears_passive) (fun _ _ => rfl) _
  cases c with
  | enable => exact absurd rfl hc.1
  | actuator_start => exact absurd rfl hc.2
  | driver_start => exact all_bind (all_lift rfl) fun _ => all_pure _ _
  | driver_stop => exact all_bind hstop fun _ => all_pure _ _
  | move_to p v => exact hmove p v
  | halt => exact hsteering steering_halt
  | disable => exact hsteering (steering_disable _)
  | clear_errors => exact hsteering (steering_clear_errors _)
  | shutdown => exact hsteering steering_shutdown
  | actuator_halt => exact all_actuator_halt (fun _ => clears_passive) (fun _ _ => rfl) _
  | actuator_stop =>
      refine all_bind (all_lift rfl) fun _ => all_bind (hsteering (steering_disable _)) fun _ => ?_
      exact all_bind hstop fun _ => all_pure _ _
  | write_setpoint p v =>
      refine all_bind (hmove _ _) fun ok => all_ite (all_pure _ _) ?_
      exact all_bind (all_lift rfl) fun _ => all_bind (all_lift rfl) fun _ => all_pure _ _

theorem unclearing_frame {α : Type} {p : Drive α} (hp : p.All (clears · = false)) :
    Triple (inside F) (At False False False) p fun _ => At False False False :=
  Triple.frame at_stable (fun _ _ _ _ => trivial)
    (fun _ _ _ _ ho hx hs => (own_at hs ho hx).mono False.elim id False.elim) hp

/-- `start()` tries to enable in the end. -/
theorem start_result (rounds : ℕ → ℕ) :
    Triple (inside F) (At True True False) (IndraDriveActuator.start cfg rounds)
      fun _ => At False False False := by
  have hpassive : ∀ {α : Type} {p : Drive α}, Passive p →
      Triple (inside F) (At True True False) p fun _ => At True True False :=
    fun hp => System.triple_passive (fun _ _ _ => trivial) at_kept hp
  have hact : ∀ o : Op, clears o = false → o ≠ .store_enabled true →
      Triple (inside F) (At True True False) (act o) fun _ => At True True False :=
    fun o ho hen => triple_act ho (fun _ => ⟨trivial, hen⟩) False.elim
  have hstop : Triple (inside F) (At False False False) IndraDriveActuator.stop_and_fail
      fun _ => At False False False :=
    unclearing_frame (all_bind (all_driver_stop rfl rfl rfl rfl) fun _ => all_pure _ _)
  have hfail : Triple (inside F) (At True True False) IndraDriveActuator.stop_and_fail
      fun _ => At False False False := hstop.weaken (fun _ hx => hx.any) fun _ _ => id
  refine .bind (hact _ rfl nofun) fun _ => .bind (hact _ rfl nofun) fun _ => ?_
  refine .bind (hpassive (passive_wait_for_data _)) fun data => .ite (fun _ => hfail) fun _ => ?_
  refine .bind (hact _ rfl nofun) fun first => .bind (hact _ rfl nofun) fun second => ?_
  refine .ite (fun _ => hfail) fun _ => .ite (fun _ => hfail) fun _ => ?_
  refine .ite (fun _ => hfail) fun _ => .ite (fun _ => hfail) fun _ => ?_
  refine .bind (hpassive (passive_slave_live _)) fun live => .ite (fun _ => hfail) fun _ => ?_
  refine .bind (enable_result.weaken (fun _ => id) fun _ _ hx => hx.1) fun enabled => ?_
  exact .ite (fun _ => hstop) fun _ => Triple.pure (Q := fun _ => At False False False) at_stable

/-- **Every call** from where it begins. -/
theorem program_returned (c : Call) (rounds : ℕ → ℕ) (hx : At True True False x) :
    (c.program cfg rounds).Safe (inside F) (Returned c) x := by
  by_cases hc : c ≠ .enable ∧ c ≠ .actuator_start
  · refine (unclearing_frame (program_unclearing rounds hc) x hx.any).mono fun b y hy => ⟨hy, ?_⟩
    exact fun heq => absurd heq hc.1
  · cases c with
    | enable => exact (enable_result x hx).mono fun b y hy => ⟨hy.1, fun _ => hy.2⟩
    | actuator_start => exact (start_result rounds x hx).mono fun b y hy => ⟨hy, nofun⟩
    | _ => exact absurd ⟨nofun, nofun⟩ hc

/-- Nothing has been called. -/
structure Start (x : State × Began) : Prop where
  init : Init x.1
  fresh : x.2 = ⟨false, false⟩

theorem reach_safe (h : Reach (history F).step StepOk Start x) :
    x.1.prog.Safe (inside F) (Returned x.1.call) x := by
  refine System.safe (S := history F) (fun y hy => init_wired hy.init) ?_ ?_ h
  · rintro ⟨s, b⟩ ⟨hinit, -⟩
    obtain ⟨gateway, cfg, -, -, -, -, -, -, -, -, hfault, -, -, -, -, -, -, hprog, hpoll⟩ := hinit
    refine System.safe_idle (returned_stable _ _) hprog ⟨⟨?_, ?_, ?_, ?_, ?_⟩, fun _ => nofun⟩
    · intro why hwhy
      rw [hpoll] at hwhy
      cases hwhy
    · rintro (hf | hset)
      · exact nomatch hfault.symm.trans hf
      · rw [hpoll] at hset
        cases hset
    · exact fun _ => False.elim
    · exact fun _ => False.elim
    · exact fun _ => False.elim
  · intro y z c rounds b _ hC _ hQ hs hz
    refine program_returned c rounds ?_
    have hs : observe (step F) note y (.call c rounds) = some z := hs
    have hz : z.1 = { y.1 with call := c, prog := c.program y.1.cfg rounds } := hz
    have hnote : z.2 = note y.2 y.1 (.call c rounds) := (observe_eq_some.mp hs).2
    -- only `enable()` is asked for something, and it finds what the history notes
    have hfound : z.2.disabled = true → y.1.enabled_ = false ∧
        (z.2.faulted = true → y.1.fault_ = true) := by
      rw [hnote]
      intro ha
      cases c with
      | enable =>
          have ha : (!y.1.enabled_) = true := ha
          exact ⟨by simpa using ha, id⟩
      | _ => cases ha
    refine ⟨?_, ?_, fun ha _ => ?_, fun ha _ hf => ?_, fun _ => False.elim⟩
    · rw [hz]
      exact hQ.1.reports
    · rw [hz]
      exact hQ.1.told
    · rw [hz]
      exact (hfound ha).1
    · rw [hz]
      exact (hfound ha).2 hf

/-- **A failed `enable()` leaves the drive as it found it.** In every run whose steps meet the
condition: when `enable()` was called on a disabled drive and has returned false, the drive is
disabled, the staged control word has neither `kDriveOn` nor `kDriveStart`, and a fault that
was latched at the call still is, with its reason. -/
theorem failed_enable_safe (h : Reach (history F).step StepOk Start x)
    (hcall : x.1.call = .enable) (hret : x.1.prog = .pure false) (hoff : x.2.disabled = true) :
    x.1.enabled_ = false ∧ still (control x.1.drv.out_) ∧
      (x.2.faulted = true → x.1.fault_ = true ∧ x.1.fault_reason_ ≠ "") := by
  have hsafe := reach_safe h
  rw [hret] at hsafe
  have hat := hsafe.result.2 hcall rfl
  refine ⟨hat.disabled hoff trivial, hat.quiet hoff trivial, fun hf => ?_⟩
  have hfault := hat.faulted hoff trivial hf
  exact ⟨hfault, hat.told (.inl hfault)⟩

end Calls

/-! ## On the bench -/

/-- A cycle that loses the link, up to the next one. -/
def link_lost : List Event :=
  to_send ++ [.poll (.write { status := .SocketError } false)] ++ quiet 3 ++ [.poll (.time 10)] ++
    quiet 8

/-- `enable()` while the gateway is offline. -/
def enables_offline : List Event := [.call .enable fun _ => 0] ++ commands 3

/-- What the last call returned and left behind. -/
def left (x : State × Began) : Call × Option Bool × Began × Bool × UInt16 :=
  (x.1.call, OffCommand.returned x.1.prog, x.2, x.1.fault_, control x.1.drv.out_)

theorem left_eq {x : State × Began} {c : Call} {r f : Bool} {b : Began} {cw : UInt16}
    (h : left x = (c, some r, b, f, cw)) :
    x.1.call = c ∧ x.1.prog = .pure r ∧ x.2 = b ∧ x.1.fault_ = f ∧ control x.1.drv.out_ = cw := by
  simp only [left, Prod.mk.injEq] at h
  obtain ⟨hcall, hret, hb, hf, hcw⟩ := h
  exact ⟨hcall, OffCommand.eq_pure_of_returned hret, hb, hf, hcw⟩

theorem bench_start : Start (bench, ⟨false, false⟩) := ⟨bench_init, rfl⟩

/-- The fault of the lost link stays, and the 0 with it. -/
theorem failed_enable_bench :
    ∃ x, Reach (history no_floats).step StepOk Start x ∧ x.1.call = .enable ∧
      x.1.prog = .pure false ∧ x.2 = ⟨true, true⟩ ∧ x.1.enabled_ = false ∧
      still (control x.1.drv.out_) ∧ x.1.fault_ = true ∧ x.1.fault_reason_ ≠ "" := by
  have heval : (run (guarded (history no_floats).step StepOk) (bench, ⟨false, false⟩)
      (enables ++ link_lost ++ enables_offline)).map left =
      some (.enable, some false, ⟨true, true⟩, true, 0) := by
    decide +kernel
  obtain ⟨x, hx, hleft⟩ := Option.map_eq_some_iff.mp heval
  obtain ⟨hcall, hret, hb, -, -⟩ := left_eq hleft
  have hreach : Reach (history no_floats).step StepOk Start x := .guarded_run _ (.init bench_start) hx
  obtain ⟨hoff, hstill, hfault⟩ := failed_enable_safe hreach hcall hret (by rw [hb])
  exact ⟨x, hreach, hcall, hret, hb, hoff, hstill, hfault (by rw [hb])⟩

/-- The drive still reports its error and `enable()` fails for it: the latch is gone. -/
theorem re_enable_forgets_the_fault :
    ∃ x, Reach (history no_floats).step Any Start x ∧ x.1.call = .enable ∧
      x.1.prog = .pure false ∧ x.2 = ⟨true, true⟩ ∧ x.1.fault_ = false := by
  have heval : (run (history no_floats).step (bench, ⟨false, false⟩)
      (enables ++ FaultLatch.error_cycle ++ [.call .enable fun _ => 0] ++ commands 8)).map left =
      some (.enable, some false, ⟨true, true⟩, false, 0) := by
    decide +kernel
  obtain ⟨x, hx, hleft⟩ := Option.map_eq_some_iff.mp heval
  obtain ⟨hcall, hret, hb, hf, -⟩ := left_eq hleft
  exact ⟨x, .run (.init bench_start) hx, hcall, hret, hb, hf⟩

/-- The link is lost inside of `halt()`: its control word is staged on top of the 0, and
`enable()` leaves it there. -/
theorem offline_enable_keeps_run_word :
    ∃ x, Reach (history no_floats).step Any Start x ∧ x.1.call = .enable ∧
      x.1.prog = .pure false ∧ x.2.disabled = true ∧ ¬ still (control x.1.drv.out_) := by
  have heval : (run (history no_floats).step (bench, ⟨false, false⟩)
      (enables ++ [.call .halt fun _ => 0] ++ commands 1 ++ link_lost ++ commands 1 ++
        enables_offline)).map left =
      some (.enable, some false, ⟨true, true⟩, true, 0x8002) := by
    decide +kernel
  obtain ⟨x, hx, hleft⟩ := Option.map_eq_some_iff.mp heval
  obtain ⟨hcall, hret, hb, -, hcw⟩ := left_eq hleft
  refine ⟨x, .run (.init bench_start) hx, hcall, hret, by rw [hb], ?_⟩
  rw [hcw]
  decide

end Mgate.Threads.FailedEnable
