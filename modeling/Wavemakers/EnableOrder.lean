/-
The order in which `enable()` switches the drive on, and the target it starts with.

`Log` notes what the running `enable()` has observed, the target it has parked, and the
target that was parked when the image in flight was copied. `enable()` stages
`kDriveOn` only behind the two status words it waits for, and `kDriveStart` behind
`AF` and with the target on a position read after that (`Owes`). What is copied from
then on carries that target until the next one is written (`enable_in_order`).

An image that was copied before can still arrive behind it. It carries `kDriveStart`
only if the drive was already started when `enable()` was called
(`restarted_while_sending`).
-/
import Mathlib.Data.List.Forall2
import Wavemakers.StagedCommand
import Wavemakers.TagRegistry
import Wavemakers.WholeFlush

set_option autoImplicit false

namespace Mgate.Threads.EnableOrder

open Interleave Atomic Atomic.Prog MGateDriver

/-! ## Observations in order -/

section Observed

variable {α : Type} {ps : List (α → Prop)} {p : α → Prop} {trace later : List α} {e : α}

/-- The trace has entries for all of these, in this order. -/
def Observed (ps : List (α → Prop)) (trace : List α) : Prop :=
  List.SublistForall₂ (fun p e => p e) ps trace

theorem observed_nil : Observed [] trace := .nil

theorem Observed.append (h : Observed ps trace) : Observed ps (trace ++ later) := by
  obtain ⟨l, hl, hsub⟩ := List.sublistForall₂_iff.mp h
  exact List.sublistForall₂_iff.mpr ⟨l, hl, hsub.trans (List.sublist_append_left _ _)⟩

theorem Observed.snoc (h : Observed ps trace) (he : p e) : Observed (ps ++ [p]) (trace ++ [e]) := by
  obtain ⟨l, hl, hsub⟩ := List.sublistForall₂_iff.mp h
  refine List.sublistForall₂_iff.mpr ⟨l ++ [e], ?_, hsub.append (.refl _)⟩
  exact List.rel_append hl (.cons he .nil)

/-- The last entry may be left out. -/
theorem Observed.init {qs : List (α → Prop)} (h : Observed (ps ++ qs) trace) : Observed ps trace := by
  obtain ⟨l, hl, hsub⟩ := List.sublistForall₂_iff.mp h
  refine List.sublistForall₂_iff.mpr ⟨l.take ps.length, ?_, (List.take_sublist _ _).trans hsub⟩
  have htake := List.forall₂_take ps.length hl
  rw [List.take_left] at htake
  exact htake

end Observed

/-! ## The history -/

inductive Seen where
  /-- a status word that was read -/
  | status (sw : UInt16)
  /-- the input image the position was read from -/
  | position (img : ProcessImage)

/-- A status word with this property. -/
def Seen.word (pred : UInt16 → Bool) : Seen → Prop
  | .status sw => pred sw = true
  | .position _ => False

/-- The position was read from this image. -/
def Seen.from_image (img : ProcessImage) (e : Seen) : Prop := e = .position img

def starts (cw : UInt16) : Bool := cw &&& indra_cw.kDriveStart != 0

def turns_on (cw : UInt16) : Bool := cw &&& indra_cw.kDriveOn != 0

/-- The calls that enable the drive. -/
def enabling : Call → Bool
  | .enable | .actuator_start => true
  | _ => false

/-- `kDriveStart` is neither staged nor in flight. -/
def at_rest (s : State) : Bool :=
  !starts (control s.drv.out_) && (first s.poll).all fun regs => !starts (control (image regs))

structure Log where
  /-- what the running `enable()` has observed -/
  trace : List Seen
  /-- the drive was at rest when it was called -/
  clean : Bool
  /-- the raw target that `kDriveStart` was staged with, up to the next target -/
  parked : Option ℕ
  /-- what was parked when the image in flight was copied -/
  flight : Option ℕ

def Log.perform (F : FloatCast) (h : Log) (s : State) : Op → Log
  | .enter_enable => { h with trace := [], clean := at_rest s }
  | .read_int .StatusWord =>
      match s.drv.read_int F (s.tag .StatusWord) with
      | .ok raw => { h with trace := h.trace ++ [.status (UInt16.ofNat (to_unsigned 16 raw))] }
      | .error _ => h
  | .read .Position => { h with trace := h.trace ++ [.position s.drv.in_] }
  | .write .TargetPosition _ => { h with parked := none }
  | .set_control cw =>
      if enabling s.call = true ∧ starts cw = true then
        { h with parked := some (target s.drv.out_) }
      else h
  | _ => h

def note (F : FloatCast) (h : Log) (s : State) : Event → Log
  | .cmd =>
      match s.prog with
      | .op o _ => h.perform F s o
      | .pure _ => h
  | .poll i => if flow s i = .copied then { h with flight := h.parked } else h
  | _ => h

abbrev log (F : FloatCast) : System F (State × Log) := .observed F (note F)

/-! ## What the steps note -/

section Steps

variable {F : FloatCast} {x y : State × Log} {o : Op} {r : Resp o}

/-- The drive's outputs are sent whole, and a drive that was at rest still is. -/
structure Calm (x : State × Log) : Prop where
  whole : Whole x.1
  staged : x.2.clean = true → starts (control x.1.drv.out_) = false
  sent : x.2.clean = true → ∀ regs, first x.1.poll = some regs →
    starts (control (image regs)) = false

/-- What the status words and the position have been, in order. -/
def switched_on : List (Seen → Prop) := [Seen.word in_operating_mode, Seen.word power_ready]

def with_torque_on : List (Seen → Prop) := switched_on ++ [Seen.word with_torque]

/-- `kDriveOn` and `kDriveStart` are staged in the order of the drive, and the target that
the drive is started with is a position read with torque on. -/
structure InOrder (x : State × Log) (cw : UInt16) : Prop where
  on : turns_on cw = true → Observed switched_on x.2.trace
  start : starts cw = true → ∃ img, Observed (with_torque_on ++ [Seen.from_image img]) x.2.trace ∧
    target x.1.drv.out_ = position img

/-- What `enable()` owes when it stages a control word. -/
def Owes (x : State × Log) : Op → Prop
  | .set_control cw => enabling x.1.call = true → InOrder x cw ∧ (starts cw = true → Calm x)
  | _ => True

abbrev inside (F : FloatCast) : Setting (State × Log) Resp := (log F).setting Any Owes

theorem own_log (h : (log F).Own Any x o y r) : y.2 = x.2.perform F x.1 o := by
  obtain ⟨k, u, hprog, -, -⟩ := h.exec
  have hprog : x.1.prog = .op o k := hprog
  have hs : observe (step F) (note F) x .cmd = some y := h.step
  rw [(observe_eq_some.mp hs).2]
  simp only [note, hprog]

/-- The others change neither what has been observed nor what is parked. -/
theorem others_log (h : (log F).Others Any x y) :
    y.2.trace = x.2.trace ∧ y.2.clean = x.2.clean ∧ y.2.parked = x.2.parked := by
  rcases h.step with ⟨i, -, hs⟩ | ⟨-, hs⟩
  · have hnote : y.2 = note F x.2 x.1 (.poll i) := (observe_eq_some.mp hs).2
    rw [hnote]
    unfold note
    simp only
    split
    · exact ⟨rfl, rfl, rfl⟩
    · exact ⟨rfl, rfl, rfl⟩
  · have hs : observe (step F) (note F) x .request_abort = some y := hs
    have hnote : y.2 = x.2 := (observe_eq_some.mp hs).2
    rw [hnote]
    exact ⟨rfl, rfl, rfl⟩

theorem starts_zero : starts 0 = false := by decide

/-- A cycle takes over what is staged, or stages 0. -/
theorem poll_calm {i : Input} {s t : State} {clean : Bool} (hw : Wired s) (hwhole : Whole s)
    (hstaged : clean = true → starts (control s.drv.out_) = false)
    (hx : poll_step F s i = some t) :
    Whole t ∧ (clean = true → starts (control t.drv.out_) = false) ∧
      (clean = true → ∀ regs, first t.poll = some regs → starts (control (image regs)) = false) := by
  obtain ⟨hwhole', hflow⟩ := poll_flow hw hwhole hx
  refine ⟨hwhole', fun hc => ?_, fun hc regs hregs => ?_⟩
  · rcases (poll_disturbs hw hx).control with hcw | hcw
    · rw [hcw]
      exact hstaged hc
    · rw [hcw]
      exact starts_zero
  · cases hf : flow s i with
    | copied =>
        rw [hf] at hflow
        obtain ⟨regs', hfirst, hagree, -⟩ := hflow
        rw [← Option.some.inj (hfirst.symm.trans hregs), hagree.control]
        exact hstaged hc
    | reached =>
        rw [hf] at hflow
        obtain ⟨-, -, hnone, -⟩ := hflow
        exact nomatch hnone.symm.trans hregs
    | none =>
        rw [hf] at hflow
        exact nomatch hflow.1.symm.trans hregs

theorem calm_stable : (inside F).Stable Calm := by
  intro x y hx hs
  obtain ⟨-, hclean, -⟩ := others_log hs
  rcases hs.step with ⟨i, -, hstep⟩ | ⟨-, hstep⟩
  · have hp : poll_step F x.1 i = some y.1 := (observe_eq_some.mp hstep).1
    obtain ⟨hwhole, hstaged, hsent⟩ := poll_calm hs.wired hx.whole hx.staged hp
    rw [← hclean] at hstaged hsent
    exact ⟨hwhole, hstaged, hsent⟩
  · have hstep : observe (step F) (note F) x .request_abort = some y := hstep
    have hy : some { x.1 with abort_ := true } = some y.1 := (observe_eq_some.mp hstep).1
    have hy := Option.some.inj hy
    refine ⟨?_, ?_, ?_⟩
    · rw [← hy]
      exact ⟨hx.whole.all, hx.whole.copy, hx.whole.send⟩
    · rw [hclean, ← hy]
      exact hx.staged
    · rw [hclean, ← hy]
      exact hx.sent

/-- An operation adds to what has been observed; only the beginning of `enable()` drops it. -/
theorem perform_extends (h : Log) (s : State) (ho : o ≠ .enter_enable) :
    (h.perform F s o).clean = h.clean ∧ ∃ later, (h.perform F s o).trace = h.trace ++ later := by
  cases o with
  | enter_enable => exact absurd rfl ho
  | read_int t =>
      cases t with
      | StatusWord =>
          simp only [Log.perform]
          split
          · exact ⟨rfl, _, rfl⟩
          · exact ⟨rfl, [], (List.append_nil _).symm⟩
      | _ => exact ⟨rfl, [], (List.append_nil _).symm⟩
  | read t =>
      cases t with
      | Position => exact ⟨rfl, _, rfl⟩
      | _ => exact ⟨rfl, [], (List.append_nil _).symm⟩
  | write c v =>
      cases c with
      | TargetPosition => exact ⟨rfl, [], (List.append_nil _).symm⟩
      | _ => exact ⟨rfl, [], (List.append_nil _).symm⟩
  | set_control cw =>
      simp only [Log.perform]
      split
      · exact ⟨rfl, [], (List.append_nil _).symm⟩
      · exact ⟨rfl, [], (List.append_nil _).symm⟩
  | _ => exact ⟨rfl, [], (List.append_nil _).symm⟩

theorem own_whole (h : (log F).Own Any x o y r) (hx : Whole x.1) :
    Whole y.1 ∧ (first y.1.poll = first x.1.poll ∨ first y.1.poll = none) := by
  obtain ⟨k, u, -, hexec, hy⟩ := h.exec
  have hy : y.1 = { u with prog := k r } := hy
  obtain ⟨hwhole, -, hfirst⟩ := exec_whole (s := x.1) h.wired hx hexec
  rw [hy]
  exact ⟨⟨hwhole.all, hwhole.copy, hwhole.send⟩, hfirst⟩

/-- As long as `kDriveStart` is not staged. -/
theorem own_calm (h : (log F).Own Any x o y r) (ho : o ≠ .enter_enable)
    (hcw : ∀ cw, o = .set_control cw → starts cw = false) (hx : Calm x) : Calm y := by
  obtain ⟨hwhole, hfirst⟩ := own_whole h hx.whole
  have hclean : y.2.clean = x.2.clean := by
    rw [own_log h]
    exact (perform_extends x.2 x.1 ho).1
  obtain ⟨k, u, -, hexec, hy⟩ := h.exec
  have hy : y.1 = { u with prog := k r } := hy
  have hex := exec_spec (s := x.1) h.wired hexec
  refine ⟨hwhole, fun hc => ?_, fun hc regs hregs => ?_⟩
  · rw [hclean] at hc
    rw [hy]
    show starts (control u.drv.out_) = false
    rcases hex.control with hsame | ⟨cw, ho', hnew⟩
    · rw [hsame]
      exact hx.staged hc
    · rw [hnew]
      exact hcw cw ho'
  · rw [hclean] at hc
    rcases hfirst with hsame | hnone
    · exact hx.sent hc regs (hsame.symm.trans hregs)
    · exact nomatch hnone.symm.trans hregs

/-- The beginning of `enable()`. -/
theorem own_enters {r : Resp .enter_enable} (h : (log F).Own Any x .enter_enable y r)
    (hx : Whole x.1) : Calm y := by
  obtain ⟨hwhole, -⟩ := own_whole h hx
  obtain ⟨k, u, -, hexec, hy⟩ := h.exec
  have hy : y.1 = { u with prog := k r } := hy
  have hclean : y.2.clean = at_rest x.1 := by
    rw [own_log h]
    rfl
  cases hexec
  refine ⟨hwhole, fun hc => ?_, fun hc regs hregs => ?_⟩
  · rw [hclean, at_rest, Bool.and_eq_true, Bool.not_eq_true'] at hc
    rw [hy]
    exact hc.1
  · rw [hclean, at_rest, Bool.and_eq_true] at hc
    rw [hy] at hregs
    have hregs : first x.1.poll = some regs := hregs
    have hall := hc.2
    rw [hregs, Option.all_some, Bool.not_eq_true'] at hall
    exact hall

/-! ### Along the call -/

/-- The call has come so far. -/
structure Along (ps : List (Seen → Prop)) (x : State × Log) : Prop where
  calm : Calm x
  seen : Observed ps x.2.trace

theorem along_stable (ps : List (Seen → Prop)) : (inside F).Stable (Along ps) := by
  intro x y hx hs
  refine ⟨calm_stable x y hx.calm hs, ?_⟩
  rw [(others_log hs).1]
  exact hx.seen

theorem own_along {ps : List (Seen → Prop)} (h : (log F).Own Any x o y r) (ho : o ≠ .enter_enable)
    (hcw : ∀ cw, o = .set_control cw → starts cw = false) (hx : Along ps x) : Along ps y := by
  refine ⟨own_calm h ho hcw hx.calm, ?_⟩
  obtain ⟨later, htrace⟩ := (perform_extends (F := F) x.2 x.1 ho).2
  rw [own_log h, htrace]
  exact hx.seen.append

theorem along_kept (ps : List (Seen → Prop)) : (log F).Kept Any Owes (Along ps) := by
  refine ⟨along_stable ps, fun {o x y r} ho hx hs => own_along hs ?_ ?_ hx⟩
  · rintro rfl
    cases ho
  · rintro cw rfl
    cases ho

theorem whole_stable : (inside F).Stable fun x => Whole x.1 := by
  intro x y hx hs
  rcases hs.step with ⟨i, -, hstep⟩ | ⟨-, hstep⟩
  · have hp : poll_step F x.1 i = some y.1 := (observe_eq_some.mp hstep).1
    exact (poll_flow hs.wired hx hp).1
  · have hstep : observe (step F) (note F) x .request_abort = some y := hstep
    exact step_whole hs.wired hx (observe_eq_some.mp hstep).1

theorem whole_kept : (log F).Kept Any Owes fun x => Whole x.1 :=
  ⟨whole_stable, fun _ hx hs => (own_whole hs hx).1⟩

/-- Only control words are owed for. -/
theorem owes_other (ho : ∀ cw, o ≠ .set_control cw) (x : State × Log) : Owes x o := by
  cases o with
  | set_control cw => exact absurd rfl (ho cw)
  | _ => trivial

theorem owes_passive (ho : passive o = true) (x : State × Log) : Owes x o := by
  refine owes_other ?_ x
  rintro cw rfl
  cases ho

/-- The control words without the two bits are always allowed. -/
theorem owes_off {cw : UInt16} (hon : turns_on cw = false) (hstart : starts cw = false)
    (x : State × Log) : Owes x (.set_control cw) := by
  intro _
  refine ⟨⟨fun h => ?_, fun h => ?_⟩, fun h => ?_⟩
  · exact nomatch hon.symm.trans h
  · exact nomatch hstart.symm.trans h
  · exact nomatch hstart.symm.trans h

end Steps

/-! ## The call -/

section Calls

variable {F : FloatCast} {cfg : IndraDriveActuator.Config} {x y : State × Log}
  {ps : List (Seen → Prop)}

/-- An operation that stages no control word. -/
theorem triple_along {o : Op} (ho : o ≠ .enter_enable) (hcw : ∀ cw, o ≠ .set_control cw) :
    Triple (inside F) (Along ps) (act o) fun _ => Along ps :=
  Triple.lift (along_stable ps) (fun x _ => owes_other hcw x)
    (fun _ _ _ hx hs => own_along hs ho (fun cw h => absurd h (hcw cw)) hx) fun _ => along_stable ps

theorem triple_whole {o : Op} (hcw : ∀ cw, o ≠ .set_control cw) :
    Triple (inside F) (fun x => Whole x.1) (act o) fun _ x => Whole x.1 :=
  Triple.lift whole_stable (fun x _ => owes_other hcw x) (fun _ _ _ hx hs => (own_whole hs hx).1)
    fun _ => whole_stable

/-- A control word without `kDriveStart`. -/
theorem triple_control {cw : UInt16} (hstart : starts cw = false)
    (hon : turns_on cw = true → ∀ trace, Observed ps trace → Observed switched_on trace) :
    Triple (inside F) (Along ps) (IndraDrive.set_control cw) fun _ => Along ps := by
  refine Triple.lift (along_stable ps) (fun x hx _ => ?_) (fun x y r hx hs => ?_)
    fun _ => along_stable ps
  · refine ⟨⟨fun h => hon h _ hx.seen, fun h => ?_⟩, fun _ => hx.calm⟩
    exact nomatch hstart.symm.trans h
  · refine own_along hs nofun ?_ hx
    rintro _ ⟨⟩
    exact hstart

/-- The status word that ends a wait is noted. -/
theorem own_sees {pred : UInt16 → Bool} {raw : ℤ}
    (h : (log F).Own Any x (.read_int .StatusWord) y raw)
    (hpred : pred (UInt16.ofNat (to_unsigned 16 raw)) = true) (hx : Along ps x) :
    Along (ps ++ [Seen.word pred]) y := by
  have hcalm := (own_along h nofun nofun hx).calm
  have hlog := own_log h
  obtain ⟨k, u, -, hexec, -⟩ := h.exec
  obtain ⟨raw', hread, heq⟩ := Option.map_eq_some_iff.mp hexec
  cases heq
  have hok := ProcessImage.toOption_eq_some hread
  have htrace : y.2.trace = x.2.trace ++ [.status (UInt16.ofNat (to_unsigned 16 raw))] := by
    rw [hlog]
    simp only [Log.perform]
    rw [show x.1.drv.read_int F (x.1.tag .StatusWord) = .ok raw from hok]
  refine ⟨hcalm, ?_⟩
  rw [htrace]
  exact hx.seen.snoc hpred

theorem wait_along {what : String} {pred : UInt16 → Bool} {rounds : ℕ} :
    Triple (inside F) (Along ps) (IndraDrive.wait_for what pred true rounds)
      fun ok => Along (if ok then ps ++ [Seen.word pred] else ps) := by
  refine System.triple_wait_for (fun x o ho => owes_passive ho x) (along_kept ps)
    (fun ok => along_stable _) (fun x y raw hx hs hpred => ?_) fun why x y r _ hx hs => ?_
  · exact own_sees hs hpred hx
  · exact (along_kept ps).passive rfl hx hs

/-- The position that is read is the raw field of the image that is noted. -/
theorem read_position {s : State} {p : ℚ} (h : Wired s)
    (hp : s.drv.read F (s.tag .Position) = .ok p) : p = decode (position s.drv.in_) := by
  have htag : s.drv.tag_checked (s.tag .Position) .Input =
      .ok (s.cfg.drive.entry .Position) := by
    unfold tag_checked MGateDriver.tag
    rw [find_tag_entry h]
    rfl
  unfold MGateDriver.read at hp
  rw [htag] at hp
  have hp : s.drv.in_.get_scaled F (s.cfg.drive.entry .Position) = .ok p := hp
  -- a read that succeeds lies inside of the image
  have hin : (s.cfg.drive.entry .Position).byte_offset.toNat + 4 ≤ s.drv.in_.size := by
    have htype : (s.cfg.drive.entry .Position).type = .I32 := rfl
    have hinside := (ProcessImage.get_scaled_completes F (by rw [htype]; decide)).mp ⟨p, hp⟩
    exact (ProcessImage.inside_bytes (by rw [htype]; decide)).mp hinside
  rw [get_scaled_raw32 F rfl rfl rfl rfl hin] at hp
  exact (Except.ok.inj hp).symm

theorem position_along :
    Triple (inside F) (Along ps) IndraDrive.position_deg
      fun p x => ∃ img, Along (ps ++ [Seen.from_image img]) x ∧ p = decode (position img) := by
  refine Triple.lift (along_stable ps) (fun _ _ => trivial) (fun x y p hx hs => ?_)
    fun p x y hx hs => ?_
  · have hcalm := (own_along hs nofun nofun hx).calm
    have hlog := own_log hs
    obtain ⟨k, u, -, hexec, -⟩ := hs.exec
    obtain ⟨p', hread, heq⟩ := Option.map_eq_some_iff.mp hexec
    cases heq
    refine ⟨x.1.drv.in_, ⟨hcalm, ?_⟩, read_position hs.wired (ProcessImage.toOption_eq_some hread)⟩
    rw [hlog]
    exact hx.seen.snoc rfl
  · obtain ⟨img, halong, heq⟩ := hx
    exact ⟨img, along_stable _ x y halong hs, heq⟩

/-- Written back, it is the same raw field. -/
theorem park_along {p : ℚ} :
    Triple (inside F)
      (fun x => ∃ img, Along (ps ++ [Seen.from_image img]) x ∧ p = decode (position img))
      (act (.write .TargetPosition p))
      fun _ x => ∃ img, Along (ps ++ [Seen.from_image img]) x ∧
        target x.1.drv.out_ = position img := by
  refine Triple.lift (fun x y hx hs => ?_) (fun _ _ => trivial) (fun x y r hx hs => ?_)
    fun r x y hx hs => ?_
  · obtain ⟨img, halong, heq⟩ := hx
    exact ⟨img, along_stable _ x y halong hs, heq⟩
  · obtain ⟨img, halong, rfl⟩ := hx
    refine ⟨img, own_along hs nofun nofun halong, ?_⟩
    obtain ⟨d, q, hy, -, hvalue⟩ := hs.write
    have hy : y.1 = { x.1 with drv := d, prog := q } := hy
    rw [hy]
    show target d.out_ = position img
    exact (hvalue nofun).trans (encode_decode (raw32_lt _ _))
  · obtain ⟨img, halong, heq⟩ := hx
    have hd : Disturbed x.1 y.1 := hs.disturbed
    exact ⟨img, along_stable _ x y halong hs, hd.target.trans heq⟩

/-- The drive is started. -/
theorem start_whole {cw : UInt16} :
    Triple (inside F)
      (fun x => ∃ img, Along (with_torque_on ++ [Seen.from_image img]) x ∧
        target x.1.drv.out_ = position img)
      (IndraDrive.set_control cw) fun _ x => Whole x.1 := by
  refine Triple.lift (fun x y hx hs => ?_) (fun x hx _ => ?_) (fun x y r hx hs => ?_)
    fun _ => whole_stable
  · obtain ⟨img, halong, heq⟩ := hx
    have hd : Disturbed x.1 y.1 := hs.disturbed
    exact ⟨img, along_stable _ x y halong hs, hd.target.trans heq⟩
  · obtain ⟨img, halong, heq⟩ := hx
    refine ⟨⟨fun _ => ?_, fun _ => ⟨img, halong.seen, heq⟩⟩, fun _ => halong.calm⟩
    exact halong.seen.init.init
  · obtain ⟨img, halong, -⟩ := hx
    exact (own_whole hs halong.calm.whole).1

/-- The failure path. -/
theorem abort_whole :
    Triple (inside F) (fun x => Whole x.1) IndraDrive.abort_enable fun _ x => Whole x.1 := by
  refine .bind (triple_whole nofun) fun _ => ?_
  refine .op (M := fun _ x => Whole x.1) whole_stable (fun x _ => owes_off (by decide) (by decide) x)
    (fun x y r hx hs => (own_whole hs hx).1) fun _ => ?_
  exact Triple.pure (Q := fun _ (x : State × Log) => Whole x.1) whole_stable

/-- **`enable()`** owes its control words. -/
theorem enable_order {drive : IndraDriveConfig} {rounds : ℕ → ℕ} :
    Triple (inside F) (fun x => Whole x.1) (IndraDrive.enable drive rounds)
      fun _ x => Whole x.1 := by
  have hfail : ∀ {ps : List (Seen → Prop)} why,
      Triple (inside F) (Along ps) (IndraDrive.fail why) fun _ x => Whole x.1 := by
    intro ps why
    refine (System.triple_passive (fun x o ho => owes_passive ho x) (along_kept ps)
      (passive_fail why)).weaken (fun _ => id) fun _ _ hx => hx.calm.whole
  have hpassive : ∀ {ps : List (Seen → Prop)} {α : Type} {p : Drive α}, Passive p →
      Triple (inside F) (Along ps) p fun _ => Along ps :=
    fun hp => System.triple_passive (fun x o ho => owes_passive ho x) (along_kept _) hp
  -- what follows a wait
  have hnext : ∀ {ps : List (Seen → Prop)} {what : String} {pred : UInt16 → Bool} {rounds : ℕ}
      {k : Drive Bool}, Triple (inside F) (Along (ps ++ [Seen.word pred])) k (fun _ x => Whole x.1) →
      Triple (inside F) (Along ps) (do
        let ok ← IndraDrive.wait_for what pred true rounds
        if ok = false then return ← IndraDrive.abort_enable
        k) fun _ x => Whole x.1 := by
    intro ps what pred rounds k hk
    refine .bind wait_along fun ok => .ite (fun _ => ?_) fun hok => ?_
    · exact abort_whole.weaken (fun x hx => hx.calm.whole) fun _ _ => id
    · rw [Bool.not_eq_false] at hok
      simp only [hok, if_true]
      exact hk
  refine .bind (Triple.lift (M := fun _ => Along []) whole_stable (fun _ _ => trivial)
    (fun x y r hx hs => ⟨own_enters hs hx, observed_nil⟩) fun _ => along_stable []) fun _ => ?_
  refine .bind (triple_along nofun nofun) fun online => .ite (fun _ => hfail _) fun _ => ?_
  refine .bind (hpassive (passive_slave_live _)) fun live => .ite (fun _ => hfail _) fun _ => ?_
  refine .bind (triple_along nofun nofun) fun _ => .bind (triple_along nofun nofun) fun _ => ?_
  refine .bind (hpassive passive_status_word) fun sw => .ite (fun _ => hfail _) fun _ => ?_
  refine .bind (triple_along nofun nofun) fun _ => .bind (triple_along nofun nofun) fun _ => ?_
  refine .bind (hpassive (passive_act rfl)) fun p => .bind (triple_along nofun nofun) fun _ => ?_
  refine .bind (triple_control (by decide) fun hon => absurd hon (by decide)) fun _ => ?_
  refine hnext (hnext (.bind (triple_along nofun nofun) fun _ => ?_))
  refine .bind (triple_control (by decide) fun _ _ => id) fun _ => hnext ?_
  refine .bind position_along fun p => .bind park_along fun _ => ?_
  refine .bind start_whole fun _ => ?_
  have hpassive : ∀ {α : Type} {p : Drive α}, Passive p →
      Triple (inside F) (fun x => Whole x.1) p fun _ x => Whole x.1 :=
    fun hp => System.triple_passive (fun x o ho => owes_passive ho x) whole_kept hp
  refine .bind (hpassive (passive_wait_for _ _ _ _)) fun ok => .ite (fun _ => abort_whole) fun _ => ?_
  exact Triple.pure (Q := fun _ (x : State × Log) => Whole x.1) whole_stable

/-- `start()` enables in the end. -/
theorem start_order (rounds : ℕ → ℕ) :
    Triple (inside F) (fun x => Whole x.1) (IndraDriveActuator.start cfg rounds)
      fun _ x => Whole x.1 := by
  have hpassive : ∀ {α : Type} {p : Drive α}, Passive p →
      Triple (inside F) (fun x => Whole x.1) p fun _ x => Whole x.1 :=
    fun hp => System.triple_passive (fun x o ho => owes_passive ho x) whole_kept hp
  have hfail : Triple (inside F) (fun x => Whole x.1) IndraDriveActuator.stop_and_fail
      fun _ x => Whole x.1 := by
    refine Triple.frame whole_stable (fun x o ho _ => owes_other ho x)
      (fun x o y r _ hx hs => (own_whole hs hx).1) ?_
    exact all_bind (all_driver_stop nofun nofun nofun nofun) fun _ => all_pure _ _
  refine .bind (triple_whole nofun) fun _ => .bind (triple_whole nofun) fun _ => ?_
  refine .bind (hpassive (passive_wait_for_data _)) fun data => .ite (fun _ => hfail) fun _ => ?_
  refine .bind (triple_whole nofun) fun first => .bind (triple_whole nofun) fun second => ?_
  refine .ite (fun _ => hfail) fun _ => .ite (fun _ => hfail) fun _ => ?_
  refine .ite (fun _ => hfail) fun _ => .ite (fun _ => hfail) fun _ => ?_
  refine .bind (hpassive (passive_slave_live _)) fun live => .ite (fun _ => hfail) fun _ => ?_
  refine .bind enable_order fun enabled => .ite (fun _ => hfail) fun _ => ?_
  exact Triple.pure (Q := fun _ (x : State × Log) => Whole x.1) whole_stable

/-- The other calls owe nothing. -/
theorem other_order {c : Call} (hc : enabling c = false) (p : Drive Bool) :
    Triple (inside F) (fun x => Whole x.1 ∧ x.1.call = c) p fun _ x => Whole x.1 := by
  refine (Triple.always p ?_ ?_ ?_).weaken (fun _ => id) fun _ _ hx => hx.1
  · intro x y hx hs
    have hd : Disturbed x.1 y.1 := hs.disturbed
    exact ⟨whole_stable x y hx.1 hs, hd.call.trans hx.2⟩
  · rintro x o ⟨-, rfl⟩
    cases o with
    | set_control cw => exact fun hen => nomatch hc.symm.trans hen
    | _ => trivial
  · intro x o y r hx hs
    obtain ⟨u, q, hst, hy⟩ := hs.stores
    have hy : y.1 = { u with prog := q } := hy
    refine ⟨(own_whole hs hx.1).1, ?_⟩
    rw [hy]
    exact hst.call.trans hx.2

/-- Nothing has been called, and every cycle sends all outputs. -/
structure Start (x : State × Log) : Prop where
  init : Init x.1
  all : x.1.drv.cfg_.write_only_dirty = false
  fresh : x.2 = ⟨[], false, none, none⟩

theorem whole_of_start (h : Start x) : Whole x.1 :=
  reach_whole (F := no_floats) (C := Any) (.init h.init) h.all

theorem reach_safe (h : Reach (log F).step Any Start x) :
    x.1.prog.Safe (inside F) (fun _ x => Whole x.1) x := by
  refine System.safe (S := log F) (Q := fun _ _ x => Whole x.1) (fun y hy => init_wired hy.init)
    ?_ ?_ h
  · intro y hy
    obtain ⟨gateway, cfg, -, -, -, -, -, -, -, -, -, -, -, -, -, -, -, hprog, -⟩ := hy.init
    exact System.safe_idle whole_stable hprog (whole_of_start hy)
  · intro y z c rounds b _ _ _ hQ _ hz
    have hz : z.1 = { y.1 with call := c, prog := c.program y.1.cfg rounds } := hz
    have hwhole : Whole z.1 := by
      rw [hz]
      exact ⟨hQ.all, hQ.copy, hQ.send⟩
    have hcall : z.1.call = c := by rw [hz]
    cases c with
    | enable => exact enable_order z hwhole
    | actuator_start => exact start_order rounds z hwhole
    | _ => exact other_order rfl _ z ⟨hwhole, hcall⟩

end Calls

/-! ## The parked target on its way -/

section Flow

variable {F : FloatCast} {x y : State × Log}

/-- Where the parked target is. -/
structure Inv (x : State × Log) : Prop where
  wired : Wired x.1
  whole : Whole x.1
  parked : ∀ r, x.2.parked = some r → target x.1.drv.out_ = r
  flight : ∀ r regs, x.2.flight = some r → first x.1.poll = some regs → target (image regs) = r
  /-- from rest, only a copy of the parked target starts the drive -/
  rest : ∀ r regs, x.2.clean = true → x.2.parked = some r → first x.1.poll = some regs →
    starts (control (image regs)) = true → x.2.flight = some r

theorem start_inv (h : Start x) : Inv x := by
  refine ⟨init_wired h.init, whole_of_start h, fun r hr => ?_, fun r regs hr => ?_,
    fun r regs hc => ?_⟩
  · rw [h.fresh] at hr
    cases hr
  · rw [h.fresh] at hr
    cases hr
  · rw [h.fresh] at hc
    cases hc

/-- Only a target writes the target. -/
theorem exec_target {s t : State} {o : Op} {r : Resp o} (hw : Wired s)
    (hx : exec F s o = some (t, r)) (ho : ∀ v, o ≠ .write .TargetPosition v) :
    target t.drv.out_ = target s.drv.out_ := by
  rcases exec_stages hw hx with ⟨cw, -, hst, -⟩ | ⟨c, v, rfl, hst, -⟩ | ⟨-, hd⟩
  · exact raw32_staged hst (.inr (le_refl _))
  · cases c with
    | TargetPosition => exact absurd rfl (ho v)
    | PosVelocity => exact raw32_staged hst (.inl (le_refl _))
    | Override => exact raw32_staged hst (.inl (by decide))
  · rw [hd]

/-- What becomes of the parked target: it stays, it is given up, or the drive is started. -/
theorem perform_parked (h : Log) (s : State) (o : Op) :
    (h.perform F s o).flight = h.flight ∧
      (((h.perform F s o).parked = h.parked ∧ ∀ v, o ≠ .write .TargetPosition v) ∨
        (h.perform F s o).parked = none ∨
        ∃ cw, o = .set_control cw ∧ enabling s.call = true ∧ starts cw = true ∧
          (h.perform F s o).parked = some (target s.drv.out_)) := by
  cases o with
  | read_int t =>
      cases t with
      | StatusWord =>
          simp only [Log.perform]
          split
          · exact ⟨rfl, .inl ⟨rfl, nofun⟩⟩
          · exact ⟨rfl, .inl ⟨rfl, nofun⟩⟩
      | _ => exact ⟨rfl, .inl ⟨rfl, nofun⟩⟩
  | read t =>
      cases t with
      | _ => exact ⟨rfl, .inl ⟨rfl, nofun⟩⟩
  | write c v =>
      cases c with
      | TargetPosition => exact ⟨rfl, .inr (.inl rfl)⟩
      | _ => exact ⟨rfl, .inl ⟨rfl, nofun⟩⟩
  | set_control cw =>
      simp only [Log.perform]
      split
      · rename_i hcw
        exact ⟨rfl, .inr (.inr ⟨cw, rfl, hcw.1, hcw.2, rfl⟩)⟩
      · exact ⟨rfl, .inl ⟨rfl, nofun⟩⟩
  | _ => exact ⟨rfl, .inl ⟨rfl, nofun⟩⟩

/-- The command thread. -/
theorem exec_inv {o : Op} {r : Resp o} {t u : State} (hi : Inv x) (howed : Owes x o)
    (hx : exec F x.1 o = some (u, r)) (ht : t = { u with prog := t.prog }) :
    Inv (t, x.2.perform F x.1 o) := by
  have hwu := (exec_spec hi.wired hx).wired hi.wired
  obtain ⟨hwhole, -, hfirst⟩ := exec_whole hi.wired hi.whole hx
  obtain ⟨hflight, hparked⟩ := perform_parked (F := F) x.2 x.1 o
  have hsame : ∀ regs, first u.poll = some regs → first x.1.poll = some regs := by
    intro regs hregs
    rcases hfirst with hsame | hnone
    · exact hsame.symm.trans hregs
    · exact nomatch hnone.symm.trans hregs
  rw [ht]
  refine ⟨⟨hwu.tags, hwu.out_size, hwu.gw_length, hwu.room, hwu.hi_le, hwu.fits⟩,
    ⟨hwhole.all, hwhole.copy, hwhole.send⟩, fun r hr => ?_, fun r regs hr hregs => ?_,
    fun r regs hc hr hregs hstart => ?_⟩
  · show target u.drv.out_ = r
    rcases hparked with ⟨heq, ho⟩ | hnone | ⟨cw, rfl, -, -, heq⟩
    · rw [exec_target hi.wired hx ho]
      exact hi.parked r (heq.symm.trans hr)
    · exact nomatch hnone.symm.trans hr
    · rw [exec_target hi.wired hx nofun]
      exact Option.some.inj (heq.symm.trans hr)
  · exact hi.flight r regs (hflight.symm.trans hr) (hsame regs hregs)
  · have hold : starts (control (image regs)) = true := hstart
    have hsent : first x.1.poll = some regs := hsame regs hregs
    by_cases henter : o = .enter_enable
    · -- at rest nothing in flight starts the drive
      subst henter
      have hrest : at_rest x.1 = true := hc
      unfold at_rest at hrest
      rw [hsent, Option.all_some, Bool.and_eq_true, Bool.not_eq_true'] at hrest
      exact nomatch hrest.2.symm.trans (congrArg Bool.not hold)
    · have hclean : x.2.clean = true := (perform_extends (F := F) x.2 x.1 henter).1.symm.trans hc
      rcases hparked with ⟨heq, -⟩ | hnone | ⟨cw, rfl, hen, hcw, -⟩
      · exact hflight.trans (hi.rest r regs hclean (heq.symm.trans hr) hsent hold)
      · exact nomatch hnone.symm.trans hr
      · have hcalm := (howed hen).2 hcw
        exact nomatch (hcalm.sent hclean regs hsent).symm.trans hold

/-- The poll thread. -/
theorem poll_inv {i : Input} {t : State} (hi : Inv x) (hx : poll_step F x.1 i = some t) :
    Inv (t, note F x.2 x.1 (.poll i)) := by
  have hwired := (poll_spec hi.wired hx).wired hi.wired
  have hd := poll_disturbs hi.wired hx
  obtain ⟨hwhole, hflow⟩ := poll_flow hi.wired hi.whole hx
  by_cases hf : flow x.1 i = .copied
  · rw [hf] at hflow
    obtain ⟨regs', hfirst, hagree, -⟩ := hflow
    have hnote : note F x.2 x.1 (.poll i) = { x.2 with flight := x.2.parked } := if_pos hf
    rw [hnote]
    refine ⟨hwired, hwhole, fun r hr => hd.target.trans (hi.parked r hr),
      fun r regs hr hregs => ?_, fun r regs _ hr _ _ => hr⟩
    rw [← Option.some.inj (hfirst.symm.trans hregs), hagree.target]
    exact hi.parked r hr
  · have hnone : first t.poll = none := by
      cases hf' : flow x.1 i with
      | copied => exact absurd hf' hf
      | reached =>
          rw [hf'] at hflow
          obtain ⟨-, -, hnone, -⟩ := hflow
          exact hnone
      | none =>
          rw [hf'] at hflow
          exact hflow.1
    have hnote : note F x.2 x.1 (.poll i) = x.2 := if_neg hf
    rw [hnote]
    refine ⟨hwired, hwhole, fun r hr => hd.target.trans (hi.parked r hr),
      fun r regs _ hregs => ?_, fun r regs _ _ hregs => ?_⟩
    · exact nomatch hnone.symm.trans hregs
    · exact nomatch hnone.symm.trans hregs

theorem reach_inv (h : Reach (log F).step Any Start x) : Inv x := by
  induction h with
  | init hx => exact start_inv hx
  | @step x y e hreach _ hs ih =>
      have hs : observe (step F) (note F) x e = some y := hs
      obtain ⟨hstep, hnote⟩ := observe_eq_some.mp hs
      have hy : y = (y.1, note F x.2 x.1 e) := by rw [← hnote]
      rw [hy]
      rcases step_cases hstep with ⟨c, rounds, b, rfl, -, heq⟩ | ⟨o, k, u, r, rfl, hprog, hx, heq⟩ |
        ⟨i, rfl, hx⟩ | ⟨rfl, heq⟩
      · rw [heq]
        exact ⟨ih.wired.of_shape (.refl _) rfl rfl ih.wired.fits,
          ⟨ih.whole.all, ih.whole.copy, ih.whole.send⟩, ih.parked, ih.flight, ih.rest⟩
      · have hsafe := reach_safe hreach
        rw [hprog] at hsafe
        have hnote : note F x.2 x.1 .cmd = x.2.perform F x.1 o := by simp only [note, hprog]
        rw [hnote]
        exact exec_inv ih hsafe.guar hx (by rw [heq])
      · exact poll_inv ih hx
      · rw [heq]
        exact ⟨ih.wired.of_shape (.refl _) rfl rfl ih.wired.fits,
          ⟨ih.whole.all, ih.whole.copy, ih.whole.send⟩, ih.parked, ih.flight, ih.rest⟩

/-- **`enable()` follows the order of the drive and parks its target.** Whenever it stages a
control word, `kDriveOn` is in it only behind the status words for operating mode and `Ab`, and
`kDriveStart` only behind `AF` as well and with the target on a position read behind that. Until
the next target is written, the staged target and that of every image copied since are the one
the drive was started with; and when the call found the drive at rest, so is the target of
every image sent with `kDriveStart`. -/
theorem enable_in_order (h : Reach (log F).step Any Start x) :
    (∀ cw k, enabling x.1.call = true → x.1.prog = .op (.set_control cw) k → InOrder x cw) ∧
      (∀ r, x.2.parked = some r → target x.1.drv.out_ = r) ∧
      (∀ r regs, x.2.flight = some r → first x.1.poll = some regs → target (image regs) = r) ∧
      ∀ r regs, x.2.clean = true → x.2.parked = some r → first x.1.poll = some regs →
        starts (control (image regs)) = true → target (image regs) = r := by
  have hi := reach_inv h
  refine ⟨fun cw k hen hprog => ?_, hi.parked, hi.flight, fun r regs hc hr hregs hstart => ?_⟩
  · have hsafe := reach_safe h
    rw [hprog] at hsafe
    exact (hsafe.guar hen).1
  · exact hi.flight r regs (hi.rest r regs hc hr hregs hstart) hregs

end Flow

/-! ## On the bench -/

/-- A cycle from the write request on, with the drive at 10 degrees. -/
def at_ten_degrees : List Event :=
  [.poll (.write {} false), .poll .none, .poll (.read {} [0xC002, 0x0001, 0x86A0, 0, 0, 0, 0]),
    .poll .none, .poll (.read {} [0x0003, 0x0400]), .poll .none, .poll (.time 10), .poll .none]

/-- An `enable()` that finds every status word it waits for, up to the next request. -/
def enables_at_ten : List Event :=
  [.call .driver_start fun _ => 0] ++ commands 1 ++ to_send ++ at_ten_degrees ++ quiet 1 ++
    [.call .enable fun _ => 0] ++ commands 33 ++ to_send

def fresh : Log := ⟨[], false, none, none⟩

theorem start_bench {a : WavemakerController.IndraDriveActuator ℚ}
    (ha : WavemakerController.IndraDriveActuator.construct (bench_params 500) = some a) :
    Start (built a, fresh) := by
  refine ⟨(built_bench ha).init, ?_, rfl⟩
  show a.gateway.write_only_dirty = false
  rw [(WavemakerController.construct_gateway ha).2]
  rfl

/-- The request with `kDriveStart` has the position as its target. -/
theorem enable_in_order_bench :
    ∃ x regs, Reach (log no_floats).step Any Start x ∧ x.2.clean = true ∧
      x.2.parked = some 100000 ∧ first x.1.poll = some regs ∧
      starts (control (image regs)) = true ∧ target (image regs) = 100000 := by
  have heval : ((WavemakerController.IndraDriveActuator.construct (bench_params 500)).bind fun a =>
      (run (log no_floats).step (built a, fresh) enables_at_ten).bind fun x =>
        (first x.1.poll).map fun regs => (x.2.clean, x.2.parked, starts (control (image regs)))) =
      some (true, some 100000, true) := by
    decide +kernel
  obtain ⟨a, ha, h⟩ := Option.bind_eq_some_iff.mp heval
  obtain ⟨x, hx, h⟩ := Option.bind_eq_some_iff.mp h
  obtain ⟨regs, hregs, h⟩ := Option.map_eq_some_iff.mp h
  simp only [Prod.mk.injEq] at h
  obtain ⟨hclean, hparked, hstart⟩ := h
  have hreach : Reach (log no_floats).step Any Start x := .run (.init (start_bench ha)) hx
  obtain ⟨-, -, -, hrest⟩ := enable_in_order hreach
  exact ⟨x, regs, hreach, hclean, hparked, hregs, hstart,
    hrest _ regs hclean hparked hregs hstart⟩

/-- The image with the last target is on its way when `enable()` is called on a running drive:
it arrives behind the new start and carries the old target. -/
theorem restarted_while_sending :
    ∃ x y r, Reach (log no_floats).step Any Start x ∧ x.1.call = .enable ∧
      x.1.prog = .pure true ∧ x.2.parked = some r ∧
      (log no_floats).step x (.poll (.write {} false)) = some y ∧ y.2.parked = some r ∧
      flow x.1 (.write {} false) = .reached ∧ starts (control (image y.1.gw)) = true ∧
      target (image y.1.gw) ≠ r := by
  have heval : ((WavemakerController.IndraDriveActuator.construct (bench_params 500)).bind fun a =>
      (run (log no_floats).step (built a, fresh) (enables ++ moves 100 10 ++ to_send ++
        [.call .enable fun _ => 0] ++ commands 33)).bind fun x =>
          ((log no_floats).step x (.poll (.write {} false))).map fun y =>
            ((x.1.call, OffCommand.returned x.1.prog, x.2.parked), y.2.parked,
              flow x.1 (.write {} false), starts (control (image y.1.gw)),
              target (image y.1.gw))) =
      some ((.enable, some true, some 0), some 0, .reached, true, 1000000) := by
    decide +kernel
  obtain ⟨a, ha, h⟩ := Option.bind_eq_some_iff.mp heval
  obtain ⟨x, hx, h⟩ := Option.bind_eq_some_iff.mp h
  obtain ⟨y, hy, h⟩ := Option.map_eq_some_iff.mp h
  simp only [Prod.mk.injEq] at h
  obtain ⟨⟨hcall, hret, hparked⟩, hstill, hflow, hstart, htarget⟩ := h
  refine ⟨x, y, 0, .run (.init (start_bench ha)) hx, hcall, OffCommand.eq_pure_of_returned hret,
    hparked, hy, hstill, hflow, hstart, ?_⟩
  rw [htarget]
  decide

end Mgate.Threads.EnableOrder
