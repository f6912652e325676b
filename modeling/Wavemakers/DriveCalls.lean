/-
Calls of the drive as programs under interference.

`RelyGuarantee.lean` speaks of one program; a run of `DriveThreads.lean` is a
sequence of calls with the poll thread in between. A `System` is that run, alone
or with a history beside the state, and `System.setting` is what its runs look
like from inside a call: an operation is a step of the command thread, the
others are the poll thread and `request_abort()`. `System.safe` puts the two
together: when every call is safe from where the one before it has ended, then
in every state reached what is left of the running call is.
-/
import Wavemakers.CommandValues
import Wavemakers.RelyGuarantee

set_option autoImplicit false

namespace Mgate

/-- `move_to` does not refuse the command for its limits. -/
def IndraDriveConfig.Accepts (cfg : IndraDriveConfig) (position velocity_rpm : ℚ) : Prop :=
  (cfg.min_position ≤ position ∧ position ≤ cfg.max_position) ∧
    0 < velocity_rpm ∧ velocity_rpm ≤ cfg.max_velocity_rpm

/-- The failures of `wait_for`. -/
def DriveError.of_wait : DriveError → Bool
  | .aborted _ | .fault _ _ | .offline_while_waiting _ | .timeout _ _ => true
  | _ => false

end Mgate

namespace Mgate.Threads

open Interleave Atomic Atomic.Prog MGateDriver

variable {F : FloatCast} {σ : Type}

/-- The runs of the two threads, with what `σ` has beside their state. -/
structure System (F : FloatCast) (σ : Type) where
  step : σ → Event → Option σ
  base : σ → State
  sound : ∀ {x y e}, step x e = some y → Threads.step F (base x) e = some (base y)

/-- Nothing beside it. -/
def System.plain (F : FloatCast) : System F State := ⟨Threads.step F, id, id⟩

/-- A history beside it. -/
def System.observed (F : FloatCast) {ω : Type} (note : ω → State → Event → ω) :
    System F (State × ω) :=
  ⟨observe (Threads.step F) note, Prod.fst, fun h => (observe_eq_some.mp h).1⟩

namespace System

variable (S : System F σ) (C : σ → Event → Prop) (G : σ → Op → Prop)

/-- The command thread performs `o`. -/
structure Own (x : σ) (o : Op) (y : σ) (r : Resp o) : Prop where
  wired : Wired (S.base x)
  meets : C x .cmd
  step : S.step x .cmd = some y
  exec : ∃ k u, (S.base x).prog = .op o k ∧ exec F (S.base x) o = some (u, r) ∧
    S.base y = { u with prog := k r }

/-- The poll thread moves, or an abort is requested. -/
structure Others (x y : σ) : Prop where
  wired : Wired (S.base x)
  step : (∃ i, C x (.poll i) ∧ S.step x (.poll i) = some y) ∨
    (C x .request_abort ∧ S.step x .request_abort = some y)

/-- A call, seen from inside. -/
def setting : Setting σ Resp := ⟨S.Own C, S.Others C, G⟩

variable {S C G} {x y : σ}

/-- What the others change. -/
theorem Others.disturbed (h : S.Others C x y) : Disturbed (S.base x) (S.base y) := by
  rcases h.step with ⟨i, -, hs⟩ | ⟨-, hs⟩
  · exact poll_disturbs h.wired (S.sound hs)
  · have hbase := S.sound hs
    simp only [Threads.step, Option.some.injEq] at hbase
    rw [← hbase]
    exact ⟨.inr rfl, id, fun h => ⟨h, rfl⟩, rfl, rfl, rfl, rfl, rfl⟩

/-- The operation behind a step of the command thread. -/
theorem Own.exec_eq {o : Op} {r : Resp o} (h : S.Own C x o y r) :
    ∃ (k : Resp o → Drive Bool) (u : State), Threads.exec F (S.base x) o = some (u, r) ∧
      S.base y = { u with prog := k r } := by
  obtain ⟨k, u, -, hx, hy⟩ := h.exec
  exact ⟨k, u, hx, hy⟩

/-- What it stores. -/
theorem Own.stores {o : Op} {r : Resp o} (h : S.Own C x o y r) :
    ∃ u p, Stores (S.base x) u o ∧ S.base y = { u with prog := p } := by
  obtain ⟨k, u, hx, hy⟩ := h.exec_eq
  exact ⟨u, _, exec_stores hx, hy⟩

theorem Own.cfg {o : Op} {r : Resp o} (h : S.Own C x o y r) : (S.base y).cfg = (S.base x).cfg := by
  obtain ⟨u, p, hst, hy⟩ := h.stores
  rw [hy]
  exact hst.cfg

/-- An operation of the drive leaves the actuator's memory alone. -/
theorem Own.memory {o : Op} {r : Resp o} (h : S.Own C x o y r) (ho : of_drive o = true) :
    (S.base y).has_target_ = (S.base x).has_target_ ∧
      (S.base y).last_target_ = (S.base x).last_target_ := by
  obtain ⟨u, p, hst, hy⟩ := h.stores
  rw [hy]
  refine ⟨hst.has_target.resolve_right ?_, hst.last_target.resolve_right ?_⟩
  · rintro rfl
    cases ho
  · rintro rfl
    cases ho

/-- What the loads answer. -/
theorem Own.load_enabled {b : Bool} (h : S.Own C x .load_enabled y b) :
    b = (S.base x).enabled_ := by
  obtain ⟨k, u, hx, -⟩ := h.exec_eq
  cases hx
  rfl

theorem Own.load_fault {b : Bool} (h : S.Own C x .load_fault y b) : b = (S.base x).fault_ := by
  obtain ⟨k, u, hx, -⟩ := h.exec_eq
  cases hx
  rfl

theorem Own.load_has_target {b : Bool} (h : S.Own C x .load_has_target y b) :
    b = (S.base x).has_target_ := by
  obtain ⟨k, u, hx, -⟩ := h.exec_eq
  cases hx
  rfl

theorem Own.load_last_target {p : ℚ} (h : S.Own C x .load_last_target y p) :
    p = (S.base x).last_target_ := by
  obtain ⟨k, u, hx, -⟩ := h.exec_eq
  cases hx
  rfl

/-- A write of a command value. -/
theorem Own.write {c : CommandValue} {v : ℚ} {r : Resp (.write c v)}
    (h : S.Own C x (.write c v) y r) :
    ∃ d p, S.base y = { S.base x with drv := d, prog := p } ∧
      Staged (S.base x).drv d c.lo c.hi ∧ (c ≠ .Override → raw32 d.out_ c.lo = encode v) := by
  obtain ⟨k, u, hx, hy⟩ := h.exec_eq
  obtain ⟨d, hd, heq⟩ := Option.map_eq_some_iff.mp hx
  cases heq
  have hok := ProcessImage.toOption_eq_some hd
  exact ⟨d, _, hy, write_staged h.wired hok, fun hc => write_value h.wired hc hok⟩

/-- A write of the control word. -/
theorem Own.set_control {cw : UInt16} {r : Resp (.set_control cw)}
    (h : S.Own C x (.set_control cw) y r) :
    ∃ d p, S.base y = { S.base x with drv := d, prog := p } ∧
      Staged (S.base x).drv d 0 2 ∧ control d.out_ = cw := by
  obtain ⟨k, u, hx, hy⟩ := h.exec_eq
  obtain ⟨d, hd, hst, hcw⟩ := set_control_spec F h.wired cw
  simp only [Threads.exec, hd, Option.map_some, Option.some.injEq, Prod.mk.injEq] at hx
  exact ⟨d, k r, by rw [hy, ← hx.1], hst, hcw⟩

theorem reach_wired {I : σ → Prop} (hI : ∀ x, I x → Wired (S.base x))
    (h : Reach S.step C I x) : Wired (S.base x) :=
  h.invariant hI fun _ _ _ hw _ hs => step_wired hw (S.sound hs)

/-- The configuration is fixed. -/
theorem reach_cfg {I : σ → Prop} {P : IndraDriveActuator.Config → Prop}
    (hI : ∀ x, I x → Wired (S.base x)) (hcfg : ∀ x, I x → P (S.base x).cfg)
    (h : Reach S.step C I x) : P (S.base x).cfg := by
  have hinv : ∀ x e y, (Wired (S.base x) ∧ P (S.base x).cfg) → C x e → S.step x e = some y →
      Wired (S.base y) ∧ P (S.base y).cfg := by
    intro x e y hx _ hs
    refine ⟨step_wired hx.1 (S.sound hs), ?_⟩
    have hsame : (S.base y).cfg = (S.base x).cfg := by
      rcases step_cases (S.sound hs) with ⟨c, rounds, b, -, -, hy⟩ | ⟨o, k, u, r, -, -, hu, hy⟩ |
        ⟨i, -, hp⟩ | ⟨-, hy⟩
      · rw [hy]
      · rw [hy]
        exact (exec_stores hu).cfg
      · exact (poll_disturbs hx.1 hp).cfg
      · rw [hy]
    rw [hsame]
    exact hx.2
  exact (h.invariant (fun x hx => ⟨hI x hx, hcfg x hx⟩) hinv).2

/-- **The rule for calls.** `Q c b` is what holds when call `c` has returned `b`. -/
theorem safe {I : σ → Prop} {Q : Call → Bool → σ → Prop}
    (hI : ∀ x, I x → Wired (S.base x))
    (hinit : ∀ x, I x → (S.base x).prog.Safe (S.setting C G) (Q (S.base x).call) x)
    (hcall : ∀ x y c rounds b, Wired (S.base x) → C x (.call c rounds) →
      (S.base x).prog = .pure b → Q (S.base x).call b x → S.step x (.call c rounds) = some y →
      S.base y = { S.base x with call := c, prog := c.program (S.base x).cfg rounds } →
      (c.program (S.base x).cfg rounds).Safe (S.setting C G) (Q c) y)
    (h : Reach S.step C I x) :
    (S.base x).prog.Safe (S.setting C G) (Q (S.base x).call) x := by
  induction h with
  | init hx => exact hinit _ hx
  | @step x y e hreach hC hs ih =>
      have hwired := reach_wired hI hreach
      rcases step_cases (S.sound hs) with ⟨c, rounds, b, rfl, hprog, hy⟩ |
        ⟨o, k, u, r, rfl, hprog, hx, hy⟩ | ⟨i, rfl, hx⟩ | ⟨rfl, hy⟩
      · rw [hprog] at ih
        have hsafe := hcall x y c rounds b hwired hC hprog ih.result hs hy
        rw [hy]
        exact hsafe
      · rw [hprog] at ih
        have hown : S.Own C x o y r := ⟨hwired, hC, hs, k, u, hprog, hx, hy⟩
        have hcalls : (S.base y).call = (S.base x).call := by
          rw [hy]
          exact (exec_stores hx).call
        rw [hcalls, hy]
        exact ih.own hown
      · have hothers : S.Others C x y := ⟨hwired, .inl ⟨i, hC, hs⟩⟩
        rw [hothers.disturbed.prog, hothers.disturbed.call]
        exact ih.others hothers
      · have hothers : S.Others C x y := ⟨hwired, .inr ⟨hC, hs⟩⟩
        rw [hothers.disturbed.prog, hothers.disturbed.call]
        exact ih.others hothers

/-- Between two calls. -/
theorem safe_idle {Q : Bool → σ → Prop} {b : Bool} (hQ : (S.setting C G).Stable (Q b))
    (hprog : (S.base x).prog = .pure b) (hx : Q b x) :
    (S.base x).prog.Safe (S.setting C G) Q x := by
  rw [hprog]
  exact Triple.pure hQ x hx

/-! ## Pieces of the commands -/

/-- A passive operation leaves all of the state but the text of the last error. -/
theorem Own.passive {o : Op} {r : Resp o} (h : S.Own C x o y r) (ho : passive o = true) :
    ∃ e p, S.base y = { S.base x with last_error_ := e, prog := p } := by
  obtain ⟨k, u, hx, hy⟩ := h.exec_eq
  obtain ⟨e, rfl⟩ := exec_passive ho hx
  exact ⟨e, _, hy⟩

variable (S C G) in
/-- An assertion that neither the others nor a passive operation touches. -/
structure Kept (P : σ → Prop) : Prop where
  stable : (S.setting C G).Stable P
  passive : ∀ {o x y r}, passive o = true → P x → S.Own C x o y r → P y

section Rules

variable {P : σ → Prop} {Q : Bool → σ → Prop}
  (hG : ∀ x o, passive o = true → G x o) (hP : S.Kept C G P) (hQ : ∀ b, (S.setting C G).Stable (Q b))

include hG hP in
theorem triple_passive {α : Type} {p : Drive α} (hp : Passive p) :
    Triple (S.setting C G) P p fun _ => P :=
  Triple.frame hP.stable (fun x o ho _ => hG x o ho) (fun _ _ _ _ ho hx hs => hP.passive ho hx hs) hp

include hG hP hQ in
theorem triple_fail {why : DriveError}
    (hfail : ∀ x y r, P x → S.Own C x (.set_last_error why) y r → Q false y) :
    Triple (S.setting C G) P (IndraDrive.fail why) Q :=
  .op (M := fun _ => Q false) hP.stable (fun x _ => hG x _ rfl) hfail fun _ => Triple.pure (hQ false)

include hG hP hQ in
/-- **The rule for `wait_for`.** The last status word read satisfies the predicate, or
the wait has failed. -/
theorem triple_wait_for {what : String} {pred : UInt16 → Bool} {stoppable : Bool} {rounds : ℕ}
    (hsees : ∀ x y (raw : ℤ), P x → S.Own C x (.read_int .StatusWord) y raw →
      pred (UInt16.ofNat (to_unsigned 16 raw)) = true → Q true y)
    (hfail : ∀ why x y r, why.of_wait = true → P x → S.Own C x (.set_last_error why) y r →
      Q false y) :
    Triple (S.setting C G) P (IndraDrive.wait_for what pred stoppable rounds) Q := by
  have hfails : ∀ why, why.of_wait = true → Triple (S.setting C G) P (IndraDrive.fail why) Q :=
    fun why hwhy => triple_fail hG hP hQ fun x y r => hfail why x y r hwhy
  have hact : ∀ o, passive o = true → Triple (S.setting C G) P (act o) fun _ => P :=
    fun o ho => triple_passive hG hP (passive_act ho)
  -- what is read and satisfies the predicate is the result
  have hread : Triple (S.setting C G) P IndraDrive.status_word
      fun sw x => P x ∧ (pred sw = true → Q true x) := by
    refine .op (M := fun (raw : ℤ) x => P x ∧
        (pred (UInt16.ofNat (to_unsigned 16 raw)) = true → Q true x)) hP.stable
      (fun x _ => hG x _ rfl) (fun x y raw hx hs => ⟨hP.passive rfl hx hs, hsees x y raw hx hs⟩)
      fun raw => Triple.pure (Q := fun sw x => P x ∧ (pred sw = true → Q true x)) ?_
    exact fun x y hx hs => ⟨hP.stable x y hx.1 hs, fun hpred => hQ true x y (hx.2 hpred) hs⟩
  have hround : ∀ again : UInt16 → Drive Bool, (∀ sw, Triple (S.setting C G) P (again sw) Q) →
      Triple (S.setting C G) P (IndraDrive.wait_round what pred stoppable again) Q := by
    intro again hagain
    have hrest : Triple (S.setting C G) P (do
        let online : Bool ← act .load_online
        if online = false then return ← IndraDrive.fail (.offline_while_waiting what)
        let sw ← IndraDrive.status_word
        if pred sw then return true
        again sw) Q := by
      refine .bind (hact _ rfl) fun online => .ite (fun _ => hfails _ rfl) fun _ => ?_
      refine .bind hread fun sw => .ite (fun hpred => ?_) fun _ => ?_
      · exact (Triple.pure (hQ true)).weaken (fun x hx => hx.2 hpred) fun _ _ => id
      · exact (hagain sw).weaken (fun x hx => hx.1) fun _ _ => id
    refine .ite (fun _ => ?_) fun _ => hrest
    refine .bind (hact _ rfl) fun abort => .ite (fun _ => hfails _ rfl) fun _ => ?_
    refine .bind (hact _ rfl) fun fault => .ite (fun _ => ?_) fun _ => hrest
    exact .bind (hact _ rfl) fun reason => hfails _ rfl
  induction rounds with
  | zero => exact hround _ fun _ => hfails _ rfl
  | succ rounds ih => exact hround _ fun _ => ih

end Rules

section MoveTo

variable {P E N V R : σ → Prop} {Q : Bool → σ → Prop}
  {cfg : IndraDriveConfig} {position velocity_rpm : ℚ}

/-- **The rule for `move_to`.** `E` is known once the drive is seen enabled, `N` once it is
seen without a fault, `V` when the speed is written, and `R` where the move is refused. -/
theorem triple_move_to (hG : ∀ x o, passive o = true → G x o)
    (hP : (S.setting C G).Stable P) (hE : (S.setting C G).Stable E)
    (hN : (S.setting C G).Stable N) (hV : (S.setting C G).Stable V) (hR : S.Kept C G R)
    (hQ : ∀ b, (S.setting C G).Stable (Q b)) (hrefused : ∀ x, R x → Q false x)
    (henabled : ∀ x y (b : Bool), P x → S.Own C x .load_enabled y b → if b then E y else R y)
    (hfault : ∀ x y (b : Bool), E x → S.Own C x .load_fault y b → if b then R y else N y)
    (hlimits : ¬ cfg.Accepts position velocity_rpm → ∀ x, N x → R x)
    (howed : cfg.Accepts position velocity_rpm → ∀ x,
      (N x → G x (.write .PosVelocity velocity_rpm)) ∧
      (V x → G x (.write .TargetPosition position)))
    (hvelocity : cfg.Accepts position velocity_rpm → ∀ x y r, N x →
      S.Own C x (.write .PosVelocity velocity_rpm) y r → V y)
    (htarget : cfg.Accepts position velocity_rpm → ∀ x y r, V x →
      S.Own C x (.write .TargetPosition position) y r → Q true y) :
    Triple (S.setting C G) P (IndraDrive.move_to cfg position velocity_rpm) Q := by
  have hfails : ∀ why, Triple (S.setting C G) R (IndraDrive.fail why) Q :=
    fun why => triple_fail hG hR hQ fun x y r hx hs => hrefused y (hR.passive rfl hx hs)
  have hnot : Triple (S.setting C G) R IndraDrive.move_to.not_enabled Q := by
    have hact : ∀ o, passive o = true → Triple (S.setting C G) R (act o) fun _ => R :=
      fun o ho => triple_passive hG hR (passive_act ho)
    refine .bind (hact _ rfl) fun fault => .ite (fun _ => ?_) fun _ => hfails _
    exact .bind (hact _ rfl) fun reason => hfails _
  -- the limits are compared once the drive is ready
  have hlimit : ∀ why, ¬ cfg.Accepts position velocity_rpm →
      Triple (S.setting C G) N (IndraDrive.fail why) Q :=
    fun why hno => (hfails why).weaken (hlimits hno) fun _ _ => id
  refine .op (M := fun (enabled : Bool) x => if enabled then E x else R x) hP
    (fun x _ => hG x _ rfl) henabled fun enabled => .ite (fun hen => ?_) fun hno => ?_
  · simp only [hen, if_true]
    refine .op (M := fun (fault : Bool) x => if fault then R x else N x) hE
      (fun x _ => hG x _ rfl) hfault fun fault => .ite (fun hfl => ?_) fun hno => ?_
    · simp only [hfl, if_true]
      exact hnot
    · simp only [Bool.eq_false_iff.mpr hno, Bool.false_eq_true, if_false]
      refine .ite (fun hposition => hlimit _ fun ha => ?_) fun hposition => ?_
      · exact hposition.elim (not_lt.mpr ha.1.1) (not_lt.mpr ha.1.2)
      refine .ite (fun hspeed => hlimit _ fun ha => ?_) fun hspeed => ?_
      · exact hspeed.elim (fun hle => hle ha.2.1) (not_lt.mpr ha.2.2)
      have haccepts : cfg.Accepts position velocity_rpm :=
        ⟨⟨not_lt.mp fun hlt => hposition (.inl hlt), not_lt.mp fun hlt => hposition (.inr hlt)⟩,
          by_contra fun hle => hspeed (.inl hle), not_lt.mp fun hlt => hspeed (.inr hlt)⟩
      refine .op (M := fun _ => V) hN (fun x => (howed haccepts x).1) (hvelocity haccepts)
        fun _ => ?_
      exact .op (M := fun _ => Q true) hV (fun x => (howed haccepts x).2) (htarget haccepts)
        fun _ => Triple.pure (hQ true)
  · simp only [Bool.eq_false_iff.mpr hno, Bool.false_eq_true, if_false]
    exact hnot

/-- The same where nothing hangs on why a move is refused. -/
theorem triple_move (hG : ∀ x o, passive o = true → G x o) (hP : S.Kept C G P)
    (hV : (S.setting C G).Stable V) (hQ : ∀ b, (S.setting C G).Stable (Q b))
    (hrefused : ∀ x, P x → Q false x)
    (howed : cfg.Accepts position velocity_rpm → ∀ x,
      (P x → G x (.write .PosVelocity velocity_rpm)) ∧
      (V x → G x (.write .TargetPosition position)))
    (hvelocity : cfg.Accepts position velocity_rpm → ∀ x y r, P x →
      S.Own C x (.write .PosVelocity velocity_rpm) y r → V y)
    (htarget : cfg.Accepts position velocity_rpm → ∀ x y r, V x →
      S.Own C x (.write .TargetPosition position) y r → Q true y) :
    Triple (S.setting C G) P (IndraDrive.move_to cfg position velocity_rpm) Q := by
  have hread : ∀ (b : Bool) x y o r, passive o = true → P x → S.Own C x o y r →
      if b then P y else P y := by
    intro b x y o r ho hx hs
    rw [ite_self]
    exact hP.passive ho hx hs
  exact triple_move_to hG hP.stable hP.stable hP.stable hV hP hQ hrefused
    (fun x y b hx hs => hread b x y _ _ rfl hx hs) (fun x y b hx hs => hread b x y _ _ rfl hx hs)
    (fun _ _ => id) howed hvelocity htarget

end MoveTo

end System

end Mgate.Threads
