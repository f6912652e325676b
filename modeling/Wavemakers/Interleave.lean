/-
Interleaved executions of a partial step function.

A concurrent component is modelled by one state type holding the shared data
and every thread's program point, an event type naming which thread moves and
what its environment answers, and a partial step function. Every
interleaving is then a list of events. This file is the small theory the
component files share: running a list of events, the states such runs reach,
and the two induction principles the safety proofs go through.

The condition `C` of `Reach` restricts the runs to those whose every step
meets it in the state before the step; `fun _ _ => True` gives all runs.
Nothing here knows about drives, gateways or goals.
-/
import Mathlib.Data.Option.Basic
import Mathlib.Data.List.Basic

set_option autoImplicit false

namespace Interleave

variable {σ ε : Type}

/-! ## Runs -/

/-- Run a list of events. `none` when an event is not enabled where it is due. -/
def run (step : σ → ε → Option σ) : σ → List ε → Option σ
  | s, [] => some s
  | s, e :: es => (step s e).bind fun t => run step t es

@[simp] theorem run_nil (step : σ → ε → Option σ) (s : σ) : run step s [] = some s := rfl

theorem run_cons_eq_some {step : σ → ε → Option σ} {s u : σ} {e : ε} {es : List ε} :
    run step s (e :: es) = some u ↔ ∃ t, step s e = some t ∧ run step t es = some u := by
  simp only [run, Option.bind_eq_some_iff]

/-- A run splits where its event list does. -/
theorem run_append (step : σ → ε → Option σ) (s : σ) (es fs : List ε) :
    run step s (es ++ fs) = (run step s es).bind fun t => run step t fs := by
  induction es generalizing s with
  | nil => rfl
  | cons e es ih =>
      simp only [List.cons_append, run, Option.bind_assoc]
      congr 1
      funext t
      exact ih t

/-! ## Reachable states -/

/-- The states reached from `I` by steps that all meet `C`. -/
inductive Reach (step : σ → ε → Option σ) (C : σ → ε → Prop) (I : σ → Prop) : σ → Prop where
  | init {s : σ} : I s → Reach step C I s
  | step {s t : σ} {e : ε} : Reach step C I s → C s e → step s e = some t → Reach step C I t

/-- The condition that lets every step pass. -/
def Any (_ : σ) (_ : ε) : Prop := True

/-- **The invariant rule.** What holds initially and is preserved by every
step that meets the condition holds in every state reached. -/
theorem Reach.invariant {step : σ → ε → Option σ} {C : σ → ε → Prop} {I Inv : σ → Prop}
    (hinit : ∀ s, I s → Inv s)
    (hstep : ∀ s e t, Inv s → C s e → step s e = some t → Inv t) {s : σ}
    (h : Reach step C I s) : Inv s := by
  induction h with
  | init hs => exact hinit _ hs
  | step _ hc hs ih => exact hstep _ _ _ ih hc hs

/-- A stronger condition reaches fewer states. -/
theorem Reach.mono {step : σ → ε → Option σ} {C D : σ → ε → Prop} {I : σ → Prop}
    (hCD : ∀ s e, C s e → D s e) {s : σ} (h : Reach step C I s) : Reach step D I s := by
  induction h with
  | init hs => exact .init hs
  | step _ hc hs ih => exact .step ih (hCD _ _ hc) hs

/-- What is reached from a reachable state is reachable. -/
theorem Reach.trans {step : σ → ε → Option σ} {C : σ → ε → Prop} {I : σ → Prop} {s t : σ}
    (h : Reach step C I s) (h' : Reach step C (fun x => x = s) t) : Reach step C I t := by
  induction h' with
  | init hx =>
      rw [hx]
      exact h
  | step _ hc hs ih => exact .step ih hc hs

/-- A run from a reachable state ends in a reachable one. -/
theorem Reach.run {step : σ → ε → Option σ} {I : σ → Prop} {s t : σ} {es : List ε}
    (h : Reach step Any I s) (hr : run step s es = some t) : Reach step Any I t := by
  induction es generalizing s with
  | nil => cases hr; exact h
  | cons e es ih =>
      obtain ⟨u, hu, hr⟩ := run_cons_eq_some.mp hr
      exact ih (.step h trivial hu) hr

/-- The step function cut down to the steps that meet `C`. -/
def guarded (step : σ → ε → Option σ) (C : σ → ε → Prop) [∀ s e, Decidable (C s e)] (s : σ)
    (e : ε) : Option σ :=
  if C s e then step s e else none

/-- A run of the guarded step function meets the condition all along. This is
how a concrete run is shown reachable: by evaluating it. -/
theorem Reach.guarded_run {step : σ → ε → Option σ} {C : σ → ε → Prop}
    [∀ s e, Decidable (C s e)] {I : σ → Prop} {s t : σ} (es : List ε) (h : Reach step C I s)
    (hr : Interleave.run (guarded step C) s es = some t) : Reach step C I t := by
  induction es generalizing s with
  | nil => cases hr; exact h
  | cons e es ih =>
      obtain ⟨u, hu, hr⟩ := run_cons_eq_some.mp hr
      unfold guarded at hu
      split at hu
      · rename_i hc
        exact ih (.step h hc hu) hr
      · cases hu

/-- **The run rule.** Along a run whose events all meet `C`, an invariant of
the steps that meet `C` is kept from the first state to the last. -/
theorem run_invariant {step : σ → ε → Option σ} {C : ε → Prop} {Inv : σ → Prop}
    (hstep : ∀ s e t, Inv s → C e → step s e = some t → Inv t) {s t : σ} {es : List ε}
    (hs : Inv s) (hC : ∀ e ∈ es, C e) (hr : run step s es = some t) : Inv t := by
  induction es generalizing s with
  | nil => cases hr; exact hs
  | cons e es ih =>
      obtain ⟨u, hu, hr⟩ := run_cons_eq_some.mp hr
      exact ih (hstep _ _ _ hs (hC e (by simp)) hu) (fun e' he' => hC e' (by simp [he'])) hr

/-! ## Histories -/

section History

variable {ω : Type}

/-- The step function with a history beside the state: `o` says what a step adds
to it. Steps never read the history. -/
def observe (step : σ → ε → Option σ) (o : ω → σ → ε → ω) (x : σ × ω) (e : ε) : Option (σ × ω) :=
  (step x.1 e).map fun t => (t, o x.2 x.1 e)

theorem observe_eq_some {step : σ → ε → Option σ} {o : ω → σ → ε → ω} {x y : σ × ω} {e : ε} :
    observe step o x e = some y ↔ step x.1 e = some y.1 ∧ y.2 = o x.2 x.1 e := by
  rw [observe, Option.map_eq_some_iff]
  constructor
  · rintro ⟨t, ht, rfl⟩
    exact ⟨ht, rfl⟩
  · rintro ⟨ht, hy⟩
    exact ⟨y.1, ht, by rw [← hy]⟩

end History

end Interleave
