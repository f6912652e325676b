/-
Rely and guarantee for the program trees of `Atomic.lean`.

A thread runs its tree operation by operation while other threads move in
between. A `Setting` says what an operation of the thread can do (`own`), what
the others can do between two of them (`others`), and what the thread owes
whenever it performs one (`guar`). `Safe` is the property a thread keeps along
the way: at every operation it owes what it has to, and when it has ended its
result and the state satisfy `Q`, whatever the others have done.

`Triple P p Q` is the rule form: from every state with `P`, the program is safe
for `Q`. Assertions that stand between two operations have to be `Stable`. The
rules follow the shape of the program text, so a triple is proved by walking
along it.
-/
import Mathlib.Logic.Relation
import Wavemakers.Atomic

set_option autoImplicit false

namespace Atomic

open Relation

variable {Op : Type} {Resp : Op → Type} {α β σ : Type}

/-- What surrounds a thread. -/
structure Setting {Op : Type} (σ : Type) (Resp : Op → Type) where
  /-- an operation of the thread, and its result -/
  own : σ → (o : Op) → σ → Resp o → Prop
  /-- a step of anyone else -/
  others : σ → σ → Prop
  /-- what has to hold when the thread performs the operation -/
  guar : σ → Op → Prop

/-- The others do not invalidate the assertion. -/
def Setting.Stable (W : Setting σ Resp) (P : σ → Prop) : Prop := ∀ s t, P s → W.others s t → P t

theorem Setting.Stable.closure {W : Setting σ Resp} {P : σ → Prop} (hP : W.Stable P) {s t : σ}
    (hs : P s) (hst : ReflTransGen W.others s t) : P t := by
  induction hst with
  | refl => exact hs
  | tail _ hstep ih => exact hP _ _ ih hstep

namespace Prog

variable {W : Setting σ Resp} {P P' : σ → Prop} {Q Q' : α → σ → Prop}

def Safe (W : Setting σ Resp) (Q : α → σ → Prop) : Prog Resp α → σ → Prop
  | .pure a, s => ∀ t, ReflTransGen W.others s t → Q a t
  | .op o k, s => ∀ t, ReflTransGen W.others s t →
      W.guar t o ∧ ∀ u r, W.own t o u r → (k r).Safe W Q u

/-! ## Along a run -/

/-- A step of the others. -/
theorem Safe.others {p : Prog Resp α} {s t : σ} (h : p.Safe W Q s) (hst : W.others s t) :
    p.Safe W Q t := by
  cases p with
  | pure a => exact fun u hu => h u (.head hst hu)
  | op o k => exact fun u hu => h u (.head hst hu)

/-- A step of the thread. -/
theorem Safe.own {o : Op} {k : Resp o → Prog Resp α} {s t : σ} {r : Resp o}
    (h : (Prog.op o k).Safe W Q s) (hst : W.own s o t r) : (k r).Safe W Q t :=
  (h s .refl).2 t r hst

/-- What it owes. -/
theorem Safe.guar {o : Op} {k : Resp o → Prog Resp α} {s : σ} (h : (Prog.op o k).Safe W Q s) :
    W.guar s o := (h s .refl).1

/-- Its result. -/
theorem Safe.result {a : α} {s : σ} (h : (Prog.pure a).Safe W Q s) : Q a s := h s .refl

theorem Safe.mono {p : Prog Resp α} {s : σ} (h : p.Safe W Q s) (hQ : ∀ a t, Q a t → Q' a t) :
    p.Safe W Q' s := by
  induction p generalizing s with
  | pure a => exact fun t ht => hQ a t (h t ht)
  | op o k ih => exact fun t ht => ⟨(h t ht).1, fun u r hu => ih r ((h t ht).2 u r hu)⟩

theorem Safe.bind {p : Prog Resp α} {f : α → Prog Resp β} {R : β → σ → Prop} {s : σ}
    (h : p.Safe W (fun a t => (f a).Safe W R t) s) : (p >>= f).Safe W R s := by
  induction p generalizing s with
  | pure a => exact h.result
  | op o k ih => exact fun t ht => ⟨(h t ht).1, fun u r hu => ih r ((h t ht).2 u r hu)⟩

/-- Where nothing is owed and nothing asked for. -/
theorem Safe.trivial (hguar : ∀ s o, W.guar s o) (hQ : ∀ a s, Q a s) (p : Prog Resp α) (s : σ) :
    p.Safe W Q s := by
  induction p generalizing s with
  | pure a => exact fun t _ => hQ a t
  | op o k ih => exact fun t _ => ⟨hguar t o, fun u r _ => ih r u⟩

/-! ## Triples -/

def Triple (W : Setting σ Resp) (P : σ → Prop) (p : Prog Resp α) (Q : α → σ → Prop) : Prop :=
  ∀ s, P s → p.Safe W Q s

/-- The result is returned. -/
theorem Triple.pure {a : α} (hQ : W.Stable (Q a)) : Triple W (Q a) (Pure.pure a) Q :=
  fun _ hs _ ht => hQ.closure hs ht

/-- **One operation**, and the rest of the program behind it. -/
theorem Triple.op {o : Op} {k : Resp o → Prog Resp α} {M : Resp o → σ → Prop} (hP : W.Stable P)
    (hguar : ∀ s, P s → W.guar s o) (hown : ∀ s t r, P s → W.own s o t r → M r t)
    (hk : ∀ r, Triple W (M r) (k r) Q) : Triple W P (.op o k) Q := by
  intro s hs t ht
  have hPt := hP.closure hs ht
  exact ⟨hguar t hPt, fun u r hu => hk r u (hown t u r hPt hu)⟩

/-- **Sequencing.** -/
theorem Triple.bind {p : Prog Resp α} {f : α → Prog Resp β} {M : α → σ → Prop}
    {R : β → σ → Prop} (hp : Triple W P p M) (hf : ∀ a, Triple W (M a) (f a) R) :
    Triple W P (p >>= f) R :=
  fun s hs => ((hp s hs).mono fun a t ha => hf a t ha).bind

theorem Triple.ite {c : Prop} [Decidable c] {p q : Prog Resp α} (hp : c → Triple W P p Q)
    (hq : ¬ c → Triple W P q Q) : Triple W P (if c then p else q) Q := by
  by_cases hc : c
  · rw [if_pos hc]
    exact hp hc
  · rw [if_neg hc]
    exact hq hc

theorem Triple.weaken {p : Prog Resp α} (h : Triple W P p Q) (hP : ∀ s, P' s → P s)
    (hQ : ∀ a s, Q a s → Q' a s) : Triple W P' p Q' :=
  fun s hs => (h s (hP s hs)).mono hQ

/-- A single operation. -/
theorem Triple.lift {o : Op} {M : Resp o → σ → Prop} (hP : W.Stable P)
    (hguar : ∀ s, P s → W.guar s o) (hown : ∀ s t r, P s → W.own s o t r → M r t)
    (hM : ∀ r, W.Stable (M r)) : Triple W P (Prog.lift o) M :=
  .op hP hguar hown fun r => Triple.pure (hM r)

/-- **The frame rule.** A program whose operations all keep an assertion keeps it. -/
theorem Triple.frame {H : Op → Prop} {p : Prog Resp α} (hP : W.Stable P)
    (hguar : ∀ s o, H o → P s → W.guar s o)
    (hown : ∀ s o t r, H o → P s → W.own s o t r → P t) (hp : p.All H) :
    Triple W P p fun _ => P := by
  induction p with
  | pure a => exact Triple.pure (Q := fun _ => P) hP
  | op o k ih =>
      exact .op hP (fun s => hguar s o hp.1) (fun s t r => hown s o t r hp.1) fun r =>
        ih r (hp.2 r)

/-- What every operation keeps, every program does. -/
theorem Triple.always (p : Prog Resp α) (hP : W.Stable P) (hguar : ∀ s o, P s → W.guar s o)
    (hown : ∀ s o t r, P s → W.own s o t r → P t) : Triple W P p fun _ => P := by
  induction p with
  | pure a => exact Triple.pure (Q := fun _ => P) hP
  | op o k ih => exact .op hP (fun s => hguar s o) (fun s t r => hown s o t r) fun r => ih r

end Prog

end Atomic
