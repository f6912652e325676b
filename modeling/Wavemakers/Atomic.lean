/-
Straight-line thread code as a tree of atomic steps.

A function of a concurrent program is written in `do` notation over a type of
atomic operations; the result is a tree whose nodes are the operations and
whose branches are their possible results. A thread's program point is the
tree that is left of it, so an interleaved semantics only has to say what one
operation does to the shared state.

`Prog.All` says something of every operation a program may still perform,
whatever the operations return. It is closed under sequencing, so it is
checked piece by piece along the program text.
-/
import Mathlib.Logic.Basic

set_option autoImplicit false

namespace Atomic

variable {Op : Type} {Resp : Op → Type} {α β : Type}

/-- Programs over the operations `Op`, where `o` answers with a `Resp o`. -/
inductive Prog {Op : Type} (Resp : Op → Type) (α : Type) : Type where
  | pure (a : α) : Prog Resp α
  | op (o : Op) (k : Resp o → Prog Resp α) : Prog Resp α

namespace Prog

def bind : Prog Resp α → (α → Prog Resp β) → Prog Resp β
  | .pure a, f => f a
  | .op o k, f => .op o fun r => (k r).bind f

instance : Monad (Prog Resp) where
  pure := .pure
  bind := bind

/-- A single operation. -/
def lift (o : Op) : Prog Resp (Resp o) := .op o .pure

@[simp] theorem pure_bind_eq (a : α) (f : α → Prog Resp β) :
    (Pure.pure a : Prog Resp α) >>= f = f a := rfl

@[simp] theorem lift_bind_eq (o : Op) (f : Resp o → Prog Resp β) : lift o >>= f = .op o f := rfl

/-- What a program returns when nothing changes between its operations, so that each
of them has one answer. -/
def answered (answer : (o : Op) → Resp o) : Prog Resp α → α
  | .pure a => a
  | .op o k => (k (answer o)).answered answer

theorem answered_bind (answer : (o : Op) → Resp o) (p : Prog Resp α) (f : α → Prog Resp β) :
    (p >>= f).answered answer = (f (p.answered answer)).answered answer := by
  induction p with
  | pure a => rfl
  | op o k ih => exact ih (answer o)

/-- Every operation the program may perform satisfies `P`. -/
def All (P : Op → Prop) : Prog Resp α → Prop
  | .pure _ => True
  | .op o k => P o ∧ ∀ r, (k r).All P

theorem all_pure (P : Op → Prop) (a : α) : (Pure.pure a : Prog Resp α).All P := trivial

theorem all_lift {P : Op → Prop} {o : Op} (h : P o) : (lift o : Prog Resp (Resp o)).All P :=
  ⟨h, fun _ => trivial⟩

/-- **The sequencing rule.** -/
theorem all_bind {P : Op → Prop} {p : Prog Resp α} {f : α → Prog Resp β} (hp : p.All P)
    (hf : ∀ a, (f a).All P) : (p >>= f).All P := by
  induction p with
  | pure a => exact hf a
  | op o k ih => exact ⟨hp.1, fun r => ih r (hp.2 r)⟩

/-- The conditional rule. -/
theorem all_ite {P : Op → Prop} {c : Prop} [Decidable c] {p q : Prog Resp α} (hp : p.All P)
    (hq : q.All P) : (if c then p else q).All P := by
  by_cases hc : c
  · rw [if_pos hc]
    exact hp
  · rw [if_neg hc]
    exact hq

theorem All.mono {P Q : Op → Prop} (hPQ : ∀ o, P o → Q o) {p : Prog Resp α} (h : p.All P) :
    p.All Q := by
  induction p with
  | pure a => trivial
  | op o k ih => exact ⟨hPQ o h.1, fun r => ih r (h.2 r)⟩

end Prog

end Atomic
