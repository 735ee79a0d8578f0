/-
  Transition systems whose steps are named by labels, and what holds in every state of their runs.

  * `Sys.Reach C`: the states of the runs each step of which satisfies `C`.
  * `Sys.Reach.invariant`: what holds first and is kept by each step holds always.
  * `Sys.reach_of_run`: a run given by its labels is one of them.
  * `Sys.run_map`, `Sys.run_same_iff`: two runs of the same labels, and what a run leaves alone.
-/
import Mathlib

namespace Lib

/-- The first states, and the state a label leads to from a state in which it is enabled. -/
structure Sys (S L : Type) where
  init : S → Prop
  next : S → L → Option S

namespace Sys

variable {S L : Type} {sys : Sys S L} {C : S → L → Prop}

/-- The states of the runs each step of which satisfies `C`. -/
inductive Reach (sys : Sys S L) (C : S → L → Prop) : S → Prop
  | init {s : S} (h : sys.init s) : Reach sys C s
  | step {s s' : S} {l : L} (h : Reach sys C s) (hc : C s l) (hn : sys.next s l = some s') :
      Reach sys C s'

/-- The states of all runs. -/
abbrev Reachable (sys : Sys S L) : S → Prop := sys.Reach fun _ _ => True

theorem Reach.invariant {I : S → Prop} (hinit : ∀ s, sys.init s → I s)
    (hstep : ∀ s l s', I s → C s l → sys.next s l = some s' → I s') {s : S}
    (h : sys.Reach C s) : I s := by
  induction h with
  | init h => exact hinit _ h
  | step _ hc hn ih => exact hstep _ _ _ ih hc hn

theorem Reach.mono {C' : S → L → Prop} (hCC : ∀ s l, C s l → C' s l) {s : S}
    (h : sys.Reach C s) : sys.Reach C' s :=
  h.invariant (fun _ => Reach.init) fun _ _ _ ih hc => ih.step (hCC _ _ hc)

theorem Reach.reachable {s : S} (h : sys.Reach C s) : sys.Reachable s :=
  h.mono fun _ _ _ => trivial

/-- The state after the steps of these labels, if `c` holds at each of them. -/
def run (sys : Sys S L) (c : S → L → Bool) : S → List L → Option S
  | s, [] => some s
  | s, l :: ls => if c s l then (sys.next s l).bind fun s' => sys.run c s' ls else none

/-- A run whose steps are found to satisfy `C` with the help of an invariant. -/
theorem Reach.run_inv {I : S → Prop} (hI : ∀ s, sys.Reach C s → I s) {c : S → L → Bool}
    (hC : ∀ s l, I s → c s l = true → C s l) {s s' : S} {ls : List L} (h : sys.Reach C s)
    (hr : sys.run c s ls = some s') : sys.Reach C s' := by
  induction ls generalizing s with
  | nil =>
      obtain rfl := Option.some.inj hr
      exact h
  | cons l ls ih =>
      rw [Sys.run] at hr
      split at hr
      · rename_i hc
        obtain ⟨s1, hn, hr⟩ := Option.bind_eq_some_iff.mp hr
        exact ih (h.step (hC s l (hI s h) hc) hn) hr
      · exact nomatch hr

theorem Reach.run {c : S → L → Bool} (hC : ∀ s l, c s l = true → C s l) {s s' : S} {ls : List L}
    (h : sys.Reach C s) (hr : sys.run c s ls = some s') : sys.Reach C s' :=
  h.run_inv (fun _ _ => trivial) (fun s l _ => hC s l) hr

/-- A run after which `p` holds. -/
theorem reach_of_run {c : S → L → Bool} (hC : ∀ s l, c s l = true → C s l) {s : S}
    (h : sys.Reach C s) (ls : List L) {p : S → Bool} (hr : (sys.run c s ls).map p = some true) :
    ∃ s', sys.Reach C s' ∧ p s' = true := by
  obtain ⟨s', hr, hp⟩ := Option.map_eq_some_iff.mp hr
  exact ⟨s', h.run hC hr, hp⟩

/-- The same with the help of an invariant. -/
theorem reach_of_run_inv {I : S → Prop} (hI : ∀ s, sys.Reach C s → I s) {c : S → L → Bool}
    (hC : ∀ s l, I s → c s l = true → C s l) {s : S} (h : sys.Reach C s) (ls : List L)
    {p : S → Bool} (hr : (sys.run c s ls).map p = some true) :
    ∃ s', sys.Reach C s' ∧ p s' = true := by
  obtain ⟨s', hr, hp⟩ := Option.map_eq_some_iff.mp hr
  exact ⟨s', h.run_inv hI hC hr, hp⟩

/-- A map that goes along with each step goes along with each run. -/
theorem run_map {S' : Type} {sys' : Sys S' L} {c : S → L → Bool} {c' : S' → L → Bool} {f : S → S'}
    (hc : ∀ s l, c' (f s) l = c s l) (hn : ∀ s l, sys'.next (f s) l = (sys.next s l).map f)
    (s : S) (ls : List L) : sys'.run c' (f s) ls = (sys.run c s ls).map f := by
  induction ls generalizing s with
  | nil => rfl
  | cons l ls ih =>
      rw [Sys.run, Sys.run, hc, hn]
      cases c s l with
      | false => rfl
      | true =>
          cases sys.next s l with
          | none => rfl
          | some s' => exact ih s'

/-- What the steps with `c` leave as it is and the others increase is as it was exactly after a run
    whose steps all satisfy `c`. -/
theorem run_same_iff {c : S → L → Bool} {m : S → Nat}
    (hkeep : ∀ s l s', sys.next s l = some s' → c s l = true → m s' = m s)
    (hgrow : ∀ s l s', sys.next s l = some s' → c s l = false → m s < m s') {s s' : S}
    {ls : List L} (hr : sys.run (fun _ _ => true) s ls = some s') :
    m s ≤ m s' ∧ (m s' = m s ↔ (sys.run c s ls).isSome) := by
  induction ls generalizing s with
  | nil =>
      obtain rfl := Option.some.inj hr
      simp [Sys.run]
  | cons l ls ih =>
      rw [Sys.run, if_pos rfl] at hr
      obtain ⟨s1, hn, hr⟩ := Option.bind_eq_some_iff.mp hr
      obtain ⟨hle, hiff⟩ := ih hr
      rw [Sys.run, hn]
      cases hc : c s l with
      | false =>
          have hlt := hgrow s l s1 hn hc
          simp
          omega
      | true =>
          have heq := hkeep s l s1 hn hc
          rw [heq] at hle hiff
          exact ⟨hle, hiff⟩

end Sys

end Lib
