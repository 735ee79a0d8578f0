/-
  Hash chains that hold a list: the chain at a place is the part of the list that is at home
  there, in the list's order.

  * `Homed.find`, `Homed.push`, `Homed.erase`: a search, an addition in front and a removal
    work on one chain as on the whole list.
  * `Homed.perm`: the chains one after another are the list in another order.
-/
import Mathlib

namespace Lib

variable {α : Type}

/-- The chains hold `l`. -/
def Homed (home : α → Nat) (index : Nat → List α) (l : List α) : Prop :=
  ∀ i, index i = l.filter fun c => home c = i

namespace Homed

variable {home : α → Nat} {index : Nat → List α} {l : List α}

theorem empty : Homed home (fun _ => []) [] := fun _ => rfl

theorem find (h : Homed home index l) {i : Nat} {q : α → Bool}
    (hq : ∀ c, q c = true → home c = i) : (index i).find? q = l.find? q := by
  rw [h i, List.find?_filter]
  congr 1
  funext c
  by_cases hc : q c = true
  · simp [hc, hq c hc]
  · simp [hc]

theorem push (h : Homed home index l) (d : α) :
    Homed home (Function.update index (home d) (d :: index (home d))) (d :: l) := by
  intro i
  by_cases hi : i = home d
  · subst hi
    rw [Function.update_self, List.filter_cons_of_pos (by simp), h]
  · rw [Function.update_of_ne hi, List.filter_cons_of_neg (by simpa using Ne.symm hi), h]

theorem erase (h : Homed home index l) {i : Nat} {q : α → Bool}
    (hq : ∀ c, q c = true → home c = i) :
    Homed home (Function.update index i ((index i).eraseP q)) (l.eraseP q) := by
  intro j
  by_cases hj : j = i
  · subst hj
    have hand : (fun c => q c && decide (home c = j)) = q := by
      funext c
      by_cases hc : q c = true
      · simp [hc, hq c hc]
      · simp [hc]
    rw [Function.update_self, h j, List.eraseP_filter, hand]
  · -- what is taken out is not at home in the other chains
    rw [Function.update_of_ne hj, h j]
    induction l generalizing index with
    | nil => rfl
    | cons c l ih =>
        by_cases hc : q c = true
        · have hne : ¬home c = j := fun he => hj (he.symm.trans (hq c hc))
          rw [List.eraseP_cons_of_pos hc, List.filter_cons_of_neg (by simpa using hne)]
        · have htail : Homed home (fun i => l.filter fun c => home c = i) l := fun _ => rfl
          rw [List.eraseP_cons_of_neg hc, List.filter_cons, List.filter_cons, ih htail]

theorem any (h : Homed home index l) {i : Nat} {q : α → Bool}
    (hq : ∀ c, q c = true → home c = i) : (index i).any q = l.any q := by
  rw [Bool.eq_iff_iff, List.any_eq_true, List.any_eq_true]
  constructor
  · rintro ⟨c, hc, hqc⟩
    rw [h i] at hc
    exact ⟨c, (List.mem_filter.mp hc).1, hqc⟩
  · rintro ⟨c, hc, hqc⟩
    refine ⟨c, ?_, hqc⟩
    rw [h i]
    exact List.mem_filter.mpr ⟨hc, decide_eq_true (hq c hqc)⟩

/-- The part of `l` at home below `n` is what the first `n` chains hold. -/
theorem perm_below (h : Homed home index l) (n : Nat) :
    ((List.range n).flatMap index).Perm (l.filter fun c => home c < n) := by
  induction n with
  | zero => simp
  | succ n ih =>
      have hsplit := List.filter_append_perm (fun c => decide (home c < n))
        (l.filter fun c => home c < n + 1)
      rw [List.filter_filter, List.filter_filter] at hsplit
      have hbelow : (fun c => decide (home c < n) && decide (home c < n + 1)) =
          fun c => decide (home c < n) := by
        funext c
        by_cases hc : home c < n
        · simp [hc, Nat.lt_succ_of_lt hc]
        · simp [hc]
      have hat : (fun c => !decide (home c < n) && decide (home c < n + 1)) =
          fun c => decide (home c = n) := by
        funext c
        by_cases hc : home c = n
        · simp [hc]
        · by_cases hlt : home c < n
          · simp [hlt, hc]
          · have hnot : ¬home c < n + 1 := by omega
            simp [hnot, hc]
      rw [hbelow, hat, ← h n] at hsplit
      rw [List.range_succ, List.flatMap_append, List.flatMap_singleton]
      exact (ih.append_right _).trans hsplit

/-- The chains one after another. -/
theorem perm (h : Homed home index l) {n : Nat} (hn : ∀ c, home c < n) :
    ((List.range n).flatMap index).Perm l := by
  have hall : (l.filter fun c => home c < n) = l :=
    List.filter_eq_self.mpr fun c _ => decide_eq_true (hn c)
  have hperm := h.perm_below n
  rwa [hall] at hperm

end Homed

end Lib
