/-
  Hash tables with chaining: `index i` is the chain at the place `i`, and an entry is in the chain
  of its name.

  * `Buckets`: the entries are where their names say, and no two have one name.
  * `Buckets.find_eq_some`: what a search of one chain finds.
  * `Buckets.add`, `Buckets.erase`: the entries after an addition and a removal.
-/
import Mathlib

namespace Lib

variable {α N : Type}

/-- Each entry is in the chain of its name, and the names of a chain are distinct. -/
structure Buckets (name : α → N) (home : N → Nat) (index : Nat → List α) : Prop where
  placed : ∀ i, ∀ c ∈ index i, i = home (name c)
  distinct : ∀ i, ((index i).map name).Nodup

namespace Buckets

variable {name : α → N} {home : N → Nat} {index : Nat → List α}

theorem empty : Buckets name home fun _ => [] where
  placed := fun _ _ hc => absurd hc List.not_mem_nil
  distinct := fun _ => List.nodup_nil

theorem mem_home (h : Buckets name home index) {i : Nat} {c : α} (hc : c ∈ index i) :
    c ∈ index (home (name c)) := by
  rw [← h.placed i c hc]
  exact hc

/-- No two entries have one name. -/
theorem unique (h : Buckets name home index) {i j : Nat} {c d : α} (hc : c ∈ index i)
    (hd : d ∈ index j) (he : name c = name d) : c = d := by
  have hc' := h.mem_home hc
  have hd' := h.mem_home hd
  rw [he] at hc'
  exact List.inj_on_of_nodup_map (h.distinct _) hc' hd' he

/-- A search for a name finds the entry of that name. -/
theorem find_eq_some (h : Buckets name home index) {n : N} {p : α → Bool}
    (hp : ∀ c ∈ index (home n), p c = true ↔ name c = n) {c : α} :
    (index (home n)).find? p = some c ↔ (∃ i, c ∈ index i) ∧ name c = n := by
  constructor
  · intro hf
    have hc := List.mem_of_find?_eq_some hf
    exact ⟨⟨_, hc⟩, (hp c hc).mp (List.find?_some hf)⟩
  · intro hc
    obtain ⟨⟨i, hi⟩, rfl⟩ := hc
    have hhome := h.mem_home hi
    obtain ⟨d, hd⟩ := Option.isSome_iff_exists.mp
      (List.find?_isSome.mpr ⟨c, hhome, (hp c hhome).mpr rfl⟩)
    have hmem := List.mem_of_find?_eq_some hd
    have hname := (hp d hmem).mp (List.find?_some hd)
    rw [hd, h.unique hmem hi hname]

/-- An entry of a new name put in front of its chain. -/
theorem add (h : Buckets name home index) {d : α} (hnew : ∀ i, ∀ c ∈ index i, name c ≠ name d) :
    Buckets name home
      (Function.update index (home (name d)) (d :: index (home (name d)))) where
  placed := fun i c hc => by
    by_cases hi : i = home (name d)
    · rw [hi, Function.update_self] at hc
      rcases List.mem_cons.mp hc with rfl | hc
      · exact hi
      · rw [hi]
        exact h.placed _ c hc
    · rw [Function.update_of_ne hi] at hc
      exact h.placed i c hc
  distinct := fun i => by
    by_cases hi : i = home (name d)
    · rw [hi, Function.update_self, List.map_cons, List.nodup_cons]
      refine ⟨fun hm => ?_, h.distinct _⟩
      obtain ⟨c, hc, he⟩ := List.mem_map.mp hm
      exact hnew _ c hc he
    · rw [Function.update_of_ne hi]
      exact h.distinct i

theorem mem_add {i : Nat} {d c : α} :
    (∃ j, c ∈ Function.update index i (d :: index i) j) ↔ c = d ∨ ∃ j, c ∈ index j := by
  constructor
  · intro hc
    obtain ⟨j, hj⟩ := hc
    by_cases hi : j = i
    · rw [hi, Function.update_self] at hj
      rcases List.mem_cons.mp hj with rfl | hj
      · exact Or.inl rfl
      · exact Or.inr ⟨i, hj⟩
    · rw [Function.update_of_ne hi] at hj
      exact Or.inr ⟨j, hj⟩
  · intro hc
    rcases hc with rfl | ⟨j, hj⟩
    · exact ⟨i, by rw [Function.update_self]; exact List.mem_cons_self⟩
    · by_cases hi : j = i
      · rw [hi] at hj
        exact ⟨i, by rw [Function.update_self]; exact List.mem_cons_of_mem _ hj⟩
      · exact ⟨j, by rw [Function.update_of_ne hi]; exact hj⟩

/-- The first entry of a name taken out of its chain. -/
theorem erase (h : Buckets name home index) (i : Nat) (p : α → Bool) :
    Buckets name home (Function.update index i ((index i).eraseP p)) where
  placed := fun j c hc => by
    by_cases hj : j = i
    · rw [hj, Function.update_self] at hc
      rw [hj]
      exact h.placed i c (List.mem_of_mem_eraseP hc)
    · rw [Function.update_of_ne hj] at hc
      exact h.placed j c hc
  distinct := fun j => by
    by_cases hj : j = i
    · rw [hj, Function.update_self]
      exact (h.distinct i).sublist (List.eraseP_sublist.map name)
    · rw [Function.update_of_ne hj]
      exact h.distinct j

/-- The entry of that name is the one gone. -/
theorem mem_erase (h : Buckets name home index) {n : N} {p : α → Bool}
    (hp : ∀ c ∈ index (home n), p c = true ↔ name c = n) {c : α} :
    (∃ j, c ∈ Function.update index (home n) ((index (home n)).eraseP p) j) ↔
      (∃ j, c ∈ index j) ∧ name c ≠ n := by
  have hnd := (h.distinct (home n)).of_map
  constructor
  · intro hc
    obtain ⟨j, hj⟩ := hc
    by_cases hi : j = home n
    · rw [hi, Function.update_self] at hj
      have hmem := List.mem_of_mem_eraseP hj
      refine ⟨⟨_, hmem⟩, fun he => ?_⟩
      -- the entry erased would be this one
      obtain ⟨d, l1, l2, -, hpd, hsplit, herase⟩ :=
        List.exists_of_eraseP hmem ((hp c hmem).mpr he)
      have hd : d ∈ index (home n) := by
        rw [hsplit]
        exact List.mem_append_right _ List.mem_cons_self
      have hcd := h.unique hmem hd (he.trans ((hp d hd).mp hpd).symm)
      rw [herase, hcd] at hj
      rw [hsplit] at hnd
      exact (List.nodup_cons.mp (List.nodup_middle.mp hnd)).1 hj
    · rw [Function.update_of_ne hi] at hj
      exact ⟨⟨j, hj⟩, fun he => hi (by rw [h.placed j c hj, he])⟩
  · intro hc
    obtain ⟨⟨j, hj⟩, hne⟩ := hc
    by_cases hi : j = home n
    · rw [hi] at hj
      refine ⟨home n, ?_⟩
      rw [Function.update_self]
      exact (List.mem_eraseP_of_neg fun hpc => hne ((hp c hj).mp hpc)).mpr hj
    · exact ⟨j, by rw [Function.update_of_ne hi]; exact hj⟩

end Buckets

end Lib
