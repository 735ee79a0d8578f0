/-
  Singly linked lists in a heap. `nx a` is the link stored in the node at `a`, `none` when there is
  no node at `a`; a link is `none` when it is null.

  * `Seg nx p l q`: from `p`, following links through exactly the nodes `l`, one comes to `q`.
  * `Seg.push`, `Seg.pop`, `Seg.snoc`, `Seg.insert`, `Seg.unlink`: the edits, each saying which
    links it reads.
  * `Seg.nodup`: a list that ends does not come back to a node.
  * `Reaches nx p a`: following links from `p` one comes to `a`.
-/
import Mathlib

namespace Lib

variable {A : Type} {nx nx' : A → Option (Option A)}

/-- The list segment from `p` to `q` through `l`. -/
def Seg (nx : A → Option (Option A)) : Option A → List A → Option A → Prop
  | p, [], q => p = q
  | p, a :: l, q => p = some a ∧ ∃ n, nx a = some n ∧ Seg nx n l q

/-- A node met on the way from `p`. -/
inductive Reaches (nx : A → Option (Option A)) : Option A → A → Prop
  | here (a : A) : Reaches nx (some a) a
  | next {a b : A} {n : Option A} (h : nx a = some n) (ih : Reaches nx n b) : Reaches nx (some a) b

namespace Seg

@[simp] theorem nil_iff {p q : Option A} : Seg nx p [] q ↔ p = q := Iff.rfl

@[simp] theorem cons_iff {p q : Option A} {a : A} {l : List A} :
    Seg nx p (a :: l) q ↔ p = some a ∧ ∃ n, nx a = some n ∧ Seg nx n l q := Iff.rfl

theorem append_iff {p q : Option A} {l l' : List A} :
    Seg nx p (l ++ l') q ↔ ∃ m, Seg nx p l m ∧ Seg nx m l' q := by
  induction l generalizing p with
  | nil => simp
  | cons a l ih =>
      rw [List.cons_append, cons_iff]
      constructor
      · rintro ⟨hp, n, hn, h⟩
        obtain ⟨m, hm, hm'⟩ := ih.mp h
        exact ⟨m, ⟨hp, n, hn, hm⟩, hm'⟩
      · rintro ⟨m, ⟨hp, n, hn, hm⟩, hm'⟩
        exact ⟨hp, n, hn, ih.mpr ⟨m, hm, hm'⟩⟩

/-- Only the links of the segment's own nodes are read. -/
theorem congr {p q : Option A} {l : List A} (h : Seg nx p l q) (hl : ∀ a ∈ l, nx' a = nx a) :
    Seg nx' p l q := by
  induction l generalizing p with
  | nil => exact h
  | cons a l ih =>
      obtain ⟨hp, n, hn, h⟩ := h
      refine ⟨hp, n, ?_, ih h fun b hb => hl b (List.mem_cons_of_mem _ hb)⟩
      rw [hl a List.mem_cons_self, hn]

theorem head {p : Option A} {l : List A} (h : Seg nx p l none) : p = l.head? := by
  cases l with
  | nil => exact h
  | cons a l => exact h.1

theorem cons_of_some {a : A} {l : List A} (h : Seg nx (some a) l none) : ∃ r, l = a :: r := by
  cases l with
  | nil => exact absurd h (Option.some_ne_none a)
  | cons b r => exact ⟨r, by rw [Option.some.inj h.1]⟩

theorem live {p q : Option A} {l : List A} (h : Seg nx p l q) {a : A} (ha : a ∈ l) :
    ∃ n, nx a = some n := by
  induction l generalizing p with
  | nil => exact absurd ha List.not_mem_nil
  | cons b l ih =>
      obtain ⟨-, n, hn, h⟩ := h
      rcases List.mem_cons.mp ha with rfl | ha
      · exact ⟨n, hn⟩
      · exact ih h ha

theorem reaches {p q : Option A} {l : List A} (h : Seg nx p l q) {a : A} (ha : a ∈ l) :
    Reaches nx p a := by
  induction l generalizing p with
  | nil => exact absurd ha List.not_mem_nil
  | cons b l ih =>
      obtain ⟨rfl, n, hn, h⟩ := h
      rcases List.mem_cons.mp ha with rfl | ha
      · exact Reaches.here a
      · exact Reaches.next hn (ih h ha)

/-- The nodes of a list that ends are those one comes to. -/
theorem mem_of_reaches {p : Option A} {l : List A} (h : Seg nx p l none) {a : A}
    (ha : Reaches nx p a) : a ∈ l := by
  induction ha generalizing l with
  | here a =>
      cases l with
      | nil => exact nomatch h
      | cons b l =>
          rw [Option.some.inj h.1]
          exact List.mem_cons_self
  | next hn _ ih =>
      cases l with
      | nil => exact nomatch h
      | cons b l =>
          obtain ⟨hp, m, hm, h⟩ := h
          rw [Option.some.inj hp] at hn
          rw [Option.some.inj (hn.symm.trans hm)] at ih
          exact List.mem_cons_of_mem _ (ih h)

theorem unique {p : Option A} {l l' : List A} (h : Seg nx p l none) (h' : Seg nx p l' none) :
    l = l' := by
  induction l generalizing p l' with
  | nil =>
      cases l' with
      | nil => rfl
      | cons b l' =>
          rw [nil_iff] at h
          exact nomatch h.symm.trans h'.1
  | cons a l ih =>
      obtain ⟨rfl, n, hn, h⟩ := h
      cases l' with
      | nil => exact nomatch h'
      | cons b l' =>
          obtain ⟨hb, m, hm, h'⟩ := h'
          obtain rfl := Option.some.inj hb
          obtain rfl := Option.some.inj (hn.symm.trans hm)
          rw [ih h h']

/-- The rest of the list is the same wherever a node occurs in it, so no node occurs twice. -/
theorem nodup {p : Option A} {l : List A} (h : Seg nx p l none) : l.Nodup := by
  induction l generalizing p with
  | nil => exact List.nodup_nil
  | cons a l ih =>
      obtain ⟨rfl, n, hn, h⟩ := h
      refine List.nodup_cons.mpr ⟨fun ha => ?_, ih h⟩
      obtain ⟨k, r, rfl⟩ := List.append_of_mem ha
      obtain ⟨m, -, rfl, n', hn', hr⟩ := append_iff.mp h
      obtain rfl := Option.some.inj (hn.symm.trans hn')
      have := congrArg List.length (unique h hr)
      rw [List.length_append, List.length_cons] at this
      omega

/-- A node put before the list. -/
theorem push {p q : Option A} {l : List A} {a : A} (h : Seg nx p l q)
    (hl : ∀ b ∈ l, nx' b = nx b) (ha : nx' a = some p) : Seg nx' (some a) (a :: l) q :=
  ⟨rfl, p, ha, h.congr hl⟩

/-- A node put behind the last one. -/
theorem snoc {p : Option A} {l : List A} {x a : A} (h : Seg nx p (l ++ [x]) none)
    (hl : ∀ b ∈ l, nx' b = nx b) (hx : nx' x = some (some a)) (ha : nx' a = some none) :
    Seg nx' p (l ++ [x, a]) none := by
  obtain ⟨m, hm, rfl, -⟩ := append_iff.mp h
  exact append_iff.mpr ⟨_, hm.congr hl, rfl, _, hx, rfl, _, ha, rfl⟩

/-- The first node taken off. -/
theorem pop {p q : Option A} {l : List A} {a : A} {n : Option A} (h : Seg nx p (a :: l) q)
    (ha : nx a = some n) (hl : ∀ b ∈ l, nx' b = nx b) : Seg nx' n l q := by
  obtain ⟨-, m, hm, h⟩ := h
  obtain rfl := Option.some.inj (ha.symm.trans hm)
  exact h.congr hl

/-- A node put behind `x`: it gets the link of `x`. -/
theorem insert {p q : Option A} {k r : List A} {x a : A} (h : Seg nx p (k ++ x :: r) q)
    (hk : ∀ b ∈ k, nx' b = nx b) (hr : ∀ b ∈ r, nx' b = nx b) (hx : nx' x = some (some a))
    (ha : nx' a = nx x) : Seg nx' p (k ++ x :: a :: r) q := by
  obtain ⟨m, hm, rfl, n, hn, hr'⟩ := append_iff.mp h
  exact append_iff.mpr ⟨_, hm.congr hk, rfl, _, hx, rfl, n, by rw [ha, hn], hr'.congr hr⟩

/-- The node behind `x` taken out: `x` gets its link. -/
theorem unlink {p q : Option A} {k r : List A} {x a : A} (h : Seg nx p (k ++ x :: a :: r) q)
    (hk : ∀ b ∈ k, nx' b = nx b) (hr : ∀ b ∈ r, nx' b = nx b) (hx : nx' x = nx a) :
    Seg nx' p (k ++ x :: r) q := by
  obtain ⟨m, hm, rfl, n, -, rfl, n', hn', hr'⟩ := append_iff.mp h
  exact append_iff.mpr ⟨_, hm.congr hk, rfl, n', by rw [hx, hn'], hr'.congr hr⟩

end Seg

end Lib
