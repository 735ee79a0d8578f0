/-
  Heaps of nodes that hold data and one link. The node at address `a` is `ns[a]`.

  * `Nodes.load`: following a pointer.
  * `Nodes.nextOf`, `Nodes.dataOf`: the two parts of a node, as far as there is one.
  * `Nodes.dataOf_set_next`, `Nodes.nextOf_set_data`: writing one part leaves the other.
  * `Nodes.length_le`, `Nodes.next_mem`: lists in a heap of nodes.
-/
import Zcrt.Lib.Seg

namespace Lib

structure Node (D : Type) where
  data : D
  next : Option Nat

/-- A pointer that is no node's, a failed assertion, a loop that does not end. -/
inductive Fault
  | pointer
  | assert
  | endless
deriving DecidableEq

namespace Nodes

variable {D : Type} {ns ns' : List (Node D)} {a b : Nat} {n m : Node D}

/-- Following a pointer: the address and the node at it. -/
def load (ns : List (Node D)) : Option Nat → Except Fault (Nat × Node D)
  | none => .error .pointer
  | some a =>
      match ns[a]? with
      | none => .error .pointer
      | some n => .ok (a, n)

/-- The link in the node at an address. -/
def nextOf (ns : List (Node D)) (a : Nat) : Option (Option Nat) := ns[a]?.map Node.next

/-- The data in the node at an address. -/
def dataOf (ns : List (Node D)) (a : Nat) : Option D := ns[a]?.map Node.data

theorem load_some (h : ns[a]? = some n) : load ns (some a) = .ok (a, n) := by
  unfold load
  dsimp only
  rw [h]

theorem load_eq_ok {p : Option Nat} {r : Nat × Node D} (h : load ns p = .ok r) :
    p = some r.1 ∧ ns[r.1]? = some r.2 := by
  cases p with
  | none => exact nomatch h
  | some a =>
      unfold load at h
      dsimp only at h
      cases hn : ns[a]? with
      | none =>
          rw [hn] at h
          exact nomatch h
      | some n =>
          rw [hn] at h
          obtain rfl := Except.ok.inj h
          exact ⟨rfl, hn⟩

theorem lt_of_node (h : ns[a]? = some n) : a < ns.length := (List.getElem?_eq_some_iff.mp h).1

theorem set_self (h : ns[a]? = some m) (n : Node D) : (ns.set a n)[a]? = some n :=
  List.getElem?_set_self (lt_of_node h)

theorem set_of_ne (h : b ≠ a) (n : Node D) : (ns.set a n)[b]? = ns[b]? :=
  List.getElem?_set_ne h.symm

theorem nextOf_of_node (h : ns[a]? = some n) : nextOf ns a = some n.next := by
  unfold nextOf
  rw [h]
  rfl

theorem dataOf_of_node (h : ns[a]? = some n) : dataOf ns a = some n.data := by
  unfold dataOf
  rw [h]
  rfl

theorem nextOf_congr (h : ns'[a]? = ns[a]?) : nextOf ns' a = nextOf ns a := by
  unfold nextOf
  rw [h]

theorem dataOf_congr (h : ns'[a]? = ns[a]?) : dataOf ns' a = dataOf ns a := by
  unfold dataOf
  rw [h]

/-- A node whose link alone is changed. -/
theorem dataOf_set_next (h : ns[a]? = some n) (next : Option Nat) (b : Nat) :
    dataOf (ns.set a { n with next := next }) b = dataOf ns b := by
  by_cases hb : b = a
  · rw [hb, dataOf_of_node (set_self h _), dataOf_of_node h]
  · exact dataOf_congr (set_of_ne hb _)

/-- A node whose data alone are changed. -/
theorem nextOf_set_data (h : ns[a]? = some n) (d : D) (b : Nat) :
    nextOf (ns.set a { n with data := d }) b = nextOf ns b := by
  by_cases hb : b = a
  · rw [hb, nextOf_of_node (set_self h _), nextOf_of_node h]
  · exact nextOf_congr (set_of_ne hb _)

/-! ## Lists -/

variable {p : Option Nat} {l : List Nat}

theorem node_of_mem (h : Seg (nextOf ns) p l none) (ha : a ∈ l) : ∃ n, ns[a]? = some n := by
  obtain ⟨next, hn⟩ := h.live ha
  obtain ⟨n, hn, -⟩ := Option.map_eq_some_iff.mp hn
  exact ⟨n, hn⟩

/-- A list is no longer than the heap. -/
theorem length_le (h : Seg (nextOf ns) p l none) : l.length ≤ ns.length := by
  have hsub : l ⊆ List.range ns.length := fun a ha => by
    obtain ⟨n, hn⟩ := node_of_mem h ha
    exact List.mem_range.mpr (lt_of_node hn)
  have hle := (h.nodup.subperm hsub).length_le
  rwa [List.length_range] at hle

/-- The node behind one of a list is in the list. -/
theorem next_mem (h : Seg (nextOf ns) p l none) (ha : a ∈ l) (hn : ns[a]? = some n)
    (hb : n.next = some b) : b ∈ l := by
  obtain ⟨k, r, rfl⟩ := List.append_of_mem ha
  obtain ⟨m, -, rfl, next, hnext, hseg⟩ := Seg.append_iff.mp h
  obtain rfl := Option.some.inj ((nextOf_of_node hn).symm.trans hnext)
  rw [hb] at hseg
  cases r with
  | nil => exact nomatch hseg
  | cons c r =>
      obtain rfl := Option.some.inj hseg.1
      simp

end Nodes

end Lib
