/-
  Lists of nodes given back to the allocator one node after the other, the link of each read before
  it is given back. A node given back is not there any more.

  * `freeChain`: the loop; `freeChains`: one list after the other.
  * `freeChain_ok`: a list that ends, none of whose nodes is gone, is given back as it is.
  * `freeChains_ok`: so are lists that share no node, and no node is given back twice.
-/
import Zcrt.Lib.Nodes

namespace Lib

namespace Nodes

variable {D : Type} {ns : List (Node D)}

/-- The list from a node on given back. `freed` are the nodes given back so far, in this order. -/
def freeChain (ns : List (Node D)) : Nat → Option Nat → List Nat → Except Fault (List Nat)
  | _, none, freed => .ok freed
  | 0, some _, _ => .error .endless
  | fuel + 1, some a, freed => do
      if a ∈ freed then .error .pointer
      else
        let (a, n) ← load ns (some a)
        freeChain ns fuel n.next (freed ++ [a])

/-- Lists given back one after the other. -/
def freeChains (ns : List (Node D)) (ps : List (Option Nat)) (freed : List Nat) :
    Except Fault (List Nat) :=
  ps.foldlM (fun freed p => freeChain ns ns.length p freed) freed

theorem freeChain_ok {p : Option Nat} {l : List Nat} (h : Seg (nextOf ns) p l none) {fuel : Nat}
    (hfuel : l.length ≤ fuel) {freed : List Nat} (hnew : ∀ a ∈ l, a ∉ freed) :
    freeChain ns fuel p freed = .ok (freed ++ l) := by
  induction l generalizing p fuel freed with
  | nil =>
      obtain rfl : p = none := h
      rw [List.append_nil]
      cases fuel <;> rfl
  | cons a l ih =>
      have hnd := h.nodup
      obtain ⟨rfl, next, hnext, hrest⟩ := h
      obtain ⟨n, hn, rfl⟩ := Option.map_eq_some_iff.mp hnext
      obtain ⟨fuel, rfl⟩ := Nat.exists_eq_add_one_of_ne_zero (n := fuel)
        (by rw [List.length_cons] at hfuel; omega)
      have hlen : l.length ≤ fuel := by
        rw [List.length_cons] at hfuel
        omega
      have hrec : freeChain ns fuel n.next (freed ++ [a]) = .ok (freed ++ [a] ++ l) :=
        ih hrest hlen fun b hb hin => by
          rcases List.mem_append.mp hin with hin | hin
          · exact hnew b (List.mem_cons_of_mem _ hb) hin
          · rw [List.mem_singleton.mp hin] at hb
            exact (List.nodup_cons.mp hnd).1 hb
      rw [freeChain, if_neg (hnew a List.mem_cons_self), load_some hn]
      change freeChain ns fuel n.next (freed ++ [a]) = _
      rw [hrec, List.append_assoc]
      rfl

/-- The lists `ls`, one behind each of the pointers. -/
theorem freeChains_ok {ps : List (Option Nat)} {ls : List (List Nat)}
    (h : List.Forall₂ (fun p l => Seg (nextOf ns) p l none) ps ls) {freed : List Nat}
    (hnd : (freed ++ ls.flatten).Nodup) :
    freeChains ns ps freed = .ok (freed ++ ls.flatten) := by
  induction h generalizing freed with
  | nil =>
      rw [List.flatten_nil, List.append_nil]
      rfl
  | @cons p l ps ls hseg hrest ih =>
      rw [List.flatten_cons, ← List.append_assoc] at hnd ⊢
      have hnew : ∀ a ∈ l, a ∉ freed := fun a ha hin =>
        (List.nodup_append.mp (List.nodup_append.mp hnd).1).2.2 a hin a ha rfl
      rw [freeChains, List.foldlM_cons, freeChain_ok hseg (length_le hseg) hnew]
      exact ih hnd

end Nodes

end Lib
