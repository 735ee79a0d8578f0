/-
  `zcrtlib/zhash.c` as a keyed multiset: the elements added and not removed, newest first.

  * `HashIs`: what the table answers is what the list of its elements answers.
  * `hash_refines`: it does after every run of additions and removals, if the index has less than
    `2^32` bytes, and the component functions are fit for a table.
  * `hashCount_wraps`: a run after which `count` is 0 and the table is not empty, and a size for
    which the index is not allocated.
-/
import Zcrt.Lib.Chains
import Zcrt.Ipc.Registry

namespace Zcrt

open Lib

variable {α : Type}

/-- Comparing equal is an equivalence, and equal elements have one key. -/
structure HashCompatible (hashKey : α → UInt32) (hashCmp : α → α → Int32) : Prop where
  equiv : Equivalence fun a b => hashCmp a b = 0
  key : ∀ a b, hashCmp a b = 0 → hashKey a = hashKey b

inductive HashOp (α : Type)
  | add (data : α)
  | remove (data : α)

/-- The table after a call. -/
def HashOp.run (hashKey : α → UInt32) (hashCmp : α → α → Int32) (ht : ZHash α) :
    HashOp α → ZHash α
  | .add data => zcrtHashAdd hashKey ht data
  | .remove data => zcrtHashRemove hashKey hashCmp ht data

/-- What the call does to the elements: one more, or the newest that compares equal taken out. -/
def HashOp.spec (hashCmp : α → α → Int32) (l : List α) : HashOp α → List α
  | .add data => data :: l
  | .remove data => l.eraseP fun c => hashCmp c data = 0

/-- The table holds `l`. -/
structure HashIs (hashKey : α → UInt32) (hashCmp : α → α → Int32) (ht : ZHash α) (l : List α) :
    Prop where
  lookup : ∀ d, zcrtHashLookup hashKey hashCmp ht d = l.find? fun c => hashCmp c d = 0
  count : ht.count.toNat = l.length % 2 ^ 32
  enumerate : (zcrtHashEnumerate ht).Perm l

section Runs

variable {hashKey : α → UInt32} {hashCmp : α → α → Int32} {size : UInt32}

/-- The chains and the counter of a table that holds `l`. -/
structure HashRep (hashKey : α → UInt32) (size : UInt32) (ht : ZHash α) (l : List α) : Prop where
  sized : ht.size = size
  count : ht.count = UInt32.ofNat l.length
  chains : Homed (fun c => (hashKey c % size).toNat) ht.index l

theorem hashRep_new {node : Nat} {ht : ZHash α} (h : zcrtHashNew node size = some ht) :
    HashRep hashKey size ht [] := by
  obtain ⟨-, rfl⟩ := zcrtHashNew_eq_some h
  exact ⟨rfl, rfl, Homed.empty⟩

/-- The chain of an element is one of the index. -/
theorem HashRep.key_lt {ht : ZHash α} {l : List α} (h : HashRep hashKey size ht l)
    (hsize : 0 < size) (d : α) : zcrtHashKey hashKey ht d < size.toNat := by
  obtain ⟨rfl, -, -⟩ := h
  exact UInt32.lt_iff_toNat_lt.mp (UInt32.mod_lt _ hsize)

theorem HashRep.add {ht : ZHash α} {l : List α} (h : HashRep hashKey size ht l) (d : α) :
    HashRep hashKey size (zcrtHashAdd hashKey ht d) (d :: l) := by
  obtain ⟨rfl, hcount, hchains⟩ := h
  refine ⟨rfl, ?_, hchains.push d⟩
  change ht.count + 1 = _
  rw [hcount, List.length_cons, UInt32.ofNat_add]
  rfl

variable (hc : HashCompatible hashKey hashCmp)
include hc

/-- What compares equal is at home in one chain. -/
theorem HashCompatible.home (size : UInt32) (d : α) :
    ∀ c, decide (hashCmp c d = 0) = true → (hashKey c % size).toNat = (hashKey d % size).toNat := by
  intro c h
  rw [hc.key c d (of_decide_eq_true h)]

theorem HashRep.remove {ht : ZHash α} {l : List α} (h : HashRep hashKey size ht l) (d : α) :
    HashRep hashKey size (zcrtHashRemove hashKey hashCmp ht d)
      (l.eraseP fun c => hashCmp c d = 0) := by
  obtain ⟨rfl, hcount, hchains⟩ := h
  rw [zcrtHashRemove_eq]
  refine ⟨rfl, ?_, hchains.erase (hc.home ht.size d)⟩
  dsimp only
  rw [show zcrtHashKey hashKey ht d = (hashKey d % ht.size).toNat from rfl,
    hchains.any (hc.home ht.size d)]
  by_cases hany : l.any fun c => hashCmp c d = 0
  · have hpos : 0 < l.length := by
      obtain ⟨c, hmem, -⟩ := List.any_eq_true.mp hany
      exact List.length_pos_of_mem hmem
    have hlen : l.length = (l.length - 1) + 1 := by omega
    rw [if_pos hany, List.length_eraseP, if_pos hany, hcount]
    conv_lhs => rw [hlen, UInt32.ofNat_add]
    exact UInt32.add_sub_cancel _ _
  · rw [if_neg hany, List.length_eraseP, if_neg hany, hcount]

theorem HashRep.run {ht : ZHash α} {l : List α} (h : HashRep hashKey size ht l) (op : HashOp α) :
    HashRep hashKey size (op.run hashKey hashCmp ht) (op.spec hashCmp l) := by
  match op with
  | .add d => exact h.add d
  | .remove d => exact h.remove hc d

theorem HashRep.runs {ht : ZHash α} {l : List α} (h : HashRep hashKey size ht l)
    (ops : List (HashOp α)) :
    HashRep hashKey size (ops.foldl (HashOp.run hashKey hashCmp) ht)
      (ops.foldl (HashOp.spec hashCmp) l) := by
  induction ops generalizing ht l with
  | nil => exact h
  | cons op ops ih => exact ih (h.run hc op)

theorem HashRep.hashIs {ht : ZHash α} {l : List α} (h : HashRep hashKey size ht l)
    (hsize : 0 < size) : HashIs hashKey hashCmp ht l := by
  obtain ⟨rfl, hcount, hchains⟩ := h
  refine ⟨fun d => hchains.find (hc.home ht.size d), ?_, hchains.perm fun c => ?_⟩
  · rw [hcount, UInt32.toNat_ofNat']
  · exact UInt32.lt_iff_toNat_lt.mp (UInt32.mod_lt _ hsize)

end Runs

/-! ## Components -/

/-- A component whose name array holds its NUL. -/
abbrev NamedComp (F : Type) := { comp : ZIPCComp F // (0 : UInt8) ∈ comp.name }

theorem component_compatible {F : Type} :
    HashCompatible (fun c : NamedComp F => zipcComponentHashKey c.1)
      fun c d => zipcComponentHashCmp c.1 d.1 := by
  have hcmp : ∀ c d : NamedComp F,
      zipcComponentHashCmp c.1 d.1 = 0 ↔ cstring c.1.name = cstring d.1.name :=
    fun c d => strncmp_eq_zero_iff_cstring c.2 d.2
  refine ⟨⟨fun c => (hcmp c c).mpr rfl, ?_, ?_⟩, ?_⟩
  · intro c d h
    exact (hcmp d c).mpr ((hcmp c d).mp h).symm
  · intro c d e h1 h2
    exact (hcmp c e).mpr (((hcmp c d).mp h1).trans ((hcmp d e).mp h2))
  · intro c d h
    unfold zipcComponentHashKey
    rw [hashKeyLoop_cstring c.2, hashKeyLoop_cstring d.2, (hcmp c d).mp h]

/-- If the index has less than `2^32` bytes, the table is the multiset of its elements after every
    run, with `count` modulo `2^32`; the chains it looks at are in the index. The component
    functions are fit for it. -/
theorem hash_refines {F : Type} {hashKey : α → UInt32} {hashCmp : α → α → Int32} {node : Nat}
    {size : UInt32} (hc : HashCompatible hashKey hashCmp) (hsize : 0 < size)
    (hroom : node * size.toNat < 2 ^ 32) (ops : List (HashOp α)) :
    (∃ ht, zcrtHashNew node size = some ht ∧
      HashIs hashKey hashCmp (ops.foldl (HashOp.run hashKey hashCmp) ht)
        (ops.foldl (HashOp.spec hashCmp) []) ∧
      ∀ d, zcrtHashKey hashKey (ops.foldl (HashOp.run hashKey hashCmp) ht) d < size.toNat) ∧
      HashCompatible (fun c : NamedComp F => zipcComponentHashKey c.1)
        fun c d => zipcComponentHashCmp c.1 d.1 := by
  have hnew := zcrtHashNew_of_lt (α := α) hroom
  have hnil : HashRep hashKey size _ [] := hashRep_new hnew
  have hrep := hnil.runs hc ops
  exact ⟨⟨_, hnew, hrep.hashIs hc hsize, hrep.key_lt hsize⟩, component_compatible⟩

/-- Numbers in two chains, equal when they are the same. -/
theorem hash_refines_numbers : ∃ ht, zcrtHashNew 8 2 = some ht ∧
    HashIs (fun n => n) (fun m n => if m = n then 0 else 1)
      ([HashOp.add 1, .add 3, .add 1, .remove 1].foldl
        (HashOp.run (fun n => n) fun m n => if m = n then 0 else 1) ht) [3, 1] := by
  have hc : HashCompatible (fun n : UInt32 => n) fun m n => if m = n then 0 else 1 := by
    have heq : ∀ m n : UInt32, (if m = n then (0 : Int32) else 1) = 0 ↔ m = n := by
      intro m n
      split_ifs with h
      · exact iff_of_true rfl h
      · exact iff_of_false (by decide) h
    refine ⟨⟨fun n => (heq n n).mpr rfl, ?_, ?_⟩, fun m n h => (heq m n).mp h⟩
    · exact fun h => (heq _ _).mpr ((heq _ _).mp h).symm
    · exact fun h1 h2 => (heq _ _).mpr (((heq _ _).mp h1).trans ((heq _ _).mp h2))
  obtain ⟨⟨ht, hnew, his, -⟩, -⟩ :=
    hash_refines (F := Nat) hc (show (0 : UInt32) < 2 by decide)
      (show 8 * (2 : UInt32).toNat < 2 ^ 32 by decide) [.add 1, .add 3, .add 1, .remove 1]
  exact ⟨ht, hnew, his⟩

/-- One element added `2^32` times: `count` is 0, and the element is still found. And a table of
    size `2^29`: of the `2^32` bytes of its index none is left. -/
theorem hashCount_wraps :
    (HashCompatible (fun _ : Unit => 0) (fun _ _ => 0) ∧ ∃ ht, zcrtHashNew 8 1 = some ht ∧
      ∃ ops : List (HashOp Unit),
        let l := ops.foldl (HashOp.spec fun _ _ => 0) []
        (ops.foldl (HashOp.run (fun _ => 0) fun _ _ => 0) ht).count.toNat ≠ l.length ∧
          l.length = 2 ^ 32) ∧
    (zcrtHashNew 8 536870912 : Option (ZHash Unit)) = none := by
  have hc : HashCompatible (fun _ : Unit => 0) fun _ _ => 0 :=
    ⟨⟨fun _ => rfl, fun _ => rfl, fun _ _ => rfl⟩, fun _ _ _ => rfl⟩
  have hlen : ∀ (n : Nat) (l : List Unit),
      ((List.replicate n (HashOp.add ())).foldl (HashOp.spec fun _ _ => 0) l).length =
        l.length + n := by
    intro n
    induction n with
    | zero => exact fun l => rfl
    | succ n ih =>
        intro l
        rw [List.replicate_succ, List.foldl_cons, ih]
        simp only [HashOp.spec, List.length_cons]
        omega
  have hnew : zcrtHashNew 8 1 = some (⟨1, 0, fun _ => []⟩ : ZHash Unit) := rfl
  refine ⟨⟨hc, _, hnew, List.replicate (2 ^ 32) (HashOp.add ()), ?_⟩, rfl⟩
  dsimp only
  have hl := hlen (2 ^ 32) []
  rw [List.length_nil, Nat.zero_add] at hl
  have hrep : HashRep (fun _ : Unit => 0) 1 ⟨1, 0, fun _ => []⟩ [] := hashRep_new hnew
  have his := (hrep.runs hc (List.replicate (2 ^ 32) (HashOp.add ()))).hashIs hc (by decide)
  refine ⟨?_, hl⟩
  rw [his.count, hl]
  decide

end Zcrt
