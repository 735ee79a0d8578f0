/-
  Components and their lookup: the hash table of `zcrtlib/zhash.c`, and the component functions of
  `zipc/zipc_parse.c`.

  `F` is the type of handler pointers. The table's key and compare functions are the component
  ones, so they are not fields here.
-/
import Zcrt.Core.Str

namespace Zcrt

/-- `ZHash`: the buckets, newest node first. -/
structure ZHash (α : Type) where
  size : UInt32
  count : UInt32
  index : Nat → List α

/-- `ZIPCComp`, a component or one of its actions. `addr` is the object itself, `name` its array of
    `ZCRT_NAME_LEN` bytes. -/
structure ZIPCComp (F : Type) where
  addr : Nat
  name : List UInt8
  call : Option F
  apilist : Option (ZHash (ZIPCComp F))

/-- `ZCRT_HASH_KEY`. -/
def zcrtHashKey {α : Type} (hashKey : α → UInt32) (ht : ZHash α) (data : α) : Nat :=
  (hashKey data % ht.size).toNat

/-- `zcrt_hash_lookup`: the first node of the bucket that compares equal. -/
def zcrtHashLookup {α : Type} (hashKey : α → UInt32) (hashCmp : α → α → Int32) (ht : ZHash α)
    (data : α) : Option α :=
  (ht.index (zcrtHashKey hashKey ht data)).find? fun node => hashCmp node data = 0

/-- `sizeof(ZHashNode_t)`, a pointer of 64 bits. -/
def sizeofNode : Nat := 8

/-- `zcrt_hash_new`, where the allocations succeed. `node` is `sizeof(ZHashNode_t)`. `zcrt_malloc`
    takes the size of the index as a `uint32_t`; `none` if what is left of it is too short, so that
    `memset` or the first access to some chain leaves the block. -/
def zcrtHashNew {α : Type} (node : Nat) (size : UInt32) : Option (ZHash α) :=
  if node * size.toNat ≤ (UInt32.ofNat (node * size.toNat)).toNat then
    some { size := size, count := 0, index := fun _ => [] }
  else none

theorem zcrtHashNew_eq_some {α : Type} {node : Nat} {size : UInt32} {ht : ZHash α}
    (h : zcrtHashNew node size = some ht) :
    node * size.toNat < 2 ^ 32 ∧ ht = { size := size, count := 0, index := fun _ => [] } := by
  unfold zcrtHashNew at h
  split at h
  · rename_i hle
    exact ⟨hle.trans_lt (UInt32.toNat_lt _), (Option.some.inj h).symm⟩
  · exact nomatch h

theorem zcrtHashNew_of_lt {α : Type} {node : Nat} {size : UInt32}
    (h : node * size.toNat < 2 ^ 32) :
    zcrtHashNew node size =
      some ({ size := size, count := 0, index := fun _ => [] } : ZHash α) := by
  unfold zcrtHashNew
  rw [UInt32.toNat_ofNat', Nat.mod_eq_of_lt h, if_pos (Nat.le_refl _)]

/-- `zcrt_hash_add`, where the allocation succeeds. -/
def zcrtHashAdd {α : Type} (hashKey : α → UInt32) (ht : ZHash α) (data : α) : ZHash α :=
  let key := zcrtHashKey hashKey ht data
  { ht with index := Function.update ht.index key (data :: ht.index key), count := ht.count + 1 }

/-- The loop of `zcrt_hash_remove`: the chain without the first node that compares equal, if there
    is one. -/
def hashUnlink {α : Type} (eq : α → Bool) : List α → Option (List α)
  | [] => none
  | node :: next => if eq node then some next else (hashUnlink eq next).map fun next => node :: next

/-- `zcrt_hash_remove`. -/
def zcrtHashRemove {α : Type} (hashKey : α → UInt32) (hashCmp : α → α → Int32) (ht : ZHash α)
    (data : α) : ZHash α :=
  let key := zcrtHashKey hashKey ht data
  match ht.index key with
  | [] => ht
  | node :: next =>
      if hashCmp node data = 0 then
        { ht with index := Function.update ht.index key next, count := ht.count - 1 }
      else
        -- the loop looks at the first node once more
        match hashUnlink (fun node => hashCmp node data = 0) (node :: next) with
        | some chain =>
            { ht with index := Function.update ht.index key chain, count := ht.count - 1 }
        | none => ht

/-- `zcrt_hash_enumerate`: the data the callback gets, in this order. -/
def zcrtHashEnumerate {α : Type} (ht : ZHash α) : List α :=
  (List.range ht.size.toNat).flatMap ht.index

theorem hashUnlink_eq {α : Type} (p : α → Bool) (l : List α) :
    hashUnlink p l = if l.any p then some (l.eraseP p) else none := by
  induction l with
  | nil => rfl
  | cons a l ih =>
      rw [hashUnlink]
      by_cases ha : p a = true
      · rw [if_pos ha, List.any_cons, ha, List.eraseP_cons_of_pos ha]
        rfl
      · have ha' : p a = false := by simpa using ha
        rw [if_neg ha, List.any_cons, ha', List.eraseP_cons_of_neg ha, ih, Bool.false_or]
        by_cases hl : l.any p = true
        · rw [if_pos hl, if_pos hl]
          rfl
        · rw [if_neg hl, if_neg hl]
          rfl

/-- A removal takes the first node of its chain that compares equal, if there is one. -/
theorem zcrtHashRemove_eq {α : Type} (hashKey : α → UInt32) (hashCmp : α → α → Int32)
    (ht : ZHash α) (data : α) :
    zcrtHashRemove hashKey hashCmp ht data =
      { ht with
        index := Function.update ht.index (zcrtHashKey hashKey ht data)
          ((ht.index (zcrtHashKey hashKey ht data)).eraseP fun c => hashCmp c data = 0)
        count := if (ht.index (zcrtHashKey hashKey ht data)).any fun c => hashCmp c data = 0
          then ht.count - 1 else ht.count } := by
  unfold zcrtHashRemove
  dsimp only
  have hsame : ht.index (zcrtHashKey hashKey ht data) = [] ∨
      (ht.index (zcrtHashKey hashKey ht data)).any (fun c => hashCmp c data = 0) = false →
      Function.update ht.index (zcrtHashKey hashKey ht data)
        ((ht.index (zcrtHashKey hashKey ht data)).eraseP fun c => hashCmp c data = 0) =
        ht.index := by
    intro h
    have hnone : ∀ c ∈ ht.index (zcrtHashKey hashKey ht data),
        ¬decide (hashCmp c data = 0) = true := by
      rcases h with h | h
      · rw [h]
        simp
      · simpa using h
    rw [List.eraseP_of_forall_not hnone, Function.update_eq_self]
  split
  · rename_i hl
    rw [hsame (Or.inl hl), hl]
    rfl
  · rename_i node next hl
    by_cases hnode : hashCmp node data = 0
    · rw [if_pos hnode, hl]
      simp [hnode]
    · rw [if_neg hnode, hashUnlink_eq]
      by_cases hany : (node :: next).any fun c => hashCmp c data = 0
      · rw [if_pos hany, hl, if_pos hany]
      · rw [if_neg hany, hsame (Or.inr (by rw [hl]; simpa using hany)), hl, if_neg hany]

variable {F : Type}

/-- The loop of `zipc_component_hash_key`: `name` is advanced before its byte is added. -/
def hashKeyLoop : List UInt8 → UInt32 → UInt32
  | [], key => key
  | c :: cs, key => if c = 0 then key else hashKeyLoop cs (key + charToUInt32 (cs.headD 0))

/-- `zipc_component_hash_key`. -/
def zipcComponentHashKey (comp : ZIPCComp F) : UInt32 := hashKeyLoop comp.name 0

/-- `zipc_component_hash_cmp`. -/
def zipcComponentHashCmp (data1 data2 : ZIPCComp F) : Int32 := strncmp data1.name data2.name

/-- The name array `zipc_component_setlname` leaves. -/
def zipcComponentSetlname (name : List UInt8) : List UInt8 :=
  let n := if name.length ≥ ZCRT_NAME_LEN.toNat then ZCRT_NAME_LEN.toNat - 1 else name.length
  name.take n ++ List.replicate (ZCRT_NAME_LEN.toNat - n) 0

/-- `zipc_parase_lookup_comp`. -/
def zipcParaseLookupComp (complist : Option (ZHash (ZIPCComp F))) (compname : List UInt8) :
    Option (ZIPCComp F) :=
  complist.bind fun ht =>
    zcrtHashLookup zipcComponentHashKey zipcComponentHashCmp ht
      { addr := 0, name := zipcComponentSetlname compname, call := none, apilist := none }

/-- `zipc_component_new`, where the allocations succeed. `name` is the C string given, without its
    NUL. -/
def zipcComponentNew (addr : Nat) (name : List UInt8) (call : Option F) : ZIPCComp F :=
  { addr := addr, name := zipcComponentSetlname name, call := call,
    apilist := zcrtHashNew sizeofNode 32 }

/-- `zipc_component_register`. -/
def zipcComponentRegister (comp sub : Option (ZIPCComp F)) : EZCRTErr × Option (ZIPCComp F) :=
  match comp, sub with
  | some comp, some sub =>
      if (zipcParaseLookupComp comp.apilist (cstring sub.name)).isSome then (.existed, some comp)
      else
        (.success, some { comp with
          apilist := comp.apilist.map fun ht => zcrtHashAdd zipcComponentHashKey ht sub })
  | comp, _ => (.paramErr, comp)

end Zcrt
