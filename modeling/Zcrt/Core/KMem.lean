/-
  `zcrtlib/zcrt_mem_kernal.c`: the allocator of the kernel build, over `kmalloc` and `kfree`, with
  the live blocks tracked in `memblock_list`.

  What `kmalloc` answers is given with the call: an address not in use and what the memory holds,
  or a failure. A copy that leaves a block ends the run.

  * `KMem.Tracked`: one entry for each live block, with its size. `kmemSys_tracked`: it holds
    along every run of the three calls.
  * `zcrtRealloc_iff`: `zcrt_realloc` does what it is for exactly where `CopyFits` holds.
  * `shrink_overruns`: the new block is overrun when a block becomes smaller.
-/
import Zcrt.Core.Types
import Zcrt.Lib.Steps

namespace Zcrt

open Lib

/-- `memblock_t`, itself at `node`. -/
structure Memblock where
  node : Nat
  ptr : Nat
  size : Nat
deriving DecidableEq

/-- What `kmalloc` handed out. -/
structure Block where
  size : Nat
  data : Mem

/-- The blocks not freed, by their address, and `memblock_list`. -/
structure KMem where
  live : Nat → Option Block
  memblockList : List Memblock

/-- What the calls of `kmalloc` give: the block, then its `memblock_t`. -/
structure KAlloc where
  buf : Option (Nat × Mem)
  node : Option Nat

/-- A copy beyond the end of a block. -/
inductive KFault
  | overrun
deriving DecidableEq, Repr

namespace KMem

variable (m : KMem)

/-- `kmalloc` at `q`, the memory being `mem`. -/
def kmalloc (q size : Nat) (mem : Mem) : KMem :=
  { m with live := Function.update m.live q (some ⟨size, mem⟩) }

/-- `kfree`. -/
def kfree (p : Nat) : KMem := { m with live := Function.update m.live p none }

/-- `memblock_add`; `none` is `-ENOMEM`. -/
def memblockAdd (node : Option Nat) (ptr size : Nat) : Option KMem :=
  node.map fun n => { m with memblockList := ⟨n, ptr, size⟩ :: m.memblockList }

/-- `memblock_del`. -/
def memblockDel (e : Memblock) : KMem :=
  { m with memblockList := m.memblockList.filter fun e' => e'.node ≠ e.node }

/-- `memblock_get`. -/
def memblockGet (ptr : Nat) : Option Memblock := m.memblockList.find? fun e => e.ptr = ptr

/-- `memmove` between the starts of two blocks. -/
def memmove (dst src n : Nat) : Except KFault KMem :=
  match m.live dst, m.live src with
  | some d, some s =>
      if n ≤ d.size ∧ n ≤ s.size then
        let data := d.data.copy 0 (s.data.slice 0 n)
        .ok { m with live := Function.update m.live dst (some { d with data := data }) }
      else .error .overrun
  | _, _ => .error .overrun

end KMem

/-- `kmalloc` and `memblock_add`, as `zcrt_malloc` and `zcrt_realloc` call them for a new block. -/
def newBlock (m : KMem) (size : Nat) (al : KAlloc) : Option Nat × KMem :=
  match al.buf with
  | none => (none, m)
  | some (q, mem) =>
      match (m.kmalloc q size mem).memblockAdd al.node q size with
      | none => (none, (m.kmalloc q size mem).kfree q)
      | some m' => (some q, m')

/-- `zcrt_malloc`. -/
def zcrtMalloc (m : KMem) (size : UInt32) (al : KAlloc) : Option Nat × KMem :=
  newBlock m size.toNat al

/-- `zcrt_free`. -/
def zcrtFree (m : KMem) (ptr : Option Nat) : KMem :=
  match ptr with
  | none => m
  | some p =>
      match m.memblockGet p with
      -- only a message
      | none => m
      | some e => (m.memblockDel e).kfree p

/-- `zcrt_realloc`. -/
def zcrtRealloc (m : KMem) (ptr : Option Nat) (size : Nat) (al : KAlloc) :
    Except KFault (Option Nat × KMem) :=
  match ptr with
  | some p =>
      match m.memblockGet p with
      | none => .ok (none, m)
      | some e =>
          if size = e.size then .ok (some p, m)
          else if size ≠ 0 then
            match al.buf with
            | none => .ok (none, m)
            | some (nbuf, mem) => do
                let m ← (m.kmalloc nbuf size mem).memmove nbuf p e.size
                match m.memblockAdd al.node nbuf size with
                | none => return (none, m.kfree nbuf)
                | some m => return (some nbuf, (m.memblockDel e).kfree p)
          else .ok (none, (m.memblockDel e).kfree p)
  | none => if size ≠ 0 then .ok (newBlock m size al) else .ok (none, m)

/-! ## The tracking list -/

/-- One entry for each live block, with its size. -/
structure KMem.Tracked (m : KMem) : Prop where
  nodes : (m.memblockList.map Memblock.node).Nodup
  ptrs : (m.memblockList.map Memblock.ptr).Nodup
  entry : ∀ e ∈ m.memblockList, ∃ b, m.live e.ptr = some b ∧ b.size = e.size
  block : ∀ p b, m.live p = some b → ∃ e ∈ m.memblockList, e.ptr = p

/-- The addresses `kmalloc` gives are not in use. -/
structure KAlloc.Fresh (al : KAlloc) (m : KMem) : Prop where
  buf : ∀ q mem, al.buf = some (q, mem) → m.live q = none
  node : ∀ n, al.node = some n → ∀ e ∈ m.memblockList, e.node ≠ n

/-- A new block with its entry. -/
def KMem.addBlock (m : KMem) (q n : Nat) (b : Block) : KMem :=
  { live := Function.update m.live q (some b), memblockList := ⟨n, q, b.size⟩ :: m.memblockList }

theorem KMem.kfree_kmalloc {m : KMem} {q : Nat} (hq : m.live q = none) (size : Nat) (mem : Mem) :
    (m.kmalloc q size mem).kfree q = m := by
  unfold KMem.kmalloc KMem.kfree
  dsimp only
  rw [Function.update_idem, ← hq, Function.update_eq_self]

section Tracked

variable {m : KMem} (hm : m.Tracked)
include hm

theorem KMem.Tracked.get_of_live {p : Nat} {b : Block} (hp : m.live p = some b) :
    ∃ e, m.memblockGet p = some e ∧ e ∈ m.memblockList ∧ e.ptr = p ∧ e.size = b.size := by
  obtain ⟨e, he, hep⟩ := hm.block p b hp
  have hsome : (m.memblockGet p).isSome := List.find?_isSome.mpr ⟨e, he, by simpa using hep⟩
  obtain ⟨e', he'⟩ := Option.isSome_iff_exists.mp hsome
  have hptr : e'.ptr = p := by simpa using List.find?_some he'
  have hmem := List.mem_of_find?_eq_some he'
  obtain ⟨b', hb', hsize⟩ := hm.entry e' hmem
  rw [hptr, hp] at hb'
  obtain rfl := Option.some.inj hb'
  exact ⟨e', he', hmem, hptr, hsize.symm⟩

theorem KMem.Tracked.add {q n : Nat} {b : Block} (hq : m.live q = none)
    (hn : ∀ e ∈ m.memblockList, e.node ≠ n) : (m.addBlock q n b).Tracked := by
  have hptr : ∀ e ∈ m.memblockList, e.ptr ≠ q := by
    intro e he heq
    obtain ⟨b', hb', -⟩ := hm.entry e he
    rw [heq, hq] at hb'
    exact Option.some_ne_none b' hb'.symm
  refine ⟨?_, ?_, ?_, ?_⟩
  · refine List.nodup_cons.mpr ⟨fun h => ?_, hm.nodes⟩
    obtain ⟨e, he, hen⟩ := List.mem_map.mp h
    exact hn e he hen
  · refine List.nodup_cons.mpr ⟨fun h => ?_, hm.ptrs⟩
    obtain ⟨e, he, hep⟩ := List.mem_map.mp h
    exact hptr e he hep
  · intro e he
    rcases List.mem_cons.mp he with rfl | he
    · exact ⟨b, Function.update_self .., rfl⟩
    · obtain ⟨b', hb', hsize⟩ := hm.entry e he
      exact ⟨b', (Function.update_of_ne (hptr e he) ..).trans hb', hsize⟩
  · intro p b' hp
    by_cases hpq : p = q
    · exact ⟨_, List.mem_cons_self, hpq.symm⟩
    · obtain ⟨e, he, hep⟩ := hm.block p b' ((Function.update_of_ne hpq ..).symm.trans hp)
      exact ⟨e, List.mem_cons_of_mem _ he, hep⟩

/-- What `memblock_del` leaves are the entries of the other blocks. -/
theorem KMem.Tracked.mem_del {e e' : Memblock} (he : e ∈ m.memblockList) :
    e' ∈ (m.memblockDel e).memblockList ↔ e' ∈ m.memblockList ∧ e'.ptr ≠ e.ptr := by
  unfold KMem.memblockDel
  rw [List.mem_filter, decide_eq_true_eq]
  refine and_congr_right fun he' => not_congr ⟨fun h => ?_, fun h => ?_⟩
  · rw [List.inj_on_of_nodup_map hm.nodes he' he h]
  · rw [List.inj_on_of_nodup_map hm.ptrs he' he h]

/-- A block freed with its entry. -/
theorem KMem.Tracked.del {e : Memblock} (he : e ∈ m.memblockList) :
    ((m.memblockDel e).kfree e.ptr).Tracked := by
  have hsub : ((m.memblockDel e).kfree e.ptr).memblockList.Sublist m.memblockList :=
    List.filter_sublist
  refine ⟨hm.nodes.sublist (hsub.map _), hm.ptrs.sublist (hsub.map _), ?_, ?_⟩
  · intro e' he'
    obtain ⟨hmem, hne⟩ := (hm.mem_del he).mp he'
    obtain ⟨b, hb, hsize⟩ := hm.entry e' hmem
    exact ⟨b, (Function.update_of_ne hne ..).trans hb, hsize⟩
  · intro p b hp
    have hne : p ≠ e.ptr := by
      rintro rfl
      exact Option.some_ne_none b ((Function.update_self ..).symm.trans hp).symm
    obtain ⟨e', he', hep⟩ := hm.block p b ((Function.update_of_ne hne ..).symm.trans hp)
    exact ⟨e', (hm.mem_del he).mpr ⟨he', hep ▸ hne⟩, hep⟩

end Tracked

/-! ## The calls -/

/-- A new block: `NULL` and nothing changed, or the block with its entry. -/
theorem newBlock_cases {m : KMem} {al : KAlloc} (hal : al.Fresh m) (size : Nat) :
    newBlock m size al = (none, m) ∧ (al.buf = none ∨ al.node = none) ∨
      ∃ q mem n, al.buf = some (q, mem) ∧ al.node = some n ∧
        newBlock m size al = (some q, m.addBlock q n ⟨size, mem⟩) := by
  unfold newBlock
  match hbuf : al.buf, hnode : al.node with
  | none, _ => exact Or.inl ⟨rfl, Or.inl rfl⟩
  | some (q, mem), none =>
      refine Or.inl ⟨?_, Or.inr rfl⟩
      exact congrArg (Prod.mk none) (KMem.kfree_kmalloc (hal.buf q mem hbuf) size mem)
  | some (q, mem), some n => exact Or.inr ⟨q, mem, n, rfl, rfl, rfl⟩

/-- Into a new block, as far as both blocks go. -/
theorem memmove_new {m : KMem} {p q size n : Nat} {b : Block} {mem : Mem} (hp : m.live p = some b)
    (hq : m.live q = none) :
    (m.kmalloc q size mem).memmove q p n =
      if n ≤ size ∧ n ≤ b.size then .ok (m.kmalloc q size (mem.copy 0 (b.data.slice 0 n)))
      else .error .overrun := by
  have hpq : p ≠ q := by
    rintro rfl
    rw [hp] at hq
    exact Option.some_ne_none b hq
  unfold KMem.memmove KMem.kmalloc
  dsimp only
  rw [Function.update_self, Function.update_of_ne hpq, hp]
  dsimp only
  rw [Function.update_idem]

/-- What `zcrt_realloc` does with a live block. -/
theorem zcrtRealloc_live {m : KMem} (hm : m.Tracked) {p : Nat} {b : Block} {al : KAlloc}
    (hal : al.Fresh m) (hp : m.live p = some b) (size : Nat) :
    ∃ e ∈ m.memblockList, e.ptr = p ∧ zcrtRealloc m (some p) size al =
      if size = b.size then .ok (some p, m)
      else if size = 0 then .ok (none, (m.memblockDel e).kfree p)
      else match al.buf with
        | none => .ok (none, m)
        | some (q, mem) =>
            if b.size ≤ size then
              match al.node with
              | none => .ok (none, m)
              | some n => .ok (some q, ((m.addBlock q n
                  ⟨size, mem.copy 0 (b.data.slice 0 b.size)⟩).memblockDel e).kfree p)
            else .error .overrun := by
  obtain ⟨e, hget, he, hep, hsize⟩ := hm.get_of_live hp
  refine ⟨e, he, hep, ?_⟩
  unfold zcrtRealloc
  dsimp only
  rw [hget]
  dsimp only
  rw [hsize]
  by_cases heq : size = b.size
  · rw [if_pos heq, if_pos heq]
  rw [if_neg heq, if_neg heq]
  by_cases h0 : size = 0
  · rw [if_neg (not_not.mpr h0), if_pos h0]
  rw [if_pos h0, if_neg h0]
  match hbuf : al.buf with
  | none => rfl
  | some (q, mem) =>
      have hq := hal.buf q mem hbuf
      dsimp only
      rw [memmove_new hp hq]
      by_cases hle : b.size ≤ size
      · rw [if_pos hle, if_pos ⟨hle, Nat.le_refl _⟩]
        match al.node with
        | none => exact congrArg (fun m => Except.ok (none, m)) (KMem.kfree_kmalloc hq size _)
        | some n => rfl
      · rw [if_neg hle, if_neg fun h => hle h.1]
        rfl

/-! ## What `zcrt_realloc` is for -/

/-- `p` is neither live nor tracked. -/
def KMem.Released (m : KMem) (p : Nat) : Prop :=
  m.live p = none ∧ ∀ e ∈ m.memblockList, e.ptr ≠ p

/-- `q` is the block of `ptr` with the new size. -/
structure Moved (m m' : KMem) (ptr : Option Nat) (size q : Nat) : Prop where
  block : ∃ b', m'.live q = some b' ∧ b'.size = size ∧ ∀ p b, ptr = some p → m.live p = some b →
    ∀ i, i < min b.size size → b'.data i = b.data i
  entry : ∃ e, m'.memblockList.filter (fun e => e.ptr = q) = [e] ∧ e.size = size
  old : ∀ p, ptr = some p → p ≠ q → m'.Released p
  others : ∀ p, p ≠ q → ptr ≠ some p → m'.live p = m.live p

/-- An allocation that the call makes fails. -/
def KAlloc.Fails (al : KAlloc) (m : KMem) (ptr : Option Nat) (size : Nat) : Prop :=
  0 < size ∧ (∀ p b, ptr = some p → m.live p = some b → b.size ≠ size) ∧
    (al.buf = none ∨ al.node = none)

structure ReallocResult (m : KMem) (ptr : Option Nat) (size : Nat) (al : KAlloc) (ret : Option Nat)
    (m' : KMem) : Prop where
  moved : ∀ q, 0 < size → ret = some q → Moved m m' ptr size q
  zero : size = 0 → ret = none ∧ ∀ p, ptr = some p → m'.Released p
  failed : al.Fails m ptr size → ret = none ∧ m' = m
  null : 0 < size → ret = none → al.Fails m ptr size

/-- No copy leaves a block, and the result is right. -/
def Reallocates (m : KMem) (ptr : Option Nat) (size : Nat) (al : KAlloc) : Prop :=
  ∃ ret m', zcrtRealloc m ptr size al = .ok (ret, m') ∧ ReallocResult m ptr size al ret m'

/-- The block does not become smaller, unless it is freed or no new block is found for it; and a
    block of size 0 is not asked to be of size 0. -/
def CopyFits (m : KMem) (ptr : Option Nat) (size : Nat) (al : KAlloc) : Prop :=
  ∀ p b, ptr = some p → m.live p = some b →
    0 < size ∧ (b.size ≤ size ∨ al.buf = none) ∨ size = 0 ∧ b.size ≠ 0

theorem live_unique {m : KMem} {p p' : Nat} {b b' : Block} (hp : m.live p = some b)
    (hpp : some p = some p') (hb' : m.live p' = some b') : p = p' ∧ b = b' := by
  obtain rfl := Option.some.inj hpp
  rw [hp] at hb'
  exact ⟨rfl, Option.some.inj hb'⟩

section Result

variable {m : KMem} (hm : m.Tracked) {size : Nat} {al : KAlloc} (hal : al.Fresh m)
include hm

/-- A tracked block has one entry. -/
theorem KMem.Tracked.entry_once {q : Nat} {b : Block} (hq : m.live q = some b) :
    ∃ e, m.memblockList.filter (fun e => e.ptr = q) = [e] ∧ e.size = b.size := by
  obtain ⟨e, -, he, hep, hsize⟩ := hm.get_of_live hq
  refine ⟨e, ?_, hsize⟩
  have hall : ∀ e' ∈ m.memblockList.filter (fun e => e.ptr = q), e' = e := by
    intro e' he'
    obtain ⟨hmem, hep'⟩ := List.mem_filter.mp he'
    exact List.inj_on_of_nodup_map hm.ptrs hmem he ((of_decide_eq_true hep').trans hep.symm)
  have hnodup : (m.memblockList.filter fun e => e.ptr = q).Nodup :=
    (List.Nodup.of_map _ hm.ptrs).filter _
  have hmem : e ∈ m.memblockList.filter fun e => e.ptr = q :=
    List.mem_filter.mpr ⟨he, decide_eq_true hep⟩
  refine List.perm_singleton.mp ?_
  rw [List.perm_ext_iff_of_nodup hnodup (List.nodup_singleton e)]
  intro e'
  rw [List.mem_singleton]
  refine ⟨hall e', ?_⟩
  rintro rfl
  exact hmem

theorem KMem.Tracked.released {e : Memblock} (he : e ∈ m.memblockList) :
    ((m.memblockDel e).kfree e.ptr).Released e.ptr :=
  ⟨Function.update_self .., fun _ he' => ((hm.mem_del he).mp he').2⟩

variable {p : Nat} {b : Block} (hp : m.live p = some b)
include hp

include hal

omit hm hal in
/-- No block to move to, or no entry for it. -/
theorem noBlock_result (h0 : size ≠ 0) (hne : size ≠ b.size)
    (hrun : zcrtRealloc m (some p) size al = .ok (none, m))
    (hfail : al.buf = none ∨ al.node = none) : Reallocates m (some p) size al := by
  refine ⟨none, m, hrun, fun q _ hq => absurd hq.symm (Option.some_ne_none q),
    fun h => absurd h h0, fun _ => ⟨rfl, rfl⟩, fun _ _ => ⟨by omega, ?_, hfail⟩⟩
  intro p' b' hpp hb'
  obtain ⟨rfl, rfl⟩ := live_unique hp hpp hb'
  exact hne.symm

/-- The block as it is. -/
theorem same_result (h0 : b.size ≠ 0) : Reallocates m (some p) b.size al := by
  obtain ⟨e, -, -, hrun⟩ := zcrtRealloc_live hm hal hp b.size
  rw [if_pos rfl] at hrun
  refine ⟨some p, m, hrun, ?_, fun h => absurd h h0, ?_,
    fun _ h => absurd h (Option.some_ne_none p)⟩
  · intro q _ hq
    obtain rfl := Option.some.inj hq
    refine ⟨⟨b, hp, rfl, ?_⟩, hm.entry_once hp, ?_, fun _ _ _ => rfl⟩
    · intro p' b' hpp hb' i _
      obtain ⟨rfl, rfl⟩ := live_unique hp hpp hb'
      rfl
    · intro p' hpp hne
      exact absurd (Option.some.inj hpp).symm hne
  · intro hfail
    exact absurd rfl (hfail.2.1 p b rfl hp)

/-- The block freed. -/
theorem free_result (h0 : b.size ≠ 0) : Reallocates m (some p) 0 al := by
  obtain ⟨e, he, rfl, hrun⟩ := zcrtRealloc_live hm hal hp 0
  rw [if_neg h0.symm, if_pos rfl] at hrun
  refine ⟨none, _, hrun, fun q _ hq => absurd hq.symm (Option.some_ne_none q), fun _ => ⟨rfl, ?_⟩,
    fun h => absurd h.1 (Nat.lt_irrefl 0), fun h => absurd h (Nat.lt_irrefl 0)⟩
  intro p' hpp
  obtain rfl := Option.some.inj hpp
  exact hm.released he

omit hp

/-- A new block where there was none. -/
theorem newBlock_result (hpos : 0 < size) :
    ReallocResult m none size al (newBlock m size al).1 (newBlock m size al).2 := by
  rcases newBlock_cases hal size with ⟨hnew, hfail⟩ | ⟨q, mem, n, hbuf, hnode, hnew⟩
  · rw [hnew]
    refine ⟨fun q _ hq => absurd hq.symm (Option.some_ne_none q), fun h => absurd h (by omega),
      fun _ => ⟨rfl, rfl⟩, fun _ _ => ⟨hpos, ?_, hfail⟩⟩
    exact fun p b hp => absurd hp.symm (Option.some_ne_none p)
  · rw [hnew]
    have hq := hal.buf q mem hbuf
    have htracked := hm.add (b := ⟨size, mem⟩) hq (hal.node n hnode)
    have hlive : (m.addBlock q n ⟨size, mem⟩).live q = some ⟨size, mem⟩ :=
      Function.update_self ..
    refine ⟨?_, fun h => absurd h (by omega), ?_, fun _ h => absurd h (Option.some_ne_none q)⟩
    · intro q' _ hq'
      obtain rfl := Option.some.inj hq'
      refine ⟨⟨_, hlive, rfl, fun p b hp => absurd hp.symm (Option.some_ne_none p)⟩,
        htracked.entry_once hlive, fun p hp => absurd hp.symm (Option.some_ne_none p), ?_⟩
      intro p hpq _
      exact Function.update_of_ne hpq ..
    · rintro ⟨-, -, hfail⟩
      rw [hbuf, hnode] at hfail
      rcases hfail with h | h
      · exact absurd h (Option.some_ne_none _)
      · exact absurd h (Option.some_ne_none _)

include hp

/-- The block moved to a new one that is not smaller. -/
theorem moves_result (hlt : b.size < size) : Reallocates m (some p) size al := by
  have h0 : size ≠ 0 := by omega
  have hne : size ≠ b.size := by omega
  obtain ⟨e, he, rfl, hrun⟩ := zcrtRealloc_live hm hal hp size
  rw [if_neg hne, if_neg h0] at hrun
  match hbuf : al.buf with
  | none =>
      rw [hbuf] at hrun
      exact noBlock_result hp h0 hne hrun (Or.inl hbuf)
  | some (q, mem) =>
      rw [hbuf] at hrun
      dsimp only at hrun
      rw [if_pos (Nat.le_of_lt hlt)] at hrun
      have hq := hal.buf q mem hbuf
      match hnode : al.node with
      | none =>
          rw [hnode] at hrun
          exact noBlock_result hp h0 hne hrun (Or.inr hnode)
      | some n =>
          rw [hnode] at hrun
          have hpq : q ≠ e.ptr := by
            rintro rfl
            rw [hp] at hq
            exact Option.some_ne_none b hq
          have hadd := hm.add (b := ⟨size, mem.copy 0 (b.data.slice 0 b.size)⟩) hq
            (hal.node n hnode)
          have hin : e ∈ (m.addBlock q n ⟨size, mem.copy 0 (b.data.slice 0 b.size)⟩).memblockList :=
            List.mem_cons_of_mem _ he
          have hlive : (((m.addBlock q n
              ⟨size, mem.copy 0 (b.data.slice 0 b.size)⟩).memblockDel e).kfree e.ptr).live q =
              some ⟨size, mem.copy 0 (b.data.slice 0 b.size)⟩ :=
            (Function.update_of_ne hpq ..).trans (Function.update_self ..)
          refine ⟨some q, _, hrun, ?_, fun h => absurd h h0, ?_,
            fun _ h => absurd h (Option.some_ne_none q)⟩
          · intro q' _ hq'
            obtain rfl := Option.some.inj hq'
            refine ⟨⟨_, hlive, rfl, ?_⟩, (hadd.del hin).entry_once hlive, ?_, ?_⟩
            · intro p' b' hpp hb' i hi
              obtain ⟨rfl, rfl⟩ := live_unique hp hpp hb'
              have := Mem.slice_copy_self mem 0 (b.data.slice 0 b.size)
              rw [Mem.slice_length] at this
              have hi' : i < b.size := by omega
              have hval := Mem.apply_of_slice this (j := i) (by simpa using hi')
              rwa [Mem.getElem_slice, Nat.zero_add] at hval
            · intro p' hpp _
              obtain rfl := Option.some.inj hpp
              exact hadd.released hin
            · intro p' hpq' hpp
              have hne' : p' ≠ e.ptr := fun h => hpp (by rw [h])
              exact (Function.update_of_ne hne' ..).trans (Function.update_of_ne hpq' ..)
          · rintro ⟨-, -, hfail⟩
            rw [hbuf, hnode] at hfail
            rcases hfail with h | h
            · exact absurd h (Option.some_ne_none _)
            · exact absurd h (Option.some_ne_none _)

end Result

/-- A block that becomes smaller is overrun as soon as there is a new one. -/
theorem shrink_overrun {m : KMem} (hm : m.Tracked) {size p : Nat} {al : KAlloc} {b : Block}
    (hal : al.Fresh m) (hp : m.live p = some b) (h0 : size ≠ 0) (hlt : size < b.size)
    (hbuf : al.buf ≠ none) : zcrtRealloc m (some p) size al = .error .overrun := by
  obtain ⟨⟨q, mem⟩, hbuf⟩ := Option.ne_none_iff_exists'.mp hbuf
  obtain ⟨e, -, -, hrun⟩ := zcrtRealloc_live hm hal hp size
  rw [if_neg (by omega), if_neg h0, hbuf] at hrun
  dsimp only at hrun
  rwa [if_neg (by omega)] at hrun

/-- `zcrt_realloc` on tracked blocks: right exactly where the copy fits, and size 0 is no change. -/
theorem zcrtRealloc_iff {m : KMem} (hm : m.Tracked) {ptr : Option Nat} {size : Nat} {al : KAlloc}
    (hal : al.Fresh m) (hptr : ∀ p, ptr = some p → m.live p ≠ none) :
    Reallocates m ptr size al ↔ CopyFits m ptr size al := by
  match ptr with
  | none =>
      refine ⟨fun _ p b hp => absurd hp.symm (Option.some_ne_none p), fun _ => ?_⟩
      by_cases h0 : size = 0
      · subst h0
        exact ⟨none, m, rfl, fun q h => absurd h (Nat.lt_irrefl 0),
          fun _ => ⟨rfl, fun p hp => absurd hp.symm (Option.some_ne_none p)⟩,
          fun h => absurd h.1 (Nat.lt_irrefl 0), fun h => absurd h (Nat.lt_irrefl 0)⟩
      · refine ⟨_, _, ?_, newBlock_result hm hal (Nat.pos_of_ne_zero h0)⟩
        unfold zcrtRealloc
        dsimp only
        rw [if_pos h0]
  | some p =>
      obtain ⟨b, hp⟩ := Option.ne_none_iff_exists'.mp (hptr p rfl)
      obtain ⟨e, -, -, hrun⟩ := zcrtRealloc_live hm hal hp size
      constructor
      · rintro ⟨ret, m', hok, hres⟩ p' b' hpp hb'
        obtain ⟨rfl, rfl⟩ := live_unique hp hpp hb'
        rcases Nat.eq_zero_or_pos size with rfl | hpos
        · refine Or.inr ⟨rfl, fun hb0 => ?_⟩
          rw [if_pos hb0.symm, hok] at hrun
          have hret := congrArg Prod.fst (Except.ok.inj hrun)
          exact Option.some_ne_none p (hret.symm.trans (hres.zero rfl).1)
        · refine Or.inl ⟨hpos, ?_⟩
          by_contra hno
          push Not at hno
          have hover := shrink_overrun hm hal hp (by omega) hno.1 hno.2
          rw [hok] at hover
          exact nomatch hover
      · intro hfits
        rcases hfits p b rfl hp with ⟨hpos, hle | hbuf⟩ | ⟨rfl, h0⟩
        · rcases Nat.eq_or_lt_of_le hle with rfl | hlt
          · exact same_result hm hal hp (by omega)
          · exact moves_result hm hal hp hlt
        · by_cases heq : size = b.size
          · subst heq
            exact same_result hm hal hp (by omega)
          · rw [if_neg heq, if_neg (by omega), hbuf] at hrun
            exact noBlock_result hp (by omega) heq hrun (Or.inl hbuf)
        · exact free_result hm hal hp h0

/-- Eight bytes at 1, tracked by the entry at 0. -/
def oneBlock (size : Nat) : KMem :=
  { live := Function.update (fun _ => none) 1 (some ⟨size, fun _ => 0⟩)
    memblockList := [⟨0, 1, size⟩] }

theorem oneBlock_tracked (size : Nat) : (oneBlock size).Tracked := by
  refine ⟨by simp [oneBlock], by simp [oneBlock], ?_, ?_⟩
  · intro e he
    obtain rfl := List.mem_singleton.mp he
    exact ⟨⟨size, fun _ => 0⟩, rfl, rfl⟩
  · intro p b hp
    by_cases h : p = 1
    · exact ⟨_, List.mem_singleton.mpr rfl, h.symm⟩
    · have hnone : (oneBlock size).live p = none := by simp [oneBlock, h]
      rw [hnone] at hp
      exact absurd hp.symm (Option.some_ne_none b)

/-- A new block at 2, its entry at 3. -/
def oneAlloc : KAlloc := { buf := some (2, fun _ => 0), node := some 3 }

theorem oneAlloc_fresh (size : Nat) : oneAlloc.Fresh (oneBlock size) := by
  constructor
  · intro q mem h
    obtain ⟨rfl, -⟩ := Prod.mk.inj (Option.some.inj h)
    rfl
  · intro n h e he
    obtain rfl := Option.some.inj h
    obtain rfl := List.mem_singleton.mp he
    exact Nat.zero_ne_add_one 2

theorem zcrtRealloc_iff_grow : CopyFits (oneBlock 8) (some 1) 16 oneAlloc ∧
    Reallocates (oneBlock 8) (some 1) 16 oneAlloc := by
  have hfits : CopyFits (oneBlock 8) (some 1) 16 oneAlloc := by
    intro p b hp hb
    obtain rfl := Option.some.inj hp
    obtain rfl := Option.some.inj hb
    exact Or.inl ⟨by decide, Or.inl (by decide)⟩
  refine ⟨hfits, (zcrtRealloc_iff (oneBlock_tracked 8) (oneAlloc_fresh 8) ?_).mpr hfits⟩
  intro p hp
  obtain rfl := Option.some.inj hp
  exact Option.some_ne_none _

/-- A hundred bytes copied to a block of ten. -/
theorem shrink_overruns : (oneBlock 100).Tracked ∧ oneAlloc.Fresh (oneBlock 100) ∧
    zcrtRealloc (oneBlock 100) (some 1) 10 oneAlloc = .error .overrun ∧
    ¬Reallocates (oneBlock 100) (some 1) 10 oneAlloc := by
  have hrun : zcrtRealloc (oneBlock 100) (some 1) 10 oneAlloc = .error .overrun := rfl
  refine ⟨oneBlock_tracked 100, oneAlloc_fresh 100, hrun, ?_⟩
  rintro ⟨ret, m', h, -⟩
  exact nomatch hrun.symm.trans h

/-! ## Runs -/

inductive KOp
  | malloc (size : UInt32) (al : KAlloc)
  | free (ptr : Option Nat)
  | realloc (ptr : Option Nat) (size : Nat) (al : KAlloc)

namespace KOp

def run (m : KMem) : KOp → Option KMem
  | malloc size al => some (zcrtMalloc m size al).2
  | free ptr => some (zcrtFree m ptr)
  | realloc ptr size al => (zcrtRealloc m ptr size al).toOption.map Prod.snd

/-- `kmalloc` gives what is not in use. -/
def Fresh (m : KMem) : KOp → Prop
  | malloc _ al => al.Fresh m
  | free _ => True
  | realloc _ _ al => al.Fresh m

end KOp

/-- The heap from the start of the module on. -/
def kmemSys : Sys KMem KOp where
  init m := m = { live := fun _ => none, memblockList := [] }
  next := KOp.run

theorem newBlock_tracked {m : KMem} (hm : m.Tracked) {al : KAlloc} (hal : al.Fresh m) (size : Nat) :
    (newBlock m size al).2.Tracked := by
  rcases newBlock_cases hal size with ⟨hnew, -⟩ | ⟨q, mem, n, hbuf, hnode, hnew⟩
  · rw [hnew]
    exact hm
  · rw [hnew]
    exact hm.add (b := ⟨size, mem⟩) (hal.buf q mem hbuf) (hal.node n hnode)

theorem memblockGet_mem {m : KMem} {p : Nat} {e : Memblock} (h : m.memblockGet p = some e) :
    e ∈ m.memblockList ∧ e.ptr = p :=
  ⟨List.mem_of_find?_eq_some h, by simpa using List.find?_some h⟩

theorem zcrtFree_tracked {m : KMem} (hm : m.Tracked) (ptr : Option Nat) :
    (zcrtFree m ptr).Tracked := by
  unfold zcrtFree
  match ptr with
  | none => exact hm
  | some p =>
      dsimp only
      split
      · exact hm
      · rename_i e hget
        obtain ⟨he, rfl⟩ := memblockGet_mem hget
        exact hm.del he

theorem zcrtRealloc_tracked {m m' : KMem} (hm : m.Tracked) {ptr ret : Option Nat} {size : Nat}
    {al : KAlloc} (hal : al.Fresh m) (h : zcrtRealloc m ptr size al = .ok (ret, m')) :
    m'.Tracked := by
  match ptr with
  | none =>
      unfold zcrtRealloc at h
      dsimp only at h
      split_ifs at h with h0
      · have hnew := newBlock_tracked hm hal size
        rwa [Except.ok.inj h] at hnew
      · rw [← (Prod.mk.inj (Except.ok.inj h)).2]
        exact hm
  | some p =>
      by_cases hlive : m.live p = none
      · -- not tracked: only a message
        have hget : m.memblockGet p = none := by
          refine Option.eq_none_iff_forall_ne_some.mpr fun e hget => ?_
          obtain ⟨he, rfl⟩ := memblockGet_mem hget
          obtain ⟨b, hb, -⟩ := hm.entry e he
          rw [hlive] at hb
          exact Option.some_ne_none b hb.symm
        unfold zcrtRealloc at h
        dsimp only at h
        rw [hget] at h
        rw [← (Prod.mk.inj (Except.ok.inj h)).2]
        exact hm
      obtain ⟨b, hp⟩ := Option.ne_none_iff_exists'.mp hlive
      obtain ⟨e, he, rfl, hrun⟩ := zcrtRealloc_live hm hal hp size
      rw [hrun] at h
      by_cases heq : size = b.size
      · rw [if_pos heq] at h
        rw [← (Prod.mk.inj (Except.ok.inj h)).2]
        exact hm
      by_cases h0 : size = 0
      · rw [if_neg heq, if_pos h0] at h
        rw [← (Prod.mk.inj (Except.ok.inj h)).2]
        exact hm.del he
      rw [if_neg heq, if_neg h0] at h
      match hbuf : al.buf with
      | none =>
          rw [hbuf] at h
          rw [← (Prod.mk.inj (Except.ok.inj h)).2]
          exact hm
      | some (q, mem) =>
          rw [hbuf] at h
          dsimp only at h
          split_ifs at h
          match hnode : al.node with
          | none =>
              rw [hnode] at h
              rw [← (Prod.mk.inj (Except.ok.inj h)).2]
              exact hm
          | some n =>
              rw [hnode] at h
              rw [← (Prod.mk.inj (Except.ok.inj h)).2]
              have hadd := hm.add (b := ⟨size, mem.copy 0 (b.data.slice 0 b.size)⟩)
                (hal.buf q mem hbuf) (hal.node n hnode)
              exact hadd.del (List.mem_cons_of_mem _ he)

theorem KMem.Tracked.step {m m' : KMem} (hm : m.Tracked) {op : KOp} (hop : op.Fresh m)
    (h : op.run m = some m') : m'.Tracked := by
  match op with
  | .malloc size al =>
      rw [← Option.some.inj h]
      exact newBlock_tracked hm hop _
  | .free ptr =>
      rw [← Option.some.inj h]
      exact zcrtFree_tracked hm ptr
  | .realloc ptr size al =>
      obtain ⟨⟨ret, m''⟩, hrun, rfl⟩ := Option.map_eq_some_iff.mp h
      have hok : zcrtRealloc m ptr size al = .ok (ret, m'') := by
        cases hres : zcrtRealloc m ptr size al with
        | ok r =>
            rw [hres] at hrun
            exact congrArg Except.ok (Option.some.inj hrun)
        | error e =>
            rw [hres] at hrun
            exact absurd hrun.symm (Option.some_ne_none _)
      exact zcrtRealloc_tracked hm hop hok

/-- Along every run one entry tracks each live block. -/
theorem kmemSys_tracked {m : KMem} (h : kmemSys.Reach (fun m op => op.Fresh m) m) : m.Tracked := by
  refine h.invariant ?_ fun _ _ _ hm hop hn => hm.step hop hn
  rintro m rfl
  exact ⟨List.nodup_nil, List.nodup_nil, fun e he => absurd he List.not_mem_nil,
    fun p b hp => absurd hp.symm (Option.some_ne_none b)⟩

end Zcrt
