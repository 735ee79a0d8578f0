/-
  The timers pending, as a list, and what the calls and the turns of the timer thread do to it.

  * `Pending`: the links go through the timers of a list, and `tail` is its last.
  * `Leads`: from these pending timers and free nodes to those, every other node left alone.
  * `timerPut_pending`: a timer added comes last.
  * `timerTurn_passed`, `timerTurn_expired`: a turn charges a timer that is not due, and takes out
    one that is.
-/
import Zcrt.Core.Timer

namespace Zcrt

open Lib

variable {F P : Type}

/-- A timer and the address of its node. -/
abbrev Timed (F P : Type) := Nat × ZTimerCB F P

/-- A timer with no tick left. -/
def Timed.due (x : Timed F P) : Bool := x.2.left < TIMER_TICK

/-- A timer charged one tick. -/
def Timed.tick (x : Timed F P) : Timed F P := (x.1, { x.2 with left := x.2.left - TIMER_TICK })

/-- The pending timers are `l`, and the free nodes `fr`. -/
structure Pending (mng : ZTimer F P) (l : List (Timed F P)) (fr : List Nat) : Prop where
  seg : Seg (Nodes.nextOf mng.nodes) mng.job (l.map Prod.fst) none
  data : ∀ x ∈ l, Nodes.dataOf mng.nodes x.1 = some x.2
  fn : ∀ x ∈ l, x.2.fn ≠ none
  tail : mng.tail = (l.map Prod.fst).getLast?
  free : Seg (Nodes.nextOf mng.nodes) mng.freelist fr none
  apart : ∀ x ∈ l, x.1 ∉ fr

/-- `freesize` is the number of the free nodes, as an `int32_t`. -/
def ZTimer.Counted (mng : ZTimer F P) (fr : List Nat) : Prop :=
  mng.freesize = Int32.ofNat fr.length

theorem counted_init : (zcrtTimerManageInit : ZTimer F P).Counted [] := rfl

theorem pending_init : Pending (zcrtTimerManageInit : ZTimer F P) [] [] where
  seg := rfl
  data := fun _ hx => absurd hx List.not_mem_nil
  fn := fun _ hx => absurd hx List.not_mem_nil
  tail := rfl
  free := rfl
  apart := fun _ hx => absurd hx List.not_mem_nil

/-- The node `n` at `b` is in neither list. -/
structure Loose (mng : ZTimer F P) (l : List (Timed F P)) (fr : List Nat) (b : Nat)
    (n : Node (ZTimerCB F P)) : Prop where
  node : mng.nodes[b]? = some n
  list : ∀ x ∈ l, x.1 ≠ b
  free : b ∉ fr

theorem Loose.of_node {mng mng' : ZTimer F P} {l : List (Timed F P)} {fr : List Nat} {b : Nat}
    {n : Node (ZTimerCB F P)} (h : Loose mng l fr b n) (hn : mng'.nodes[b]? = mng.nodes[b]?) :
    Loose mng' l fr b n :=
  ⟨hn.trans h.node, h.list, h.free⟩

/-- The containers are as they were. -/
structure SameContainers (mng mng' : ZTimer F P) : Prop where
  container : mng'.container = mng.container
  conlastid : mng'.conlastid = mng.conlastid

theorem SameContainers.trans {mng mng' mng'' : ZTimer F P} (h : SameContainers mng mng')
    (h' : SameContainers mng' mng'') : SameContainers mng mng'' :=
  ⟨h'.container.trans h.container, h'.conlastid.trans h.conlastid⟩

/-- The timers pending were `l` and are `l'`. -/
structure Leads (mng : ZTimer F P) (l : List (Timed F P)) (fr : List Nat) (mng' : ZTimer F P)
    (l' : List (Timed F P)) (fr' : List Nat) : Prop where
  pending : Pending mng' l' fr'
  loose : ∀ b n, Loose mng l fr b n → Loose mng' l' fr' b n
  counted : mng.Counted fr → mng'.Counted fr'

theorem Leads.trans {mng mng' mng'' : ZTimer F P} {l l' l'' : List (Timed F P)}
    {fr fr' fr'' : List Nat} (h : Leads mng l fr mng' l' fr')
    (h' : Leads mng' l' fr' mng'' l'' fr'') : Leads mng l fr mng'' l'' fr'' :=
  ⟨h'.pending, fun b n hb => h'.loose b n (h.loose b n hb), fun hc => h'.counted (h.counted hc)⟩

/-- What the two adding calls do once their arguments are accepted. -/
def timerPut (mng : ZTimer F P) (mem : Bool) (period : UInt32) (cb : Option F)
    (set : ZTimerCB F P → ZTimerCB F P) : Except Fault (EZCRTErr × Option (ZTimer F P)) := do
  let (job, mng) ← zcrtTimerMallocCb mng mem period cb
  match job with
  | none => pure (.noMem, some mng)
  | some job => do
      let (job, n) ← Nodes.load mng.nodes (some job)
      let mng ← zcrtTimerInsertCb (mng.store job { n with data := set n.data }) job
      pure (.success, some mng)

theorem timerconAdd_eq (mng : ZTimer F P) (mem : Bool) (c : UInt16) (period : UInt32)
    (cb : Option F) (p1 p2 : P) :
    zcrtTimerconAdd (some mng) mem c period cb p1 p2 =
      if ¬ztimerIsValidContainerId c then .ok (.invalidCrtModule, some mng)
      else if cb.isNone then .ok (.paramErr, some mng)
      else if c ≠ ZTIMER_CONTAINER_CONSTID ∧ mng.container c = 0 then .ok (.badObject, some mng)
      else timerPut mng mem period cb fun d =>
        { d with argn := 2, args := [p1, p2], timecon := c } := rfl

namespace Pending

variable {mng mng' : ZTimer F P} {l l' : List (Timed F P)} {fr fr' : List Nat} {a : Nat}

theorem nodup (h : Pending mng l fr) : (l.map Prod.fst).Nodup := h.seg.nodup

theorem leads (h : Pending mng l fr) : Leads mng l fr mng l fr :=
  ⟨h, fun _ _ hb => hb, fun hc => hc⟩

theorem node (h : Pending mng l fr) {x : Timed F P} (hx : x ∈ l) :
    ∃ n, mng.nodes[x.1]? = some n ∧ n.data = x.2 := by
  obtain ⟨n, hn, hd⟩ := Option.map_eq_some_iff.mp (h.data x hx)
  exact ⟨n, hn, hd⟩

/-- The pending timers are determined by the links. -/
theorem unique (h : Pending mng l fr) (h' : Pending mng l' fr') : l = l' := by
  have hfst := h.seg.unique h'.seg
  have hpair : ∀ {l : List (Timed F P)} {fr}, Pending mng l fr →
      l.map some = l.map fun x => (Nodes.dataOf mng.nodes x.1).map fun d => (x.1, d) :=
    fun h => List.map_congr_left fun x hx => by
      rw [h.data x hx]
      rfl
  have hmap : ∀ l : List (Timed F P),
      (l.map fun x => (Nodes.dataOf mng.nodes x.1).map fun d => (x.1, d)) =
        (l.map Prod.fst).map fun a => (Nodes.dataOf mng.nodes a).map fun d => (a, d) :=
    fun l => by
      rw [List.map_map]
      rfl
  refine (Option.some_injective _).list_map ?_
  rw [hpair h, hpair h', hmap, hmap, hfst]

/-- The nodes of the pending timers are as they were. -/
theorem of_frame (h : Pending mng l fr) (hjob : mng'.job = mng.job) (htail : mng'.tail = mng.tail)
    (hnode : ∀ x ∈ l, mng'.nodes[x.1]? = mng.nodes[x.1]?)
    (hfree : Seg (Nodes.nextOf mng'.nodes) mng'.freelist fr' none) (hapart : ∀ x ∈ l, x.1 ∉ fr') :
    Pending mng' l fr' where
  seg := by
    rw [hjob]
    refine h.seg.congr fun b hb => ?_
    obtain ⟨x, hx, rfl⟩ := List.mem_map.mp hb
    exact Nodes.nextOf_congr (hnode x hx)
  data := fun x hx => (Nodes.dataOf_congr (hnode x hx)).trans (h.data x hx)
  fn := h.fn
  tail := htail.trans h.tail
  free := hfree
  apart := hapart

/-- The containers alone are changed. -/
theorem of_containers (h : Pending mng l fr) (hnodes : mng'.nodes = mng.nodes)
    (hjob : mng'.job = mng.job) (htail : mng'.tail = mng.tail)
    (hfree : mng'.freelist = mng.freelist) : Pending mng' l fr := by
  refine h.of_frame hjob htail (fun x _ => by rw [hnodes]) ?_ h.apart
  rw [hnodes, hfree]
  exact h.free

theorem containerNew_pending (h : Pending mng l fr) {c : UInt16} {mng' : ZTimer F P}
    (hnew : zcrtTimerContainerNew (some mng) = .ok (c, some mng')) : Pending mng' l fr := by
  obtain ⟨r, -, hr⟩ := except_bind_eq_ok hnew
  cases r with
  | none =>
      obtain ⟨-, he⟩ := Prod.mk.inj (Except.ok.inj hr)
      obtain rfl := Option.some.inj he
      exact h
  | some r =>
      obtain ⟨-, he⟩ := Prod.mk.inj (Except.ok.inj hr)
      obtain rfl := Option.some.inj he
      exact h.of_containers rfl rfl rfl rfl

theorem containerDelete_pending (h : Pending mng l fr) {c : UInt16} {mng' : ZTimer F P}
    (hdel : zcrtTimerContainerDelete (some mng) c = some mng') : Pending mng' l fr := by
  unfold zcrtTimerContainerDelete at hdel
  dsimp only at hdel
  split at hdel
  · obtain rfl := Option.some.inj hdel
    exact h
  · obtain rfl := Option.some.inj hdel
    exact h.of_containers rfl rfl rfl rfl

/-! ## A node got, filled, inserted and given back -/

/-- The node `new` at `a`, in neither list. -/
structure Got (mng : ZTimer F P) (l : List (Timed F P)) (fr : List Nat) (new : Node (ZTimerCB F P))
    (a : Nat) (mng' : ZTimer F P) : Prop where
  pending : Pending mng' l fr.tail
  node : Loose mng' l fr.tail a new
  loose : ∀ b n, Loose mng l fr b n → b ≠ a ∧ Loose mng' l fr.tail b n
  same : SameContainers mng mng'
  counted : mng.Counted fr → mng'.Counted fr.tail

/-- No node is free: one is allocated. -/
theorem mallocCb_new (h : Pending mng l []) (mem : Bool) (period : UInt32) (fn : Option F) :
    mem = false ∧ zcrtTimerMallocCb mng mem period fn = .ok (none, mng) ∨
    ∃ mng', zcrtTimerMallocCb mng mem period fn = .ok (some mng.nodes.length, mng') ∧
      Got mng l [] ⟨⟨period, fn, 0, 0, []⟩, none⟩ mng.nodes.length mng' := by
  let new : Node (ZTimerCB F P) := ⟨⟨period, fn, 0, 0, []⟩, none⟩
  have hnone : mng.freelist = none := h.free
  have hmalloc : zcrtTimerMallocCb mng mem period fn =
      if mem then .ok (some mng.nodes.length, { mng with nodes := mng.nodes ++ [new] })
      else .ok (none, mng) := by
    unfold zcrtTimerMallocCb
    split
    · next hsome => exact nomatch hnone.symm.trans hsome
    · rfl
  rw [hmalloc]
  cases mem with
  | false => exact Or.inl ⟨rfl, rfl⟩
  | true =>
      have hold : ∀ {b n}, mng.nodes[b]? = some n →
          b < mng.nodes.length ∧ (mng.nodes ++ [new])[b]? = mng.nodes[b]? := fun hb =>
        ⟨Nodes.lt_of_node hb, List.getElem?_append_left (Nodes.lt_of_node hb)⟩
      have hnode : ∀ x ∈ l, x.1 < mng.nodes.length ∧
          (mng.nodes ++ [new])[x.1]? = mng.nodes[x.1]? := fun x hx => by
        obtain ⟨n, hn, -⟩ := h.node hx
        exact hold hn
      have hlast : (mng.nodes ++ [new])[mng.nodes.length]? = some new := by simp
      refine Or.inr ⟨{ mng with nodes := mng.nodes ++ [new] }, rfl, ?_⟩
      exact {
        pending := h.of_frame rfl rfl (fun x hx => (hnode x hx).2) hnone h.apart
        node := ⟨hlast, fun x hx => Nat.ne_of_lt (hnode x hx).1, List.not_mem_nil⟩
        loose := fun b n hb => ⟨Nat.ne_of_lt (hold hb.node).1, hb.of_node (hold hb.node).2⟩
        same := ⟨rfl, rfl⟩
        counted := fun hc => hc }

/-- The first of the free nodes. -/
theorem mallocCb_reuse (h : Pending mng l (a :: fr)) (mem : Bool) (period : UInt32)
    (fn : Option F) : ∃ mng', zcrtTimerMallocCb mng mem period fn = .ok (some a, mng') ∧
      Got mng l (a :: fr) ⟨⟨period, fn, 0, 0, []⟩, none⟩ a mng' := by
  let new : Node (ZTimerCB F P) := ⟨⟨period, fn, 0, 0, []⟩, none⟩
  obtain ⟨n, hn⟩ := Nodes.node_of_mem h.free List.mem_cons_self
  have hnd := List.nodup_cons.mp h.free.nodup
  have hfirst : mng.freelist = some a := h.free.1
  have hother : ∀ b, b ≠ a → (mng.nodes.set a new)[b]? = mng.nodes[b]? := fun b hb =>
    Nodes.set_of_ne hb new
  have hne : ∀ x ∈ l, x.1 ≠ a := fun x hx he => h.apart x hx (he ▸ List.mem_cons_self)
  have hrest : Seg (Nodes.nextOf (mng.nodes.set a new)) n.next fr none :=
    h.free.pop (Nodes.nextOf_of_node hn) fun b hb =>
      Nodes.nextOf_congr (hother b fun he => hnd.1 (he ▸ hb))
  refine ⟨ZTimer.store { mng with freelist := n.next, freesize := mng.freesize - 1 } a new, ?_, ?_⟩
  · unfold zcrtTimerMallocCb
    rw [hfirst]
    dsimp only
    rw [Nodes.load_some hn]
    rfl
  · exact {
      pending := h.of_frame rfl rfl (fun x hx => hother _ (hne x hx)) hrest
        fun x hx hm => h.apart x hx (List.mem_cons_of_mem _ hm)
      node := ⟨Nodes.set_self hn new, hne, hnd.1⟩
      loose := fun b m hb => by
        have hba : b ≠ a := fun he => hb.free (he ▸ List.mem_cons_self)
        exact ⟨hba, (hother b hba).trans hb.node, hb.list,
          fun hm => hb.free (List.mem_cons_of_mem _ hm)⟩
      same := ⟨rfl, rfl⟩
      counted := fun hc => by
        change mng.freesize - 1 = Int32.ofNat fr.length
        rw [show mng.freesize = Int32.ofNat (fr.length + 1) from hc, Int32.ofNat_add]
        exact Int32.add_sub_cancel .. }

theorem mallocCb_pending (h : Pending mng l fr) (mem : Bool) (period : UInt32) (fn : Option F) :
    mem = false ∧ zcrtTimerMallocCb mng mem period fn = .ok (none, mng) ∨
    ∃ a mng', zcrtTimerMallocCb mng mem period fn = .ok (some a, mng') ∧
      Got mng l fr ⟨⟨period, fn, 0, 0, []⟩, none⟩ a mng' := by
  cases fr with
  | nil =>
      rcases h.mallocCb_new mem period fn with hnone | ⟨mng', hsome, hgot⟩
      · exact Or.inl hnone
      · exact Or.inr ⟨_, mng', hsome, hgot⟩
  | cons a fr =>
      obtain ⟨mng', hsome, hgot⟩ := h.mallocCb_reuse mem period fn
      exact Or.inr ⟨a, mng', hsome, hgot⟩

/-- The node at `a` is now the first of the free ones. -/
structure GivenBack (mng : ZTimer F P) (l : List (Timed F P)) (fr : List Nat) (a : Nat)
    (mng' : ZTimer F P) : Prop where
  pending : Pending mng' l (a :: fr)
  loose : ∀ b n, b ≠ a → Loose mng l fr b n → Loose mng' l (a :: fr) b n
  same : SameContainers mng mng'
  counted : mng.Counted fr → mng'.Counted (a :: fr)

/-- A node in neither list put on the free list. -/
theorem freeCb_pending (h : Pending mng l fr) {n : Node (ZTimerCB F P)} (ha : Loose mng l fr a n) :
    ∃ mng', zcrtTimerFreeCb mng a = .ok mng' ∧ GivenBack mng l fr a mng' := by
  let m : Node (ZTimerCB F P) :=
    { data := { n.data with fn := none, timecon := ZTIMER_INVALID_CONTAINER }
      next := mng.freelist }
  have hother : ∀ b, b ≠ a → (mng.nodes.set a m)[b]? = mng.nodes[b]? := fun b hb =>
    Nodes.set_of_ne hb m
  have hfree : Seg (Nodes.nextOf (mng.nodes.set a m)) (some a) (a :: fr) none :=
    h.free.push (fun b hb => Nodes.nextOf_congr (hother b fun he => ha.free (he ▸ hb)))
      (Nodes.nextOf_of_node (Nodes.set_self ha.node m))
  refine ⟨{ mng.store a m with freelist := some a, freesize := mng.freesize + 1 }, ?_, ?_⟩
  · unfold zcrtTimerFreeCb
    rw [Nodes.load_some ha.node]
    rfl
  · exact {
      pending := h.of_frame rfl rfl (fun x hx => hother _ (ha.list x hx)) hfree
        fun x hx hm => (List.mem_cons.mp hm).elim (ha.list x hx) (h.apart x hx)
      loose := fun b n hba hb => ⟨(hother b hba).trans hb.node, hb.list,
        fun hm => (List.mem_cons.mp hm).elim hba hb.free⟩
      same := ⟨rfl, rfl⟩
      counted := fun hc => by
        change mng.freesize + 1 = Int32.ofNat (fr.length + 1)
        rw [show mng.freesize = Int32.ofNat fr.length from hc, Int32.ofNat_add]
        rfl }

/-- A node in neither list written. -/
theorem store_pending (h : Pending mng l fr) {n : Node (ZTimerCB F P)} (ha : Loose mng l fr a n)
    (n' : Node (ZTimerCB F P)) :
    Pending (mng.store a n') l fr ∧ Loose (mng.store a n') l fr a n' ∧
      ∀ b m, b ≠ a → Loose mng l fr b m → Loose (mng.store a n') l fr b m := by
  have hother : ∀ b, b ≠ a → (mng.nodes.set a n')[b]? = mng.nodes[b]? := fun b hb =>
    Nodes.set_of_ne hb n'
  have hfree : Seg (Nodes.nextOf (mng.nodes.set a n')) mng.freelist fr none :=
    h.free.congr fun b hb => Nodes.nextOf_congr (hother b fun he => ha.free (he ▸ hb))
  exact ⟨h.of_frame rfl rfl (fun x hx => hother _ (ha.list x hx)) hfree h.apart,
    ⟨Nodes.set_self ha.node n', ha.list, ha.free⟩, fun b m hba hb => hb.of_node (hother b hba)⟩

/-- The timer `x` behind the others. -/
structure PutLast (mng : ZTimer F P) (l : List (Timed F P)) (fr : List Nat) (x : Timed F P)
    (mng' : ZTimer F P) : Prop where
  pending : Pending mng' (l ++ [x]) fr
  loose : ∀ b n, b ≠ x.1 → Loose mng l fr b n → Loose mng' (l ++ [x]) fr b n
  same : SameContainers mng mng'
  freesize : mng'.freesize = mng.freesize

/-- What holds of all timers, once one is put behind them. -/
theorem forall_concat {q : Timed F P → Prop} {x : Timed F P} (h : ∀ y ∈ l, q y) (hx : q x) :
    ∀ y ∈ l ++ [x], q y := by
  intro y hy
  rcases List.mem_append.mp hy with hy | hy
  · exact h y hy
  · rw [List.mem_singleton.mp hy]
    exact hx

theorem insertCb_first (h : Pending mng [] fr) {d : ZTimerCB F P}
    (ha : Loose mng [] fr a ⟨d, none⟩) (hfn : d.fn ≠ none) :
    ∃ mng', zcrtTimerInsertCb mng a = .ok mng' ∧ PutLast mng [] fr (a, d) mng' := by
  have hjob : mng.job = none := h.seg
  have hnone : mng.tail = none := h.tail
  refine ⟨{ mng with job := some a, tail := some a }, ?_, ?_⟩
  · unfold zcrtTimerInsertCb
    rw [hjob, hnone]
    rfl
  · exact {
      pending := {
        seg := ⟨rfl, none, Nodes.nextOf_of_node ha.node, rfl⟩
        data := forall_concat h.data (Nodes.dataOf_of_node ha.node)
        fn := forall_concat h.fn hfn
        tail := rfl
        free := h.free
        apart := forall_concat h.apart ha.free }
      loose := fun b n hba hb => ⟨hb.node, forall_concat hb.list hba.symm, hb.free⟩
      same := ⟨rfl, rfl⟩
      freesize := rfl }

theorem insertCb_behind {x : Timed F P} (h : Pending mng (l ++ [x]) fr) {d : ZTimerCB F P}
    (ha : Loose mng (l ++ [x]) fr a ⟨d, none⟩) (hfn : d.fn ≠ none) :
    ∃ mng', zcrtTimerInsertCb mng a = .ok mng' ∧ PutLast mng (l ++ [x]) fr (a, d) mng' := by
  have hx : x ∈ l ++ [x] := List.mem_append_right _ (List.mem_singleton_self x)
  obtain ⟨n, hn, hd⟩ := h.node hx
  have hxa : x.1 ≠ a := ha.list x hx
  have hnd := h.nodup
  have hseg := h.seg
  rw [List.map_append, List.map_singleton] at hnd hseg
  have hxl : ∀ y ∈ l, y.1 ≠ x.1 := fun y hy he =>
    (List.nodup_append.mp hnd).2.2 y.1 (List.mem_map_of_mem hy) x.1 (List.mem_singleton_self _) he
  have hsome : mng.tail = some x.1 := by
    rw [h.tail]
    simp
  obtain ⟨first, hfirst⟩ : ∃ first, mng.job = some first := by
    rw [hseg.head]
    cases l with
    | nil => exact ⟨x.1, rfl⟩
    | cons y l => exact ⟨y.1, rfl⟩
  let n' : Node (ZTimerCB F P) := { n with next := some a }
  have hother : ∀ b, b ≠ x.1 → (mng.nodes.set x.1 n')[b]? = mng.nodes[b]? := fun b hb =>
    Nodes.set_of_ne hb n'
  refine ⟨{ mng.store x.1 n' with tail := some a }, ?_, ?_⟩
  · unfold zcrtTimerInsertCb
    rw [hfirst, hsome]
    dsimp only
    rw [Nodes.load_some hn]
    rfl
  · exact {
      pending := {
        seg := by
          rw [List.map_append, List.map_append, List.map_singleton, List.map_singleton,
            List.append_assoc]
          refine Seg.snoc hseg (fun b hb => Nodes.nextOf_congr (hother b fun he => ?_))
            (Nodes.nextOf_of_node (Nodes.set_self hn n')) ?_
          · obtain ⟨y, hy, rfl⟩ := List.mem_map.mp hb
            exact hxl y hy he
          · exact (Nodes.nextOf_congr (hother a hxa.symm)).trans (Nodes.nextOf_of_node ha.node)
        data := fun y hy => (Nodes.dataOf_set_next hn (some a) y.1).trans
          (forall_concat h.data (Nodes.dataOf_of_node ha.node) y hy)
        fn := forall_concat h.fn hfn
        tail := by simp
        free := h.free.congr fun b hb => Nodes.nextOf_congr (hother b fun he =>
          h.apart x hx (he ▸ hb))
        apart := forall_concat h.apart ha.free }
      loose := fun b m hba hb => ⟨(hother b fun he => hb.list x hx he.symm).trans hb.node,
        forall_concat hb.list hba.symm, hb.free⟩
      same := ⟨rfl, rfl⟩
      freesize := rfl }

/-- A filled node put behind the last. -/
theorem insertCb_pending (h : Pending mng l fr) {d : ZTimerCB F P} (ha : Loose mng l fr a ⟨d, none⟩)
    (hfn : d.fn ≠ none) :
    ∃ mng', zcrtTimerInsertCb mng a = .ok mng' ∧ PutLast mng l fr (a, d) mng' := by
  rcases List.eq_nil_or_concat l with rfl | ⟨l, x, rfl⟩
  · exact h.insertCb_first ha hfn
  · rw [List.concat_eq_append] at h ha ⊢
    exact h.insertCb_behind ha hfn

/-- A timer more, the last, or no memory and the timers as they were. -/
theorem timerPut_pending (h : Pending mng l fr) (mem : Bool) (period : UInt32) (cb : Option F)
    (set : ZTimerCB F P → ZTimerCB F P) (hfn : (set ⟨period, cb, 0, 0, []⟩).fn ≠ none) :
    mem = false ∧ timerPut mng mem period cb set = .ok (.noMem, some mng) ∨
    ∃ a mng', timerPut mng mem period cb set = .ok (.success, some mng') ∧
      Leads mng l fr mng' (l ++ [(a, set ⟨period, cb, 0, 0, []⟩)]) fr.tail ∧
      SameContainers mng mng' := by
  unfold timerPut
  rcases h.mallocCb_pending mem period cb with ⟨rfl, hnone⟩ | ⟨a, mng1, hsome, hgot⟩
  · rw [hnone]
    exact Or.inl ⟨rfl, rfl⟩
  · obtain ⟨h2, ha2, hkeep⟩ :=
      hgot.pending.store_pending hgot.node ⟨set ⟨period, cb, 0, 0, []⟩, none⟩
    obtain ⟨mng3, hins, hlast⟩ := h2.insertCb_pending ha2 hfn
    refine Or.inr ⟨a, mng3, ?_, ⟨hlast.pending, fun b n hb => ?_, fun hc => ?_⟩, ?_⟩
    · rw [hsome, except_ok_bind]
      dsimp only
      rw [Nodes.load_some hgot.node.node, except_ok_bind]
      dsimp only
      rw [hins]
      rfl
    · obtain ⟨hba, hb1⟩ := hgot.loose b n hb
      exact hlast.loose b n hba (hkeep b n hba hb1)
    · exact hlast.freesize.trans (hgot.counted hc)
    · exact hgot.same.trans ⟨hlast.same.container, hlast.same.conlastid⟩

/-- `zcrt_timercon_add`: an error and the timers as they were, or a timer more, the last. -/
theorem timerconAdd_pending (h : Pending mng l fr) (mem : Bool) (c : UInt16) (period : UInt32)
    (cb : Option F) (p1 p2 : P) :
    ∃ ret mng' l' fr', zcrtTimerconAdd (some mng) mem c period cb p1 p2 = .ok (ret, some mng') ∧
      Leads mng l fr mng' l' fr' ∧ SameContainers mng mng' ∧
      (ret ≠ .success ∧ l' = l ∨ ret = .success ∧ mng.isLive c ∧
        ∃ a, l' = l ++
          [(a, { left := period, fn := cb, argn := 2, timecon := c, args := [p1, p2] })]) := by
  rw [timerconAdd_eq]
  have hsame : ∀ ret : EZCRTErr, ret ≠ .success →
      ∃ ret' mng' l' fr', (.ok (ret, some mng) : Except Fault _) = .ok (ret', some mng') ∧
        Leads mng l fr mng' l' fr' ∧ SameContainers mng mng' ∧
        (ret' ≠ .success ∧ l' = l ∨ ret' = .success ∧ mng.isLive c ∧
          ∃ a, l' = l ++ [(a, ⟨period, cb, 2, c, [p1, p2]⟩)]) := fun ret hret =>
    ⟨ret, mng, l, fr, rfl, h.leads, ⟨rfl, rfl⟩, Or.inl ⟨hret, rfl⟩⟩
  by_cases hvalid : ztimerIsValidContainerId c
  · rw [if_neg (not_not.mpr hvalid)]
    by_cases hcb : cb.isNone
    · rw [if_pos hcb]
      exact hsame _ (by decide)
    rw [if_neg hcb]
    by_cases hcon : c ≠ ZTIMER_CONTAINER_CONSTID ∧ mng.container c = 0
    · rw [if_pos hcon]
      exact hsame _ (by decide)
    rw [if_neg hcon]
    have hlive : mng.isLive c := by
      unfold ZTimer.isLive
      refine decide_eq_true ⟨hvalid, ?_⟩
      by_cases hconst : c = ZTIMER_CONTAINER_CONSTID
      · exact Or.inl hconst
      · exact Or.inr fun he => hcon ⟨hconst, he⟩
    have hfn : cb ≠ none := fun he => hcb (Option.isNone_iff_eq_none.mpr he)
    rcases h.timerPut_pending mem period cb
        (fun d => { d with argn := 2, args := [p1, p2], timecon := c }) hfn with
      ⟨-, hno⟩ | ⟨a, mng', hput, hleads, hcon'⟩
    · rw [hno]
      exact hsame _ (by decide)
    · exact ⟨.success, mng', _, _, hput, hleads, hcon', Or.inr ⟨rfl, hlive, a, rfl⟩⟩
  · rw [if_pos hvalid]
    exact hsame _ (by decide)

/-! ## A turn of the timer thread -/

/-- The links go past the timer `x`, whose node is `n`. `prev` is the one before it. -/
structure Unhooked (mng : ZTimer F P) (pre : List (Timed F P)) (x : Timed F P)
    (r : List (Timed F P)) (n : Node (ZTimerCB F P)) (mng' : ZTimer F P) (prev : Option Nat) :
    Prop where
  data : n.data = x.2
  node : mng'.nodes[x.1]? = some n
  seg : Seg (Nodes.nextOf mng'.nodes) mng'.job ((pre ++ r).map Prod.fst) none
  prev : n.next = none → prev = (pre.map Prod.fst).getLast?
  datas : ∀ b, Nodes.dataOf mng'.nodes b = Nodes.dataOf mng.nodes b
  nodes : ∀ b, (∀ y ∈ pre, y.1 ≠ b) → mng'.nodes[b]? = mng.nodes[b]?
  tail : mng'.tail = mng.tail
  freelist : mng'.freelist = mng.freelist
  freesize : mng'.freesize = mng.freesize
  same : SameContainers mng mng'

/-- The link to a timer set past it. `prev` is the one before it, unless it is the first. -/
theorem timerUnhook_ok {pre r : List (Timed F P)} {x : Timed F P}
    (h : Pending mng (pre ++ x :: r) fr) {prev : Option Nat}
    (hprev : pre ≠ [] → prev = (pre.map Prod.fst).getLast?) :
    ∃ mng' prev' n, timerUnhook mng x.1 prev = .ok (mng', prev') ∧
      Unhooked mng pre x r n mng' prev' := by
  have hx : x ∈ pre ++ x :: r := List.mem_append_right _ List.mem_cons_self
  have hseg := h.seg
  rw [List.map_append, List.map_cons] at hseg
  obtain ⟨n, hn, hd⟩ := h.node hx
  unfold timerUnhook
  rw [Nodes.load_some hn, except_ok_bind]
  dsimp only
  rcases List.eq_nil_or_concat pre with rfl | ⟨pre, y, rfl⟩
  · -- the first
    have hjob : mng.job = some x.1 := hseg.1
    rw [if_pos hjob]
    refine ⟨_, _, n, rfl, ?_⟩
    exact {
      data := hd
      node := hn
      seg := Seg.pop hseg (Nodes.nextOf_of_node hn) fun _ _ => rfl
      prev := fun hnone => hnone
      datas := fun _ => rfl
      nodes := fun _ _ => rfl
      tail := rfl
      freelist := rfl
      freesize := rfl
      same := ⟨rfl, rfl⟩ }
  · -- behind `y`
    rw [List.concat_eq_append] at h hprev hseg ⊢
    rw [List.map_append, List.map_singleton, List.append_assoc] at hseg
    have hnd := hseg.nodup
    have hyx : y.1 ≠ x.1 := fun he => by
      have := List.nodup_cons.mp (List.nodup_append.mp hnd).2.1
      exact this.1 (he ▸ List.mem_cons_self)
    have hjob : mng.job ≠ some x.1 := fun he => by
      have hhead := hseg.head
      rw [he] at hhead
      have hnd' := List.nodup_middle.mp
        (show ((pre.map Prod.fst ++ [y.1]) ++ x.1 :: r.map Prod.fst).Nodup
        by rw [List.append_assoc]; exact hnd)
      refine (List.nodup_cons.mp hnd').1 (List.mem_append_left _ ?_)
      cases pre with
      | nil => exact absurd (Option.some.inj hhead).symm hyx
      | cons z pre =>
          rw [Option.some.inj hhead]
          exact List.mem_cons_self
    have hy : y ∈ pre ++ [y] ++ x :: r := by simp
    obtain ⟨m, hm, hmd⟩ := h.node hy
    let m' : Node (ZTimerCB F P) := { m with next := n.next }
    have hother : ∀ b, b ≠ y.1 → (mng.nodes.set y.1 m')[b]? = mng.nodes[b]? := fun b hb =>
      Nodes.set_of_ne hb m'
    have hprevy : prev = some y.1 := by
      rw [hprev (by simp)]
      simp
    rw [if_neg hjob, hprevy, Nodes.load_some hm]
    have hnd2 := List.nodup_append.mp hnd
    have hseg' : Seg (Nodes.nextOf (mng.nodes.set y.1 m')) mng.job
        (pre.map Prod.fst ++ y.1 :: r.map Prod.fst) none := by
      refine Seg.unlink hseg (fun b hb => Nodes.nextOf_congr (hother b fun he => ?_))
        (fun b hb => Nodes.nextOf_congr (hother b fun he => ?_)) ?_
      · exact hnd2.2.2 b hb y.1 List.mem_cons_self he
      · rw [he] at hb
        exact (List.nodup_cons.mp hnd2.2.1).1 (List.mem_cons_of_mem _ hb)
      · rw [Nodes.nextOf_of_node hn]
        exact Nodes.nextOf_of_node (n := m') (Nodes.set_self hm m')
    refine ⟨mng.store y.1 m', some y.1, n, rfl, ?_⟩
    exact {
      data := hd
      node := (hother x.1 hyx.symm).trans hn
      seg := by
        rw [List.map_append, List.map_append, List.map_singleton, List.append_assoc]
        exact hseg'
      prev := fun _ => by simp
      datas := Nodes.dataOf_set_next hm n.next
      nodes := fun b hb => hother b fun he => hb y (by simp) he.symm
      tail := rfl
      freelist := rfl
      freesize := rfl
      same := ⟨rfl, rfl⟩ }

/-- The timer `x`, whose node is `n`, is out of the list. -/
structure Unlinked (mng : ZTimer F P) (pre : List (Timed F P)) (x : Timed F P)
    (r : List (Timed F P)) (fr : List Nat) (n : Node (ZTimerCB F P)) (mng' : ZTimer F P) :
    Prop where
  leads : Leads mng (pre ++ x :: r) fr mng' (pre ++ r) fr
  node : Loose mng' (pre ++ r) fr x.1 n
  data : n.data = x.2
  same : SameContainers mng mng'

/-- A timer taken out of the list. -/
theorem timerUnlink_pending {pre r : List (Timed F P)} {x : Timed F P}
    (h : Pending mng (pre ++ x :: r) fr) {prev : Option Nat}
    (hprev : pre ≠ [] → prev = (pre.map Prod.fst).getLast?) :
    ∃ mng' prev' n, timerUnlink mng x.1 prev = .ok (mng', prev') ∧
      Unlinked mng pre x r fr n mng' := by
  obtain ⟨mng1, prev1, n, hun, hunhook⟩ := h.timerUnhook_ok hprev
  have hx : x ∈ pre ++ x :: r := List.mem_append_right _ List.mem_cons_self
  have hsub : ∀ y ∈ pre ++ r, y ∈ pre ++ x :: r := fun y hy => by
    rcases List.mem_append.mp hy with hy | hy
    · exact List.mem_append_left _ hy
    · exact List.mem_append_right _ (List.mem_cons_of_mem _ hy)
  have hseg := h.seg
  rw [List.map_append, List.map_cons] at hseg
  have hne : ∀ y ∈ pre ++ r, y.1 ≠ x.1 := fun y hy he => by
    refine (List.nodup_cons.mp (List.nodup_middle.mp hseg.nodup)).1 ?_
    rw [← List.map_append, ← he]
    exact List.mem_map_of_mem hy
  have hfr : x.1 ∉ fr := h.apart x hx
  -- but for `tail`, which is looked at next
  have hout : ∀ t, t = ((pre ++ r).map Prod.fst).getLast? →
      Unlinked mng pre x r fr n { mng1 with tail := t } := fun t ht =>
    { leads := {
        pending := {
          seg := hunhook.seg
          data := fun y hy => (hunhook.datas y.1).trans (h.data y (hsub y hy))
          fn := fun y hy => h.fn y (hsub y hy)
          tail := ht
          free := by
            change Seg (Nodes.nextOf mng1.nodes) mng1.freelist fr none
            rw [hunhook.freelist]
            exact h.free.congr fun b hb => Nodes.nextOf_congr (hunhook.nodes b fun y hy he =>
              h.apart y (List.mem_append_left _ hy) (he ▸ hb))
          apart := fun y hy => h.apart y (hsub y hy) }
        loose := fun b m hb => {
          node := (hunhook.nodes b fun y hy => hb.list y (List.mem_append_left _ hy)).trans hb.node
          list := fun y hy => hb.list y (hsub y hy)
          free := hb.free }
        counted := fun hc => hunhook.freesize.trans hc }
      node := ⟨hunhook.node, hne, h.apart x hx⟩
      data := hunhook.data
      same := ⟨hunhook.same.container, hunhook.same.conlastid⟩ }
  have htail := h.tail
  rw [List.map_append, List.map_cons, ← hunhook.tail] at htail
  unfold timerUnlink
  rw [hun, except_ok_bind]
  dsimp only
  unfold timerFixTail
  rw [Nodes.load_some hunhook.node, except_ok_bind]
  dsimp only
  cases r with
  | nil =>
      -- the last timer: `tail` is the one before it
      have hn : mng.nodes[x.1]? = some n := (hunhook.nodes x.1 fun y hy =>
        hne y (List.mem_append_left _ hy)).symm.trans hunhook.node
      have hnone : n.next = none := by
        obtain ⟨m, -, rfl, next, hnext, hnil⟩ := Seg.append_iff.mp hseg
        obtain rfl := Option.some.inj ((Nodes.nextOf_of_node hn).symm.trans hnext)
        exact hnil
      rw [if_pos (by rw [htail]; simp), if_neg (not_not.mpr hnone)]
      refine ⟨_, prev1, n, rfl, hout prev1 ?_⟩
      rw [List.append_nil]
      exact hunhook.prev hnone
  | cons z r =>
      have hlast : mng1.tail = ((pre ++ z :: r).map Prod.fst).getLast? := by
        rw [htail]
        simp
      have htx : mng1.tail ≠ some x.1 := fun he => by
        rw [hlast] at he
        obtain ⟨y, hy, hyx⟩ := List.mem_map.mp (List.mem_of_getLast? he)
        exact hne y hy hyx
      rw [if_neg htx]
      exact ⟨mng1, prev1, n, rfl, hout mng1.tail hlast⟩

/-- A turn at a timer that is not due: it is charged one tick. -/
theorem timerTurn_passed {pre r : List (Timed F P)} {x : Timed F P}
    (h : Pending mng (pre ++ x :: r) fr) (prev : Option Nat) (hx : x.due = false) :
    ∃ mng', timerTurn mng x.1 prev = .ok (.passed mng' (r.map Prod.fst).head? (some x.1)) ∧
      Leads mng (pre ++ x :: r) fr mng' (pre ++ x.tick :: r) fr ∧ SameContainers mng mng' := by
  have hmem : x ∈ pre ++ x :: r := List.mem_append_right _ List.mem_cons_self
  obtain ⟨n, hn, hd⟩ := h.node hmem
  have hseg := h.seg
  have hnd := hseg.nodup
  rw [List.map_append, List.map_cons] at hseg hnd
  have hnext : n.next = (r.map Prod.fst).head? := by
    obtain ⟨m, -, rfl, next, hnext, hrest⟩ := Seg.append_iff.mp hseg
    obtain rfl := Option.some.inj ((Nodes.nextOf_of_node hn).symm.trans hnext)
    exact hrest.head
  let n' : Node (ZTimerCB F P) :=
    { n with data := { n.data with left := n.data.left - TIMER_TICK } }
  have hfst : (pre ++ x.tick :: r).map Prod.fst = (pre ++ x :: r).map Prod.fst := by
    rw [List.map_append, List.map_append]
    rfl
  have hnext' : ∀ b, Nodes.nextOf (mng.nodes.set x.1 n') b = Nodes.nextOf mng.nodes b :=
    Nodes.nextOf_set_data hn _
  have hother : ∀ b, b ≠ x.1 → Nodes.dataOf (mng.nodes.set x.1 n') b = Nodes.dataOf mng.nodes b :=
    fun b hb => Nodes.dataOf_congr (Nodes.set_of_ne hb n')
  refine ⟨mng.store x.1 n', ?_, ?_, ⟨rfl, rfl⟩⟩
  · unfold timerTurn
    rw [Nodes.load_some hn, except_ok_bind]
    dsimp only
    have hleft : ¬n.data.left < TIMER_TICK := by
      rw [hd]
      exact of_decide_eq_false hx
    rw [if_neg hleft, except_pure]
    exact congrArg (fun p => Except.ok (TimerTurn.passed (mng.store x.1 n') p (some x.1))) hnext
  · have hothers : ∀ y ∈ pre ++ r, y.1 ≠ x.1 := fun y hy he => by
      refine (List.nodup_cons.mp (List.nodup_middle.mp hnd)).1 ?_
      rw [← List.map_append, ← he]
      exact List.mem_map_of_mem hy
    have hcase : ∀ y ∈ pre ++ x.tick :: r, y = x.tick ∨ y ∈ pre ++ r := fun y hy => by
      rcases List.mem_append.mp hy with hy | hy
      · exact Or.inr (List.mem_append_left _ hy)
      · rcases List.mem_cons.mp hy with hy | hy
        · exact Or.inl hy
        · exact Or.inr (List.mem_append_right _ hy)
    have hold : ∀ y ∈ pre ++ r, y ∈ pre ++ x :: r := fun y hy => by
      rcases List.mem_append.mp hy with hy | hy
      · exact List.mem_append_left _ hy
      · exact List.mem_append_right _ (List.mem_cons_of_mem _ hy)
    have hpend : Pending (mng.store x.1 n') (pre ++ x.tick :: r) fr := {
      seg := by
        rw [hfst]
        exact h.seg.congr fun b _ => hnext' b
      data := fun y hy => by
        rcases hcase y hy with rfl | hy
        · refine (Nodes.dataOf_of_node (Nodes.set_self hn n')).trans ?_
          change some { n.data with left := n.data.left - TIMER_TICK } = _
          rw [hd]
          rfl
        · exact (hother y.1 (hothers y hy)).trans (h.data y (hold y hy))
      fn := fun y hy => by
        rcases hcase y hy with rfl | hy
        · exact h.fn x hmem
        · exact h.fn y (hold y hy)
      tail := by
        rw [hfst]
        exact h.tail
      free := h.free.congr fun b _ => hnext' b
      apart := fun y hy => by
        rcases hcase y hy with rfl | hy
        · exact h.apart x hmem
        · exact h.apart y (hold y hy) }
    refine ⟨hpend, fun b m hb => ⟨?_, fun y hy => ?_, hb.free⟩, fun hc => hc⟩
    · exact (Nodes.set_of_ne (hb.list x hmem).symm n').trans hb.node
    · rcases hcase y hy with rfl | hy
      · exact hb.list x hmem
      · exact hb.list y (hold y hy)

/-- A turn at a timer that is due: it is taken out, and called if its container is there. -/
theorem timerTurn_expired {pre r : List (Timed F P)} {x : Timed F P}
    (h : Pending mng (pre ++ x :: r) fr) {prev : Option Nat}
    (hprev : pre ≠ [] → prev = (pre.map Prod.fst).getLast?) (hx : x.due = true) :
    ∃ mng' prev' n, timerTurn mng x.1 prev =
        .ok (.expired mng' prev' (mng.isLive x.2.timecon)) ∧ Unlinked mng pre x r fr n mng' := by
  have hmem : x ∈ pre ++ x :: r := List.mem_append_right _ List.mem_cons_self
  obtain ⟨n, hn, hd⟩ := h.node hmem
  obtain ⟨mng', prev', n', hun, hout⟩ := h.timerUnlink_pending hprev
  refine ⟨mng', prev', n', ?_, hout⟩
  unfold timerTurn
  rw [Nodes.load_some hn, except_ok_bind]
  dsimp only
  have hleft : n.data.left < TIMER_TICK := by
    rw [hd]
    exact of_decide_eq_true hx
  rw [if_pos hleft, hun, except_ok_bind]
  dsimp only
  rw [Nodes.load_some hout.node.node, except_ok_bind]
  dsimp only
  rw [hout.data, if_neg fun he => h.fn x hmem (Option.isNone_iff_eq_none.mp he)]
  unfold ZTimer.isLive
  rw [hout.same.container]
  rfl

end Pending

end Zcrt
