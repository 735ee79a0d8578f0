/-
  The links of the event manager and the lists they stand for.

  * `EvtRep`: each list of links holds what a list of `Event` does, and no node is in two.
  * `registerEx_rep`, `unregister_rep`: the functions do to the links what those of `Event` do to
    the lists.
-/
import Zcrt.Core.EvtHeap

namespace Zcrt

open Lib

variable {F P : Type} {w w' : EvtHeap F P} {mng mng' : ZEvent F P}

namespace EvtHeap

/-- The first node of the free list, or of the list of an event. -/
def first (w : EvtHeap F P) : Option UInt32 → Option Nat
  | none => w.freelist
  | some evtid => w.evtlist evtid

end EvtHeap

/-- The free nodes, or the subscriptions of an event. -/
def ZEvent.content (mng : ZEvent F P) : Option UInt32 → List (ZEventCB F P)
  | none => mng.freelist
  | some evtid => mng.evtlist evtid

/-- The lists of `w` go through the nodes `ls` and hold what those of `mng` do. -/
structure EvtRep (w : EvtHeap F P) (mng : ZEvent F P) (ls : Option UInt32 → List Nat) : Prop where
  seg : ∀ k, Seg (Nodes.nextOf w.nodes) (w.first k) (ls k) none
  cbs : ∀ k, (ls k).map (Nodes.dataOf w.nodes) = (mng.content k).map some
  apart : ∀ k k' a, a ∈ ls k → a ∈ ls k' → k = k'
  freesize : w.freesize = mng.freesize
  last : w.lastEvtid = mng.lastEvtid

theorem evtRep_init :
    EvtRep (EvtHeap.manageInit : EvtHeap F P) zcrtEventManageInit fun _ => [] where
  seg := fun k => by cases k <;> rfl
  cbs := fun k => by cases k <;> rfl
  apart := fun _ _ a ha => absurd ha List.not_mem_nil
  freesize := rfl
  last := rfl

namespace EvtRep

variable {ls : Option UInt32 → List Nat}

theorem node (h : EvtRep w mng ls) {k : Option UInt32} {a : Nat} (ha : a ∈ ls k) :
    ∃ n, w.nodes[a]? = some n := by
  obtain ⟨n, hn⟩ := (h.seg k).live ha
  obtain ⟨m, hm, -⟩ := Option.map_eq_some_iff.mp hn
  exact ⟨m, hm⟩

/-- A walk of so many steps ends. -/
theorem length_le (h : EvtRep w mng ls) (k : Option UInt32) : (ls k).length ≤ w.nodes.length := by
  have hsub : ls k ⊆ List.range w.nodes.length := fun a ha => by
    obtain ⟨n, hn⟩ := h.node ha
    exact List.mem_range.mpr (Nodes.lt_of_node hn)
  have hle := ((h.seg k).nodup.subperm hsub).length_le
  rwa [List.length_range] at hle

/-- A list edited. No other list's nodes are written, and what comes into it was in no other. -/
theorem edit (h : EvtRep w mng ls) (k : Option UInt32) {l : List Nat}
    (hseg : Seg (Nodes.nextOf w'.nodes) (w'.first k) l none)
    (hcbs : l.map (Nodes.dataOf w'.nodes) = (mng'.content k).map some)
    (hfirst : ∀ k', k' ≠ k → w'.first k' = w.first k')
    (hnode : ∀ k', k' ≠ k → ∀ a ∈ ls k', w'.nodes[a]? = w.nodes[a]?)
    (hcontent : ∀ k', k' ≠ k → mng'.content k' = mng.content k')
    (hnew : ∀ a ∈ l, ∀ k', k' ≠ k → a ∉ ls k')
    (hsize : w'.freesize = mng'.freesize) (hlast : w'.lastEvtid = mng'.lastEvtid) :
    EvtRep w' mng' (Function.update ls k l) where
  seg := fun k' => by
    by_cases hk : k' = k
    · rw [hk, Function.update_self]
      exact hseg
    · rw [Function.update_of_ne hk, hfirst k' hk]
      exact (h.seg k').congr fun a ha => Nodes.nextOf_congr (hnode k' hk a ha)
  cbs := fun k' => by
    by_cases hk : k' = k
    · rw [hk, Function.update_self]
      exact hcbs
    · rw [Function.update_of_ne hk, hcontent k' hk, ← h.cbs]
      exact List.map_congr_left fun a ha => Nodes.dataOf_congr (hnode k' hk a ha)
  apart := fun k1 k2 a h1 h2 => by
    by_cases hk1 : k1 = k
    · by_cases hk2 : k2 = k
      · rw [hk1, hk2]
      · rw [hk1, Function.update_self] at h1
        rw [Function.update_of_ne hk2] at h2
        exact absurd h2 (hnew a h1 k2 hk2)
    · rw [Function.update_of_ne hk1] at h1
      by_cases hk2 : k2 = k
      · rw [hk2, Function.update_self] at h2
        exact absurd h1 (hnew a h2 k1 hk1)
      · rw [Function.update_of_ne hk2] at h2
        exact h.apart k1 k2 a h1 h2
  freesize := hsize
  last := hlast

/-- The free list edited. -/
theorem edit_free (h : EvtRep w mng ls) {l : List Nat} {fl : List (ZEventCB F P)} {size : Int32}
    (hseg : Seg (Nodes.nextOf w'.nodes) w'.freelist l none)
    (hcbs : l.map (Nodes.dataOf w'.nodes) = fl.map some)
    (hnew : ∀ b ∈ l, b ∈ ls none ∨ ∀ k, b ∉ ls k)
    (hnode : ∀ e, ∀ b ∈ ls (some e), w'.nodes[b]? = w.nodes[b]?)
    (hlists : w'.evtlist = w.evtlist) (hsize : w'.freesize = size)
    (hlast : w'.lastEvtid = w.lastEvtid) :
    EvtRep w' { mng with freelist := fl, freesize := size } (Function.update ls none l) := by
  refine h.edit none hseg hcbs (fun k hk => ?_) (fun k hk => ?_) (fun k hk => ?_)
    (fun b hb k hk hbk => ?_) hsize (hlast.trans h.last)
  · cases k with
    | none => exact absurd rfl hk
    | some e => exact congrFun hlists e
  · cases k with
    | none => exact absurd rfl hk
    | some e => exact hnode e
  · cases k with
    | none => exact absurd rfl hk
    | some e => rfl
  · rcases hnew b hb with hfree | hno
    · exact hk (h.apart k none b hbk hfree)
    · exact hno k hbk

/-- The list of an event edited. -/
theorem edit_event (h : EvtRep w mng ls) {evtid : UInt32} {l : List Nat}
    {c : List (ZEventCB F P)}
    (hseg : Seg (Nodes.nextOf w'.nodes) (w'.evtlist evtid) l none)
    (hcbs : l.map (Nodes.dataOf w'.nodes) = c.map some)
    (hnew : ∀ b ∈ l, b ∈ ls (some evtid) ∨ ∀ k, b ∉ ls k)
    (hnode : ∀ k b, b ∈ ls k → b ∉ ls (some evtid) → w'.nodes[b]? = w.nodes[b]?)
    (hlists : ∀ e, e ≠ evtid → w'.evtlist e = w.evtlist e) (hfree : w'.freelist = w.freelist)
    (hsize : w'.freesize = w.freesize) (hlast : w'.lastEvtid = w.lastEvtid) :
    EvtRep w' (mng.setList evtid c) (Function.update ls (some evtid) l) := by
  refine h.edit (some evtid) hseg (hcbs.trans ?_) (fun k hk => ?_) (fun k hk b hb => ?_)
    (fun k hk => ?_) (fun b hb k hk hbk => ?_) (hsize.trans h.freesize) (hlast.trans h.last)
  · change _ = ((mng.setList evtid c).evtlist evtid).map some
    rw [ZEvent.setList_self]
  · cases k with
    | none => exact hfree
    | some e => exact hlists e fun he => hk (congrArg some he)
  · exact hnode k b hb fun hb' => hk (h.apart k _ b hb hb')
  · cases k with
    | none => rfl
    | some e => exact ZEvent.setList_of_ne _ _ fun he => hk (congrArg some he)
  · rcases hnew b hb with hin | hno
    · exact hk (h.apart k _ b hbk hin)
    · exact hno k hbk

/-! ## A node got, and given back -/

/-- The node `n` at `a`, in no list. -/
structure Got (w : EvtHeap F P) (mng : ZEvent F P) (ls : Option UInt32 → List Nat) (a : Nat)
    (n : Node (ZEventCB F P)) (w' : EvtHeap F P) (mng' : ZEvent F P)
    (ls' : Option UInt32 → List Nat) : Prop where
  rep : EvtRep w' mng' ls'
  loose : ∀ k, a ∉ ls' k
  node : w'.nodes[a]? = some n
  evtlist : w'.evtlist = w.evtlist
  lists : mng'.evtlist = mng.evtlist
  same : ∀ evtid, ls' (some evtid) = ls (some evtid)

/-- No node is free: one is allocated. -/
theorem mallocCb_new (h : EvtRep w mng ls) (hls : ls none = []) (mem : Bool) (cb : ZEventCB F P) :
    w.mallocCb mem cb.pri cb.evtType cb.fn cb.p1 cb.p2 = .ok (none, w) ∧
      zcrtEventMallocCb mng mem cb.pri cb.evtType cb.fn cb.p1 cb.p2 = (none, mng) ∨
    ∃ w', w.mallocCb mem cb.pri cb.evtType cb.fn cb.p1 cb.p2 = .ok (some w.nodes.length, w') ∧
      zcrtEventMallocCb mng mem cb.pri cb.evtType cb.fn cb.p1 cb.p2 = (some cb, mng) ∧
      Got w mng ls w.nodes.length ⟨cb, none⟩ w' mng ls := by
  have hseg := h.seg none
  have hcbs := h.cbs none
  rw [hls] at hseg hcbs
  have hfree : w.freelist = none := hseg
  have hfree' : mng.freelist = [] := (List.map_eq_nil_iff.mp hcbs.symm :)
  have hmalloc : w.mallocCb mem cb.pri cb.evtType cb.fn cb.p1 cb.p2 =
      if mem then .ok (some w.nodes.length, { w with nodes := w.nodes ++ [⟨cb, none⟩] })
      else .ok (none, w) := by
    unfold EvtHeap.mallocCb
    split
    · next hsome => exact nomatch hfree.symm.trans hsome
    · rfl
  rw [hmalloc]
  unfold zcrtEventMallocCb
  rw [hfree']
  cases mem with
  | false => exact Or.inl ⟨rfl, rfl⟩
  | true =>
      let w' : EvtHeap F P := { w with nodes := w.nodes ++ [⟨cb, none⟩] }
      have hlt : ∀ k a, a ∈ ls k → a < w.nodes.length := fun k a ha => by
        obtain ⟨m, hm⟩ := h.node ha
        exact Nodes.lt_of_node hm
      have hkept : ∀ k a, a ∈ ls k → w'.nodes[a]? = w.nodes[a]? := fun k a ha =>
        List.getElem?_append_left (hlt k a ha)
      refine Or.inr ⟨w', rfl, rfl, ?_⟩
      exact {
        rep := {
          seg := fun k => (h.seg k).congr fun a ha => Nodes.nextOf_congr (hkept k a ha)
          cbs := fun k => by
            rw [← h.cbs]
            exact List.map_congr_left fun a ha => Nodes.dataOf_congr (hkept k a ha)
          apart := h.apart
          freesize := h.freesize
          last := h.last }
        loose := fun k ha => absurd (hlt k _ ha) (Nat.lt_irrefl _)
        node := (List.getElem?_append_right (Nat.le_refl _)).trans (by rw [Nat.sub_self]; rfl)
        evtlist := rfl
        lists := rfl
        same := fun _ => rfl }

/-- The first of the free nodes. -/
theorem mallocCb_reuse (h : EvtRep w mng ls) {a : Nat} {l : List Nat} (hls : ls none = a :: l)
    (mem : Bool) (cb : ZEventCB F P) :
    ∃ w' mng' ls', w.mallocCb mem cb.pri cb.evtType cb.fn cb.p1 cb.p2 = .ok (some a, w') ∧
      zcrtEventMallocCb mng mem cb.pri cb.evtType cb.fn cb.p1 cb.p2 = (some cb, mng') ∧
      Got w mng ls a ⟨cb, none⟩ w' mng' ls' := by
  have hseg := h.seg none
  have hcbs := h.cbs none
  obtain ⟨m, hm⟩ := h.node (k := none) (a := a) (by rw [hls]; exact List.mem_cons_self)
  rw [hls] at hseg hcbs
  have hfree : w.freelist = some a := hseg.1
  obtain ⟨c, fl, hfree'⟩ : ∃ c fl, mng.freelist = c :: fl := by
    cases hc : mng.freelist with
    | nil =>
        rw [show mng.content none = [] from hc] at hcbs
        exact nomatch hcbs
    | cons c fl => exact ⟨c, fl, rfl⟩
  have hrest : l.map (Nodes.dataOf w.nodes) = fl.map some := by
    rw [show mng.content none = c :: fl from hfree', List.map_cons, List.map_cons] at hcbs
    exact (List.cons.inj hcbs).2
  let n : Node (ZEventCB F P) := ⟨cb, none⟩
  let w1 : EvtHeap F P := { w with freelist := m.next, freesize := w.freesize - 1 }
  let mng1 : ZEvent F P := { mng with freelist := fl, freesize := mng.freesize - 1 }
  have hother : ∀ b, b ≠ a → (w1.store a n).nodes[b]? = w.nodes[b]? := fun b hb =>
    Nodes.set_of_ne hb n
  have hloose : ∀ k, a ∈ ls k → k = none := fun k ha =>
    h.apart k none a ha (by rw [hls]; exact List.mem_cons_self)
  have hne : ∀ e, ∀ b ∈ ls (some e), b ≠ a := fun e b hb he =>
    absurd (hloose (some e) (he ▸ hb)) (by simp)
  have hnel : ∀ b ∈ l, b ≠ a := fun b hb he => (List.nodup_cons.mp hseg.nodup).1 (he ▸ hb)
  have hrep : EvtRep (w1.store a n) mng1 (Function.update ls none l) := by
    refine h.edit_free ?_ ?_ (fun b hb => Or.inl ?_) (fun e b hb => hother b (hne e b hb)) rfl
      (congrArg (· - 1) h.freesize) rfl
    · exact hseg.pop (Nodes.nextOf_of_node hm) fun b hb => Nodes.nextOf_congr (hother b (hnel b hb))
    · refine (List.map_congr_left fun b hb => ?_).trans hrest
      exact Nodes.dataOf_congr (hother b (hnel b hb))
    · rw [hls]
      exact List.mem_cons_of_mem _ hb
  unfold EvtHeap.mallocCb zcrtEventMallocCb
  rw [hfree, hfree']
  dsimp only
  rw [Nodes.load_some hm]
  refine ⟨w1.store a n, mng1, Function.update ls none l, rfl, rfl, ?_⟩
  exact {
    rep := hrep
    loose := fun k ha => by
      by_cases hk : k = none
      · rw [hk, Function.update_self] at ha
        exact hnel a ha rfl
      · rw [Function.update_of_ne hk] at ha
        exact hk (hloose k ha)
    node := Nodes.set_self hm n
    evtlist := rfl
    lists := rfl
    same := fun e => Function.update_of_ne (by simp) .. }

/-- A node of these data, off the free list or new; or none, and nothing is changed. -/
theorem mallocCb_rep (h : EvtRep w mng ls) (mem : Bool) (cb : ZEventCB F P) :
    w.mallocCb mem cb.pri cb.evtType cb.fn cb.p1 cb.p2 = .ok (none, w) ∧
      zcrtEventMallocCb mng mem cb.pri cb.evtType cb.fn cb.p1 cb.p2 = (none, mng) ∨
    ∃ a w' mng' ls', w.mallocCb mem cb.pri cb.evtType cb.fn cb.p1 cb.p2 = .ok (some a, w') ∧
      zcrtEventMallocCb mng mem cb.pri cb.evtType cb.fn cb.p1 cb.p2 = (some cb, mng') ∧
      Got w mng ls a ⟨cb, none⟩ w' mng' ls' := by
  cases hls : ls none with
  | nil =>
      rcases h.mallocCb_new hls mem cb with hnone | ⟨w', hw, hmng, hgot⟩
      · exact Or.inl hnone
      · exact Or.inr ⟨_, w', mng, ls, hw, hmng, hgot⟩
  | cons a l =>
      obtain ⟨w', mng', ls', hw, hmng, hgot⟩ := h.mallocCb_reuse hls mem cb
      exact Or.inr ⟨a, w', mng', ls', hw, hmng, hgot⟩

/-- A node in no list put on the free list. -/
theorem freeCb_rep (h : EvtRep w mng ls) {a : Nat} {n : Node (ZEventCB F P)} (ha : ∀ k, a ∉ ls k)
    (hn : w.nodes[a]? = some n) :
    ∃ w', w.freeCb a = .ok w' ∧
      EvtRep w' (zcrtEventFreeCb mng n.data) (Function.update ls none (a :: ls none)) := by
  let m : Node (ZEventCB F P) := { data := { n.data with fn := none }, next := w.freelist }
  let w1 : EvtHeap F P := w.store a m
  have hself : w1.nodes[a]? = some m := Nodes.set_self hn m
  have hother : ∀ k, ∀ b ∈ ls k, w1.nodes[b]? = w.nodes[b]? := fun k b hb =>
    Nodes.set_of_ne (fun he : b = a => ha k (he ▸ hb)) m
  refine ⟨{ w1 with freelist := some a, freesize := w1.freesize + 1 }, ?_, ?_⟩
  · unfold EvtHeap.freeCb
    rw [Nodes.load_some hn]
    rfl
  · refine h.edit_free ?_ ?_ (fun b hb => ?_) (fun e => hother (some e)) rfl
      (congrArg (· + 1) h.freesize) rfl
    · exact (h.seg none).push (fun b hb => Nodes.nextOf_congr (hother none b hb))
        (Nodes.nextOf_of_node hself)
    · change Nodes.dataOf w1.nodes a :: (ls none).map (Nodes.dataOf w1.nodes) = _
      rw [Nodes.dataOf_of_node hself]
      refine congrArg (_ :: ·) ((List.map_congr_left fun b hb => ?_).trans (h.cbs none))
      exact Nodes.dataOf_congr (hother none b hb)
    · rcases List.mem_cons.mp hb with rfl | hb
      · exact Or.inr ha
      · exact Or.inl hb

/-! ## The walks -/

/-- Where a walk stops in a list that ends. -/
theorem walk_ok (past : ZEventCB F P → Bool) {fuel : Nat} {p : Option Nat} (prev : Option Nat)
    {l : List Nat}
    (hseg : Seg (Nodes.nextOf w.nodes) p l none) (hle : l.length ≤ fuel) :
    w.walk past fuel prev p = .ok
      ((l.takeWhile fun a => (Nodes.dataOf w.nodes a).any past).getLast?.or prev,
        (l.dropWhile fun a => (Nodes.dataOf w.nodes a).any past).head?) := by
  induction l generalizing fuel p prev with
  | nil =>
      obtain rfl : p = none := hseg
      cases fuel <;> rfl
  | cons a l ih =>
      obtain ⟨rfl, next, hnext, hseg⟩ := hseg
      obtain ⟨n, hn, rfl⟩ := Option.map_eq_some_iff.mp hnext
      obtain ⟨fuel, rfl⟩ : ∃ f, fuel = f + 1 := ⟨fuel - 1, by rw [List.length_cons] at hle; omega⟩
      have hcb : (Nodes.dataOf w.nodes a).any past = past n.data := by
        rw [Nodes.dataOf_of_node hn]
        rfl
      unfold EvtHeap.walk
      rw [Nodes.load_some hn]
      change (if past n.data then w.walk past fuel (some a) n.next else _) = _
      by_cases hp : past n.data
      · rw [if_pos hp, ih _ hseg (by rw [List.length_cons] at hle; omega),
          List.takeWhile_cons_of_pos (by rw [hcb, hp]),
          List.dropWhile_cons_of_pos (by rw [hcb, hp]),
          List.getLast?_cons]
        cases (l.takeWhile fun a => (Nodes.dataOf w.nodes a).any past).getLast? <;> rfl
      · rw [if_neg hp, List.takeWhile_cons_of_neg (by rw [hcb]; exact hp),
          List.dropWhile_cons_of_neg (by rw [hcb]; exact hp)]
        rfl

/-- The two parts of the list at which a walk stops hold the two parts of what it holds. -/
theorem split_cbs (past : ZEventCB F P → Bool) {l : List Nat} {c : List (ZEventCB F P)}
    (h : l.map (Nodes.dataOf w.nodes) = c.map some) :
    (l.takeWhile fun a => (Nodes.dataOf w.nodes a).any past).map (Nodes.dataOf w.nodes) =
      (c.takeWhile past).map some ∧
      (l.dropWhile fun a => (Nodes.dataOf w.nodes a).any past).map (Nodes.dataOf w.nodes) =
        (c.dropWhile past).map some := by
  let q : Option (ZEventCB F P) → Bool := fun o => o.any past
  have htake := List.takeWhile_map (p := q) (f := Nodes.dataOf w.nodes) (l := l)
  have htake' := List.takeWhile_map (p := q) (f := some) (l := c)
  have hdrop := List.dropWhile_map (p := q) (f := Nodes.dataOf w.nodes) (l := l)
  have hdrop' := List.dropWhile_map (p := q) (f := some) (l := c)
  rw [h] at htake hdrop
  exact ⟨(htake.symm.trans htake' :), (hdrop.symm.trans hdrop' :)⟩

/-! ## The lists of the events edited -/

section Link

variable {evtid : UInt32} {a : Nat} {n : Node (ZEventCB F P)} {k r : List Nat}
  {ck cr : List (ZEventCB F P)}

variable (ck) in
/-- A node in no list put behind the nodes `k` of the list of an event, whose data stay. -/
theorem edit_link (h : EvtRep w mng ls) (ha : ∀ k, a ∉ ls k) (hn : w.nodes[a]? = some n)
    (hl : ls (some evtid) = k ++ r) (hk : k.map (Nodes.dataOf w.nodes) = ck.map some)
    (hr : r.map (Nodes.dataOf w.nodes) = cr.map some)
    (hseg : Seg (Nodes.nextOf w'.nodes) (w'.evtlist evtid) (k ++ a :: r) none)
    (hdata : ∀ b, Nodes.dataOf w'.nodes b = Nodes.dataOf w.nodes b)
    (hnode : ∀ b, b ≠ a → b ∉ ls (some evtid) → w'.nodes[b]? = w.nodes[b]?)
    (hlists : ∀ e, e ≠ evtid → w'.evtlist e = w.evtlist e) (hfree : w'.freelist = w.freelist)
    (hsize : w'.freesize = w.freesize) (hlast : w'.lastEvtid = w.lastEvtid) :
    EvtRep w' (mng.setList evtid (ck ++ n.data :: cr))
      (Function.update ls (some evtid) (k ++ a :: r)) := by
  refine h.edit_event hseg ?_ (fun b hb => ?_)
    (fun k' b hb => hnode b fun he => ha k' (he ▸ hb)) hlists hfree hsize hlast
  · rw [funext hdata, List.map_append, List.map_cons, hk, hr, Nodes.dataOf_of_node hn,
      List.map_append, List.map_cons]
  · rw [hl]
    rcases List.mem_append.mp hb with hb | hb
    · exact Or.inl (List.mem_append_left _ hb)
    · rcases List.mem_cons.mp hb with rfl | hb
      · exact Or.inr ha
      · exact Or.inl (List.mem_append_right _ hb)

/-- A node in no list put first in the list of an event. -/
theorem link_first (h : EvtRep w mng ls) (ha : ∀ k, a ∉ ls k) (hn : w.nodes[a]? = some n)
    (hr : (ls (some evtid)).map (Nodes.dataOf w.nodes) = cr.map some) :
    ∃ w', w.link evtid (some a) none = .ok w' ∧ EvtRep w' (mng.setList evtid (n.data :: cr))
      (Function.update ls (some evtid) (a :: ls (some evtid))) := by
  let w1 : EvtHeap F P := w.store a { n with next := w.evtlist evtid }
  have hne : ∀ b ∈ ls (some evtid), b ≠ a := fun b hb he => ha _ (he ▸ hb)
  refine ⟨w1.setHead evtid (some a), ?_, ?_⟩
  · unfold EvtHeap.link
    rw [Nodes.load_some hn]
    rfl
  · refine h.edit_link [] (k := []) ha hn rfl rfl hr ?_ (Nodes.dataOf_set_next hn _)
      (fun b hb _ => Nodes.set_of_ne hb _) (fun e he => Function.update_of_ne he ..) rfl rfl rfl
    change Seg _ (Function.update w.evtlist evtid (some a) evtid) _ _
    rw [Function.update_self]
    refine Seg.push (h.seg (some evtid)) (fun b hb => Nodes.nextOf_congr ?_) ?_
    · exact Nodes.set_of_ne (hne b hb) _
    · exact Nodes.nextOf_of_node (Nodes.set_self hn _)

/-- A node in no list put behind the node `x` of the list of an event. -/
theorem link_behind (h : EvtRep w mng ls) (ha : ∀ k, a ∉ ls k) (hn : w.nodes[a]? = some n)
    {x : Nat} (hl : ls (some evtid) = (k ++ [x]) ++ r)
    (hk : (k ++ [x]).map (Nodes.dataOf w.nodes) = ck.map some)
    (hr : r.map (Nodes.dataOf w.nodes) = cr.map some) :
    ∃ w', w.link evtid (some a) (some x) = .ok w' ∧
      EvtRep w' (mng.setList evtid (ck ++ n.data :: cr))
        (Function.update ls (some evtid) (k ++ [x] ++ a :: r)) := by
  have hseg := h.seg (some evtid)
  rw [hl, List.append_assoc] at hseg
  have hmem : ∀ b ∈ k ++ x :: r, b ∈ ls (some evtid) := fun b hb => by
    rwa [hl, List.append_assoc]
  have hne : ∀ b ∈ k ++ x :: r, b ≠ a := fun b hb he => ha _ (he ▸ hmem b hb)
  have hx : x ∈ ls (some evtid) := hmem x (by simp)
  have hxa : x ≠ a := hne x (by simp)
  obtain ⟨m, hm⟩ := h.node hx
  let w1 : EvtHeap F P := w.store a { n with next := m.next }
  have hm1 : w1.nodes[x]? = some m := (Nodes.set_of_ne hxa _).trans hm
  let w2 : EvtHeap F P := w1.store x { m with next := some a }
  have hother : ∀ b, b ≠ a → b ≠ x → w2.nodes[b]? = w.nodes[b]? := fun b hb hbx =>
    (Nodes.set_of_ne hbx _).trans (Nodes.set_of_ne hb _)
  have hnx : x ∉ k ++ r := (List.nodup_cons.mp (List.nodup_middle.mp hseg.nodup)).1
  refine ⟨w2, ?_, ?_⟩
  · unfold EvtHeap.link
    dsimp only
    rw [Nodes.load_some hn, Nodes.load_some hm, except_ok_bind]
    dsimp only
    rw [except_ok_bind]
    dsimp only
    rw [Nodes.load_some hm1]
    rfl
  · refine h.edit_link ck ha hn hl hk hr ?_
      (fun b => (Nodes.dataOf_set_next hm1 _ b).trans (Nodes.dataOf_set_next hn _ b))
      (fun b hb hbl => hother b hb fun he => hbl (he ▸ hx)) (fun _ _ => rfl) rfl rfl rfl
    rw [List.append_assoc]
    refine Seg.insert hseg (fun b hb => Nodes.nextOf_congr (hother b ?_ ?_))
      (fun b hb => Nodes.nextOf_congr (hother b ?_ ?_)) ?_ ?_
    · exact hne b (by simp [hb])
    · exact fun he => hnx (he ▸ List.mem_append_left _ hb)
    · exact hne b (by simp [hb])
    · exact fun he => hnx (he ▸ List.mem_append_right _ hb)
    · exact Nodes.nextOf_of_node (Nodes.set_self hm1 _)
    · rw [Nodes.nextOf_of_node hm]
      refine Nodes.nextOf_of_node (n := { n with next := m.next }) ?_
      exact (Nodes.set_of_ne hxa.symm _).trans (Nodes.set_self hn _)

/-- A node in no list put behind the nodes `k` of the list of an event. -/
theorem link_rep (h : EvtRep w mng ls) (ha : ∀ k, a ∉ ls k) (hn : w.nodes[a]? = some n)
    (hl : ls (some evtid) = k ++ r) (hk : k.map (Nodes.dataOf w.nodes) = ck.map some)
    (hr : r.map (Nodes.dataOf w.nodes) = cr.map some) :
    ∃ w', w.link evtid (some a) k.getLast? = .ok w' ∧
      EvtRep w' (mng.setList evtid (ck ++ n.data :: cr))
        (Function.update ls (some evtid) (k ++ a :: r)) := by
  rcases List.eq_nil_or_concat k with rfl | ⟨k, x, rfl⟩
  · obtain rfl : ck = [] := List.map_eq_nil_iff.mp hk.symm
    rw [List.nil_append] at hl
    rw [← hl] at hr ⊢
    exact h.link_first ha hn hr
  · rw [List.concat_eq_append] at hl hk ⊢
    rw [List.getLast?_append, List.getLast?_singleton]
    exact h.link_behind ha hn hl hk hr

variable (ck) in
/-- The node behind `k` out of the list of an event, the data left alone. -/
theorem edit_unlink (h : EvtRep w mng ls) (hl : ls (some evtid) = k ++ a :: r)
    (hk : k.map (Nodes.dataOf w.nodes) = ck.map some)
    (hr : r.map (Nodes.dataOf w.nodes) = cr.map some)
    (hseg : Seg (Nodes.nextOf w'.nodes) (w'.evtlist evtid) (k ++ r) none)
    (hdata : ∀ b, Nodes.dataOf w'.nodes b = Nodes.dataOf w.nodes b)
    (hnode : ∀ b, b ∉ ls (some evtid) → w'.nodes[b]? = w.nodes[b]?)
    (hlists : ∀ e, e ≠ evtid → w'.evtlist e = w.evtlist e) (hfree : w'.freelist = w.freelist)
    (hsize : w'.freesize = w.freesize) (hlast : w'.lastEvtid = w.lastEvtid) :
    EvtRep w' (mng.setList evtid (ck ++ cr)) (Function.update ls (some evtid) (k ++ r)) := by
  refine h.edit_event hseg ?_ (fun b hb => Or.inl ?_) (fun _ b _ => hnode b) hlists hfree hsize
    hlast
  · rw [funext hdata, List.map_append, hk, hr, List.map_append]
  · rw [hl]
    rcases List.mem_append.mp hb with hb | hb
    · exact List.mem_append_left _ hb
    · exact List.mem_append_right _ (List.mem_cons_of_mem _ hb)

/-- The first node taken out of the list of an event. -/
theorem unlink_first (h : EvtRep w mng ls) (hn : w.nodes[a]? = some n)
    (hl : ls (some evtid) = a :: r) (hr : r.map (Nodes.dataOf w.nodes) = cr.map some) :
    ∃ w', w.unlink evtid none a = .ok w' ∧ Nodes.dataOf w'.nodes a = some n.data ∧
      EvtRep w' (mng.setList evtid cr) (Function.update ls (some evtid) r) := by
  have hseg := h.seg (some evtid)
  rw [hl] at hseg
  have hfirst : w.evtlist evtid = some a := hseg.1
  refine ⟨w.setHead evtid n.next, ?_, Nodes.dataOf_of_node hn, ?_⟩
  · unfold EvtHeap.unlink
    rw [Nodes.load_some hn]
    change (if some a ≠ w.evtlist evtid then _ else _) = _
    rw [if_neg (by rw [hfirst]; exact fun hne => hne rfl)]
    rfl
  · refine h.edit_unlink [] (k := []) hl rfl hr ?_ (fun _ => rfl) (fun _ _ => rfl)
      (fun e he => Function.update_of_ne he ..) rfl rfl rfl
    change Seg _ (Function.update w.evtlist evtid n.next evtid) _ _
    rw [Function.update_self]
    exact Seg.pop hseg (Nodes.nextOf_of_node hn) fun _ _ => rfl

/-- The node behind `x` taken out of the list of an event. -/
theorem unlink_behind (h : EvtRep w mng ls) (hn : w.nodes[a]? = some n) {x : Nat}
    (hl : ls (some evtid) = (k ++ [x]) ++ a :: r)
    (hk : (k ++ [x]).map (Nodes.dataOf w.nodes) = ck.map some)
    (hr : r.map (Nodes.dataOf w.nodes) = cr.map some) :
    ∃ w', w.unlink evtid (some x) a = .ok w' ∧ Nodes.dataOf w'.nodes a = some n.data ∧
      EvtRep w' (mng.setList evtid (ck ++ cr))
        (Function.update ls (some evtid) (k ++ [x] ++ r)) := by
  have hseg := h.seg (some evtid)
  rw [hl] at hseg
  have hnd := List.nodup_cons.mp (List.nodup_middle.mp hseg.nodup)
  have hx : x ∈ ls (some evtid) := by
    rw [hl]
    simp
  have hxa : x ≠ a := fun he => hnd.1 (he ▸ by simp)
  obtain ⟨m, hm⟩ := h.node hx
  have hnot : some a ≠ w.evtlist evtid := fun he => by
    have hhead : w.evtlist evtid = (k ++ [x] ++ a :: r).head? := hseg.head
    rw [hhead] at he
    refine hnd.1 (List.mem_append_left _ ?_)
    cases k with
    | nil =>
        obtain rfl := Option.some.inj he
        exact List.mem_singleton_self _
    | cons b k =>
        obtain rfl := Option.some.inj he
        exact List.mem_cons_self
  refine ⟨w.store x { m with next := n.next }, ?_, ?_, ?_⟩
  · unfold EvtHeap.unlink
    rw [Nodes.load_some hn]
    change (if some a ≠ w.evtlist evtid then _ else _) = _
    rw [if_pos hnot]
    dsimp only
    rw [Nodes.load_some hm]
    rfl
  · exact (Nodes.dataOf_congr (Nodes.set_of_ne hxa.symm _)).trans (Nodes.dataOf_of_node hn)
  · refine h.edit_unlink ck hl hk hr ?_ (Nodes.dataOf_set_next hm _)
      (fun b hb => Nodes.set_of_ne (fun he : b = x => hb (he ▸ hx)) _) (fun _ _ => rfl) rfl rfl rfl
    have hnd2 := hnd.2
    rw [List.append_assoc] at hseg hnd2 ⊢
    have hnx : x ∉ k ++ r := (List.nodup_cons.mp (List.nodup_middle.mp hnd2)).1
    refine Seg.unlink hseg
      (fun b hb => Nodes.nextOf_congr (Nodes.set_of_ne (fun he => hnx ?_) _))
      (fun b hb => Nodes.nextOf_congr (Nodes.set_of_ne (fun he => hnx ?_) _)) ?_
    · exact he ▸ List.mem_append_left _ hb
    · exact he ▸ List.mem_append_right _ hb
    · rw [Nodes.nextOf_of_node hn]
      exact Nodes.nextOf_of_node (n := { m with next := n.next }) (Nodes.set_self hm _)

/-- The node behind `k` taken out of the list of an event. -/
theorem unlink_rep (h : EvtRep w mng ls) (hn : w.nodes[a]? = some n)
    (hl : ls (some evtid) = k ++ a :: r) (hk : k.map (Nodes.dataOf w.nodes) = ck.map some)
    (hr : r.map (Nodes.dataOf w.nodes) = cr.map some) :
    ∃ w', w.unlink evtid k.getLast? a = .ok w' ∧ Nodes.dataOf w'.nodes a = some n.data ∧
      EvtRep w' (mng.setList evtid (ck ++ cr)) (Function.update ls (some evtid) (k ++ r)) := by
  rcases List.eq_nil_or_concat k with rfl | ⟨k, x, rfl⟩
  · obtain rfl : ck = [] := List.map_eq_nil_iff.mp hk.symm
    exact h.unlink_first hn hl hr
  · rw [List.concat_eq_append] at hl hk ⊢
    rw [List.getLast?_append, List.getLast?_singleton]
    exact h.unlink_behind hn hl hk hr

/-- It is in no list now. -/
theorem unlinked_loose (h : EvtRep w mng ls) (hl : ls (some evtid) = k ++ a :: r)
    (k' : Option UInt32) : a ∉ Function.update ls (some evtid) (k ++ r) k' := by
  have hseg := h.seg (some evtid)
  rw [hl] at hseg
  intro ha
  by_cases hke : k' = some evtid
  · rw [hke, Function.update_self] at ha
    exact (List.nodup_cons.mp (List.nodup_middle.mp hseg.nodup)).1 ha
  · rw [Function.update_of_ne hke] at ha
    exact hke (h.apart k' (some evtid) a ha (by simp [hl]))

end Link

/-! ## The two functions -/

theorem evtlist_eq_none_iff (h : EvtRep w mng ls) (evtid : UInt32) :
    w.evtlist evtid = none ↔ mng.evtlist evtid = [] := by
  have hseg := h.seg (some evtid)
  have hcbs := h.cbs (some evtid)
  cases hl : ls (some evtid) with
  | nil =>
      rw [hl] at hseg hcbs
      exact iff_of_true hseg (List.map_eq_nil_iff.mp hcbs.symm :)
  | cons a l =>
      rw [hl] at hseg hcbs
      refine iff_of_false (fun hn => ?_) fun hn => ?_
      · exact nomatch hn.symm.trans hseg.1
      · rw [show mng.content (some evtid) = [] from hn] at hcbs
        exact nomatch hcbs

/-- The walk of the two functions through the list of an event. -/
theorem walk_event (h : EvtRep w mng ls) (past : ZEventCB F P → Bool) (evtid : UInt32) :
    w.walk past w.nodes.length none (w.evtlist evtid) = .ok
      (((ls (some evtid)).takeWhile fun a => (Nodes.dataOf w.nodes a).any past).getLast?,
        ((ls (some evtid)).dropWhile fun a => (Nodes.dataOf w.nodes a).any past).head?) := by
  have hwalk := walk_ok past none (h.seg (some evtid)) (h.length_le _)
  rw [Option.or_none] at hwalk
  exact hwalk

section Register

variable {evtid : UInt32} {mem : Bool} {cb : ZEventCB F P}

/-- No node is to be had: an empty list is left as it is, and in another it writes through
    `NULL`. -/
theorem registerEx_noNode (h : EvtRep w mng ls) (hguard : ¬(evtid ≥ ZCRT_MAX_EVT ∨ cb.fn.isNone))
    (hw : w.mallocCb mem cb.pri cb.evtType cb.fn cb.p1 cb.p2 = .ok (none, w))
    (hmng : zcrtEventMallocCb mng mem cb.pri cb.evtType cb.fn cb.p1 cb.p2 = (none, mng)) :
    (zcrtEventRegisterEx (some mng) mem cb.pri evtid cb.evtType cb.fn cb.p1 cb.p2 = none ∧
      EvtHeap.registerEx (some w) mem cb.pri evtid cb.evtType cb.fn cb.p1 cb.p2 =
        .error .pointer) ∨
    zcrtEventRegisterEx (some mng) mem cb.pri evtid cb.evtType cb.fn cb.p1 cb.p2 =
        some (.success, some mng) ∧
      EvtHeap.registerEx (some w) mem cb.pri evtid cb.evtType cb.fn cb.p1 cb.p2 =
        .ok (.success, some w) := by
  obtain ⟨hnil, hcons⟩ := zcrtEventRegisterEx_of_noNode hguard hmng
  unfold EvtHeap.registerEx
  dsimp only
  rw [if_neg hguard, hw, except_ok_bind]
  dsimp only
  by_cases hnone : w.evtlist evtid = none
  · have hsame : w.setHead evtid none = w := by
      unfold EvtHeap.setHead
      rw [← hnone, Function.update_eq_self]
    rw [if_pos hnone, hsame]
    exact Or.inr ⟨hnil ((h.evtlist_eq_none_iff evtid).mp hnone), rfl⟩
  · refine Or.inl ⟨hcons (mt (h.evtlist_eq_none_iff evtid).mpr hnone), ?_⟩
    rw [if_neg hnone, h.walk_event, except_ok_bind]
    dsimp only
    unfold EvtHeap.link
    split <;> rfl

/-- The node got is put into an empty list. -/
theorem registerEx_first (h : EvtRep w mng ls) {a : Nat} (ha : ∀ k, a ∉ ls k)
    (hn : w.nodes[a]? = some ⟨cb, none⟩) :
    EvtRep (w.setHead evtid (some a)) (mng.setList evtid [cb])
      (Function.update ls (some evtid) [a]) := by
  refine h.edit_event ?_ ?_ (fun b hb => Or.inr ?_) (fun _ _ _ _ => rfl)
    (fun e he => Function.update_of_ne he ..) rfl rfl rfl
  · change Seg _ (Function.update w.evtlist evtid (some a) evtid) _ _
    rw [Function.update_self]
    exact ⟨rfl, none, Nodes.nextOf_of_node hn, rfl⟩
  · exact congrArg (· :: []) (Nodes.dataOf_of_node hn)
  · rw [List.mem_singleton.mp hb]
    exact ha

/-- The node got goes behind those of its priority. -/
theorem registerEx_got (hguard : ¬(evtid ≥ ZCRT_MAX_EVT ∨ cb.fn.isNone)) {a : Nat}
    {w1 : EvtHeap F P} {mng1 : ZEvent F P} {ls1 : Option UInt32 → List Nat}
    (hw : w.mallocCb mem cb.pri cb.evtType cb.fn cb.p1 cb.p2 = .ok (some a, w1))
    (hgot : Got w mng ls a ⟨cb, none⟩ w1 mng1 ls1) :
    ∃ w' l, EvtHeap.registerEx (some w) mem cb.pri evtid cb.evtType cb.fn cb.p1 cb.p2 =
        .ok (.success, some w') ∧
      EvtRep w' (mng1.setList evtid (insertCb cb.pri cb (mng1.evtlist evtid)))
        (Function.update ls1 (some evtid) l) ∧ ls1 (some evtid) ⊆ l := by
  have hcbs := hgot.rep.cbs (some evtid)
  unfold EvtHeap.registerEx
  dsimp only
  rw [if_neg hguard, hw, except_ok_bind]
  dsimp only
  by_cases hnone : w1.evtlist evtid = none
  · have hl := (hgot.rep.evtlist_eq_none_iff evtid).mp hnone
    rw [show mng1.content (some evtid) = [] from hl] at hcbs
    rw [if_pos hnone, hl]
    refine ⟨_, [a], rfl, hgot.rep.registerEx_first hgot.loose hgot.node, ?_⟩
    rw [List.map_eq_nil_iff.mp hcbs]
    exact List.nil_subset _
  · let atLeast : Nat → Bool := fun a => (Nodes.dataOf w1.nodes a).any fun cur => cur.pri ≥ cb.pri
    have happ := List.takeWhile_append_dropWhile (p := atLeast) (l := ls1 (some evtid))
    obtain ⟨hk, hr⟩ := split_cbs (fun cur => cur.pri ≥ cb.pri) hcbs
    obtain ⟨w', hlink, hrep⟩ := hgot.rep.link_rep hgot.loose hgot.node happ.symm hk hr
    refine ⟨w', _, ?_, hrep, fun b hb => ?_⟩
    · rw [if_neg hnone, hgot.rep.walk_event, except_ok_bind]
      dsimp only
      rw [hlink]
      rfl
    · rw [← happ] at hb
      rcases List.mem_append.mp hb with hb | hb
      · exact List.mem_append_left _ hb
      · exact List.mem_append_right _ (List.mem_cons_of_mem _ hb)

end Register

/-- `zcrt_event_register_ex` on the links does what it does on the lists; where no node can be had
    for a list that is not empty it writes through `NULL`. -/
theorem registerEx_rep (h : EvtRep w mng ls) (mem : Bool) (priority : UInt8) (evtid : UInt32)
    (evtType : EZCRTEvtType) (cb : Option F) (p1 p2 : P) :
    (zcrtEventRegisterEx (some mng) mem priority evtid evtType cb p1 p2 = none ∧
      EvtHeap.registerEx (some w) mem priority evtid evtType cb p1 p2 = .error .pointer) ∨
    ∃ ret mng' w' ls',
      zcrtEventRegisterEx (some mng) mem priority evtid evtType cb p1 p2 = some (ret, some mng') ∧
      EvtHeap.registerEx (some w) mem priority evtid evtType cb p1 p2 = .ok (ret, some w') ∧
      EvtRep w' mng' ls' ∧ ∀ e, ls (some e) ⊆ ls' (some e) := by
  by_cases hguard : evtid ≥ ZCRT_MAX_EVT ∨ cb.isNone
  · unfold zcrtEventRegisterEx EvtHeap.registerEx
    dsimp only
    rw [if_pos hguard, if_pos hguard]
    exact Or.inr ⟨_, mng, w, ls, rfl, rfl, h, fun _ _ ha => ha⟩
  let sub : ZEventCB F P := { fn := cb, pri := priority, evtType := evtType, p1 := p1, p2 := p2 }
  rcases h.mallocCb_rep mem sub with ⟨hw, hmng⟩ | ⟨a, w1, mng1, ls1, hw, hmng, hgot⟩
  · have hsub : ¬(evtid ≥ ZCRT_MAX_EVT ∨ sub.fn.isNone) := hguard
    rcases h.registerEx_noNode hsub hw hmng with hnull | ⟨hlist, hlink⟩
    · exact Or.inl hnull
    · exact Or.inr ⟨.success, mng, w, ls, hlist, hlink, h, fun _ _ ha => ha⟩
  · have hsub : ¬(evtid ≥ ZCRT_MAX_EVT ∨ sub.fn.isNone) := hguard
    obtain ⟨w', l, hlink, hrep, hin⟩ := registerEx_got hsub hw hgot
    refine Or.inr ⟨.success, _, w', _, zcrtEventRegisterEx_of_malloc hsub hmng, hlink, hrep,
      fun e => ?_⟩
    rw [← hgot.same e]
    by_cases he : e = evtid
    · rw [he, Function.update_self]
      exact hin
    · rw [Function.update_of_ne fun hs => he (Option.some.inj hs)]
      exact fun _ ha => ha

/-! The first element of which `p` holds, from where a walk past the others stops. -/

theorem find?_of_dropWhile_nil {A : Type} {p : A → Bool} {c : List A}
    (h : (c.dropWhile fun x => !p x) = []) : c.find? p = none := by
  refine List.find?_eq_none.mpr fun x hx hp => ?_
  have := List.dropWhile_eq_nil_iff.mp h x hx
  rw [hp] at this
  exact nomatch this

theorem eraseP_of_dropWhile_cons {A : Type} {p : A → Bool} {c r : List A} {x : A}
    (h : (c.dropWhile fun x => !p x) = x :: r) :
    c.find? p = some x ∧ c.eraseP p = (c.takeWhile fun x => !p x) ++ r := by
  induction c with
  | nil => exact nomatch h
  | cons y c ih =>
      by_cases hp : p y
      · rw [List.dropWhile_cons_of_neg (by simp [hp])] at h
        obtain ⟨rfl, rfl⟩ := List.cons.inj h
        rw [List.find?_cons_of_pos hp, List.eraseP_cons_of_pos hp,
          List.takeWhile_cons_of_neg (by simp [hp])]
        exact ⟨rfl, rfl⟩
      · rw [List.dropWhile_cons_of_pos (by simp [hp])] at h
        rw [List.find?_cons_of_neg hp, List.eraseP_cons_of_neg hp,
          List.takeWhile_cons_of_pos (by simp [hp]), (ih h).2]
        exact ⟨(ih h).1, rfl⟩

section Unregister

variable [DecidableEq F] [DecidableEq P]

/-- The assertion of `zcrt_event_unregister`, on the links and on the lists. -/
theorem unregister_assert (h : EvtRep w mng ls) {evtid : UInt32} {cb : Option F}
    (hlast : w.lastEvtid = evtid) (he : evtid < ZCRT_MAX_EVT) (hcb : cb ≠ none) (p1 p2 : P) :
    EvtHeap.unregister (some w) evtid cb p1 p2 = .error .assert ∧
      zcrtEventUnregister (some mng) evtid cb p1 p2 = none := by
  have hguard : ¬(evtid ≥ ZCRT_MAX_EVT ∨ cb.isNone) := by
    rw [not_or, Option.isNone_iff_eq_none]
    exact ⟨UInt32.not_le.mpr he, hcb⟩
  unfold EvtHeap.unregister zcrtEventUnregister
  dsimp only
  rw [if_neg hguard, if_neg hguard, if_pos hlast, if_pos (h.last.symm.trans hlast)]
  exact ⟨rfl, rfl⟩

/-- Past the assertion `zcrt_event_unregister` on the links does what it does on the lists. -/
theorem unregister_rep (h : EvtRep w mng ls) {evtid : UInt32} (cb : Option F) (p1 p2 : P)
    (hlast : evtid < ZCRT_MAX_EVT → cb ≠ none → w.lastEvtid ≠ evtid) :
    ∃ mng' w' ls', zcrtEventUnregister (some mng) evtid cb p1 p2 = some (some mng') ∧
      EvtHeap.unregister (some w) evtid cb p1 p2 = .ok (some w') ∧ EvtRep w' mng' ls' ∧
      ∀ e, ¬(e = evtid ∧ evtid < ZCRT_MAX_EVT ∧ cb ≠ none) → ls' (some e) = ls (some e) := by
  unfold zcrtEventUnregister EvtHeap.unregister
  dsimp only
  by_cases hguard : evtid ≥ ZCRT_MAX_EVT ∨ cb.isNone
  · rw [if_pos hguard, if_pos hguard]
    exact ⟨mng, w, ls, rfl, rfl, h, fun _ _ => rfl⟩
  have hvalid : evtid < ZCRT_MAX_EVT ∧ cb ≠ none := by
    rw [not_or, Option.isNone_iff_eq_none] at hguard
    exact ⟨UInt32.not_le.mp hguard.1, hguard.2⟩
  have hlast' : w.lastEvtid ≠ evtid := hlast hvalid.1 hvalid.2
  rw [if_neg hguard, if_neg hguard, if_neg hlast', if_neg (by rw [← h.last]; exact hlast')]
  let past : ZEventCB F P → Bool := fun cur => !cur.isSub cb p1 p2
  obtain ⟨hk, hr⟩ := split_cbs past (h.cbs (some evtid))
  have hl : ls (some evtid) = _ ++ _ :=
    (List.takeWhile_append_dropWhile (p := fun a => (Nodes.dataOf w.nodes a).any past)).symm
  rw [h.walk_event past evtid, except_ok_bind]
  dsimp only
  cases hdrop : (ls (some evtid)).dropWhile fun a => (Nodes.dataOf w.nodes a).any past with
  | nil =>
      rw [hdrop] at hr
      have hno : (mng.evtlist evtid).dropWhile past = [] := (List.map_eq_nil_iff.mp hr.symm :)
      have hfind := find?_of_dropWhile_nil hno
      rw [hfind]
      exact ⟨mng, w, ls, rfl, rfl, h, fun _ _ => rfl⟩
  | cons a r =>
      rw [hdrop] at hr hl
      obtain ⟨n, hn⟩ := h.node (k := some evtid) (a := a) (by
        rw [hl]
        exact List.mem_append_right _ List.mem_cons_self)
      obtain ⟨c, cr, hc⟩ : ∃ c cr, (mng.evtlist evtid).dropWhile past = c :: cr := by
        cases hc : (mng.evtlist evtid).dropWhile past with
        | nil =>
            rw [show (mng.content (some evtid)).dropWhile past = [] from hc] at hr
            exact nomatch hr
        | cons c cr => exact ⟨c, cr, rfl⟩
      rw [show (mng.content (some evtid)).dropWhile past = c :: cr from hc, List.map_cons,
        List.map_cons, Nodes.dataOf_of_node hn] at hr
      obtain rfl := Option.some.inj (List.cons.inj hr).1
      obtain ⟨hfind, herase⟩ := eraseP_of_dropWhile_cons hc
      rw [hfind, herase]
      obtain ⟨w1, hunlink, hcb1, hrep1⟩ := h.unlink_rep hn hl hk (List.cons.inj hr).2
      obtain ⟨n1, hn1, hcb⟩ := Option.map_eq_some_iff.mp hcb1
      obtain ⟨w2, hfree, hrep2⟩ := hrep1.freeCb_rep (h.unlinked_loose hl) hn1
      refine ⟨_, w2, _, rfl, ?_, by rw [← hcb]; exact hrep2, fun e he => ?_⟩
      · change (do let w ← w.unlink evtid _ a; _) = _
        rw [hunlink, except_ok_bind, hfree]
        rfl
      · rw [Function.update_of_ne (by simp), Function.update_of_ne]
        exact fun heq => he ⟨Option.some.inj heq, hvalid⟩

end Unregister

end EvtRep

end Zcrt
