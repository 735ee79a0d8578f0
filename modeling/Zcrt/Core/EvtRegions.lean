/-
  What the regions of the event manager do to its lists, node by node: which node is taken, put into
  a list or freed, and which nodes are left alone.

  * `mallocCb_taken`, `place_placed`, `remove_removed`: the region of `_zcrt_Event_malloc_cb`, the
    second of `zcrt_event_register_ex`, and that of `zcrt_event_unregister`.
-/
import Zcrt.Core.EvtThreads

namespace Zcrt

open Lib

variable {F P : Type} {w w' : EvtHeap F P} {mng mng' : ZEvent F P}

/-! ## The regions -/

namespace EvtRep

variable {ls ls' : Option UInt32 → List Nat}

/-- The subscriptions of an event, each with its node. -/
def entries (mng : ZEvent F P) (ls : Option UInt32 → List Nat) (e : UInt32) :
    List (Nat × ZEventCB F P) :=
  (ls (some e)).zip (mng.evtlist e)

theorem length_eq (h : EvtRep w mng ls) (e : UInt32) :
    (ls (some e)).length = (mng.evtlist e).length := by
  have hlen := congrArg List.length (h.cbs (some e))
  rwa [List.length_map, List.length_map] at hlen

theorem entries_fst (h : EvtRep w mng ls) (e : UInt32) :
    (entries mng ls e).map Prod.fst = ls (some e) :=
  List.map_fst_zip (h.length_eq e).le

theorem entries_snd (h : EvtRep w mng ls) (e : UInt32) :
    (entries mng ls e).map Prod.snd = mng.evtlist e :=
  List.map_snd_zip (h.length_eq e).ge

theorem chainFrom_eq {ns : List (Node (ZEventCB F P))} {p : Option Nat} {l : List Nat}
    {c : List (ZEventCB F P)} (hseg : Seg (Nodes.nextOf ns) p l none)
    (hcbs : l.map (Nodes.dataOf ns) = c.map some) {fuel : Nat} (hfuel : l.length ≤ fuel) :
    chainFrom ns fuel p = l.zip c := by
  induction l generalizing p c fuel with
  | nil =>
      obtain rfl : p = none := hseg
      cases fuel <;> rfl
  | cons a l ih =>
      obtain ⟨rfl, next, hnext, hrest⟩ := hseg
      obtain ⟨n, hn, rfl⟩ := Option.map_eq_some_iff.mp hnext
      obtain ⟨fuel, rfl⟩ := Nat.exists_eq_add_one_of_ne_zero (n := fuel)
        (by rw [List.length_cons] at hfuel; omega)
      cases c with
      | nil => exact nomatch hcbs
      | cons x c =>
          rw [List.map_cons, List.map_cons, Nodes.dataOf_of_node hn] at hcbs
          obtain ⟨hx, hcbs⟩ := List.cons.inj hcbs
          rw [chainFrom, hn]
          dsimp only
          rw [ih hrest hcbs (by rw [List.length_cons] at hfuel; omega), Option.some.inj hx,
            List.zip_cons_cons]

theorem subs_eq (h : EvtRep w mng ls) (e : UInt32) : w.subs e = entries mng ls e :=
  chainFrom_eq (h.seg (some e)) (h.cbs (some e)) (h.length_le (some e))

/-- A node taken for the subscription `cb`, off the free list or new. -/
structure Taken (w : EvtHeap F P) (mng : ZEvent F P) (ls : Option UInt32 → List Nat) (a : Nat)
    (cb : ZEventCB F P) (w' : EvtHeap F P) (mng' : ZEvent F P) (ls' : Option UInt32 → List Nat) :
    Prop where
  rep : EvtRep w' mng' ls'
  node : w'.nodes[a]? = some ⟨cb, none⟩
  others : ∀ b, b ≠ a → w'.nodes[b]? = w.nodes[b]?
  evtlist : mng'.evtlist = mng.evtlist
  same : ∀ e, ls' (some e) = ls (some e)
  free : ∀ b, b ∈ ls' none ↔ b ∈ ls none ∧ b ≠ a
  source : a ∈ ls none ∨ a = w.nodes.length

/-- It is in no list now. -/
theorem Taken.loose {a : Nat} {cb : ZEventCB F P} (h : Taken w mng ls a cb w' mng' ls')
    (hrep : EvtRep w mng ls) (k : Option UInt32) : a ∉ ls' k := by
  cases k with
  | none => exact fun ha => ((h.free a).mp ha).2 rfl
  | some e =>
      rw [h.same]
      intro ha
      rcases h.source with hfree | rfl
      · exact nomatch hrep.apart _ _ a ha hfree
      · obtain ⟨n, hn⟩ := hrep.node ha
        exact absurd (Nodes.lt_of_node hn) (Nat.lt_irrefl _)

/-- The nodes that are in no list stay so, and as they are. -/
theorem Taken.keep {a : Nat} {cb : ZEventCB F P} (h : Taken w mng ls a cb w' mng' ls') {b : Nat}
    (hlt : b < w.nodes.length) (hb : ∀ k, b ∉ ls k) :
    w'.nodes[b]? = w.nodes[b]? ∧ ∀ k, b ∉ ls' k := by
  have hne : b ≠ a := by
    rintro rfl
    rcases h.source with hfree | rfl
    · exact hb none hfree
    · exact absurd hlt (Nat.lt_irrefl _)
  refine ⟨h.others b hne, fun k => ?_⟩
  cases k with
  | none => exact fun hin => hb none ((h.free b).mp hin).1
  | some e =>
      rw [h.same]
      exact hb (some e)

theorem Taken.cover {a : Nat} {cb : ZEventCB F P} (h : Taken w mng ls a cb w' mng' ls') {b : Nat}
    (hlt : b < w'.nodes.length) :
    (∃ k, b ∈ ls' k) ∨ b = a ∨ b < w.nodes.length ∧ ∀ k, b ∉ ls k := by
  by_cases hba : b = a
  · exact Or.inr (Or.inl hba)
  · have hlt : b < w.nodes.length := by
      by_contra hge
      have hnone := List.getElem?_eq_none (not_lt.mp hge)
      rw [← h.others b hba, List.getElem?_eq_none_iff] at hnone
      exact absurd hlt (not_lt.mpr hnone)
    by_cases hin : ∃ k, b ∈ ls k
    · obtain ⟨k, hk⟩ := hin
      refine Or.inl ⟨k, ?_⟩
      cases k with
      | none => exact (h.free b).mpr ⟨hk, hba⟩
      | some e =>
          rw [h.same]
          exact hk
    · exact Or.inr (Or.inr ⟨hlt, not_exists.mp hin⟩)

/-- The first free node is the one taken, and the free list goes on behind it. -/
theorem mallocCb_taken (h : EvtRep w mng ls) (cb : ZEventCB F P) :
    ∃ a w' mng' ls', w.mallocCb true cb.pri cb.evtType cb.fn cb.p1 cb.p2 = .ok (some a, w') ∧
      Taken w mng ls a cb w' mng' ls' := by
  cases hls : ls none with
  | nil =>
      rcases h.mallocCb_new hls true cb with ⟨hno, hno'⟩ | ⟨w', hw, -, hgot⟩
      · unfold zcrtEventMallocCb at hno'
        split at hno' <;> exact nomatch (Prod.mk.inj hno').1
      · have hfree : w.freelist = none := by
          have hseg := h.seg none
          rw [hls] at hseg
          exact hseg
        refine ⟨_, w', mng, ls, hw, hgot.rep, hgot.node, fun b hb => ?_, rfl, fun _ => rfl,
          fun b => ?_, Or.inr rfl⟩
        · unfold EvtHeap.mallocCb at hw
          rw [hfree] at hw
          obtain ⟨-, rfl⟩ := Prod.mk.inj (Except.ok.inj hw)
          dsimp only
          rw [List.getElem?_append]
          split
          · rfl
          · rename_i hge
            rw [List.getElem?_singleton, if_neg (by omega), List.getElem?_eq_none (by omega)]
        · rw [hls]
          exact ⟨fun hb => absurd hb List.not_mem_nil, fun hb => absurd hb.1 List.not_mem_nil⟩
  | cons a l =>
      obtain ⟨w', mng', ls', hw, -, hgot⟩ := h.mallocCb_reuse hls true cb
      have hseg := h.seg none
      rw [hls] at hseg
      have hnd := List.nodup_cons.mp hseg.nodup
      obtain ⟨m, hm⟩ := h.node (k := none) (a := a) (by rw [hls]; exact List.mem_cons_self)
      have hfirst : w.freelist = some a := hseg.1
      -- the heap left is the old one with this node written
      unfold EvtHeap.mallocCb at hw
      rw [hfirst] at hw
      dsimp only at hw
      rw [Nodes.load_some hm] at hw
      obtain ⟨-, rfl⟩ := Prod.mk.inj (Except.ok.inj hw)
      have hothers : ∀ b, b ≠ a → (w.nodes.set a ⟨cb, none⟩)[b]? = w.nodes[b]? := fun b hb =>
        Nodes.set_of_ne hb _
      have htail : ls' none = l := by
        refine Seg.unique (hgot.rep.seg none) ?_
        exact hseg.pop (Nodes.nextOf_of_node hm) fun b hb =>
          Nodes.nextOf_congr (hothers b fun he => hnd.1 (he ▸ hb))
      refine ⟨a, { w with freelist := m.next, freesize := w.freesize - 1 }.store a ⟨cb, none⟩, mng',
        ls', ?_, hgot.rep, hgot.node, hothers, hgot.lists, hgot.same, fun b => ?_, Or.inl ?_⟩
      · unfold EvtHeap.mallocCb
        rw [hfirst]
        dsimp only
        rw [Nodes.load_some hm]
        rfl
      · rw [htail, hls]
        refine ⟨fun hb => ⟨List.mem_cons_of_mem _ hb, fun he => hnd.1 (he ▸ hb)⟩, fun hb => ?_⟩
        exact (List.mem_cons.mp hb.1).resolve_left hb.2
      · rw [hls]
        exact List.mem_cons_self

/-- The subscription `cb` at the node `a` put into the list of an event. -/
structure Placed (w : EvtHeap F P) (mng : ZEvent F P) (ls : Option UInt32 → List Nat) (a : Nat)
    (cb : ZEventCB F P) (evtid : UInt32) (w' : EvtHeap F P) (mng' : ZEvent F P)
    (ls' : Option UInt32 → List Nat) : Prop where
  rep : EvtRep w' mng' ls'
  split : ∃ l r, entries mng ls evtid = l ++ r ∧ entries mng' ls' evtid = l ++ (a, cb) :: r ∧
    (∀ x ∈ l, cb.pri ≤ x.2.pri) ∧ ∀ x ∈ r.head?, x.2.pri < cb.pri
  other : ∀ e, e ≠ evtid → mng'.evtlist e = mng.evtlist e
  same : ∀ k, k ≠ some evtid → ls' k = ls k
  nodes : ∀ b, b ≠ a → b ∉ ls (some evtid) → w'.nodes[b]? = w.nodes[b]?
  length : w'.nodes.length = w.nodes.length

/-- The list it is put into has this one more. -/
theorem Placed.mem {a : Nat} {cb : ZEventCB F P} {evtid : UInt32}
    (h : Placed w mng ls a cb evtid w' mng' ls') (hrep : EvtRep w mng ls) {b : Nat} :
    b ∈ ls' (some evtid) ↔ b ∈ ls (some evtid) ∨ b = a := by
  obtain ⟨l, r, hE, hE', -, -⟩ := h.split
  rw [← hrep.entries_fst, ← h.rep.entries_fst, hE, hE', List.map_append, List.map_append,
    List.map_cons, List.mem_append, List.mem_append, List.mem_cons]
  constructor
  · rintro (hl | rfl | hr)
    · exact Or.inl (Or.inl hl)
    · exact Or.inr rfl
    · exact Or.inl (Or.inr hr)
  · rintro ((hl | hr) | rfl)
    · exact Or.inl hl
    · exact Or.inr (Or.inr hr)
    · exact Or.inr (Or.inl rfl)

theorem Placed.mem_evtlist {a : Nat} {cb c : ZEventCB F P} {evtid : UInt32}
    (h : Placed w mng ls a cb evtid w' mng' ls') (hrep : EvtRep w mng ls)
    (hc : c ∈ mng'.evtlist evtid) : c ∈ mng.evtlist evtid ∨ c = cb := by
  obtain ⟨l, r, hE, hE', -, -⟩ := h.split
  rw [← h.rep.entries_snd, hE', List.map_append, List.map_cons, List.mem_append,
    List.mem_cons] at hc
  rw [← hrep.entries_snd, hE, List.map_append, List.mem_append]
  rcases hc with hl | hc | hr
  · exact Or.inl (Or.inl hl)
  · exact Or.inr hc
  · exact Or.inl (Or.inr hr)

/-- It is behind those of its priority, and before the lower ones. -/
theorem Placed.sorted {a : Nat} {cb : ZEventCB F P} {evtid : UInt32}
    (h : Placed w mng ls a cb evtid w' mng' ls') (hrep : EvtRep w mng ls)
    (hs : (mng.evtlist evtid).Pairwise fun x y => y.pri ≤ x.pri) :
    (mng'.evtlist evtid).Pairwise fun x y => y.pri ≤ x.pri := by
  obtain ⟨l, r, hE, hE', hl, hr⟩ := h.split
  rw [← hrep.entries_snd, hE, List.pairwise_map, List.pairwise_append] at hs
  rw [← h.rep.entries_snd, hE', List.pairwise_map, List.pairwise_append, List.pairwise_cons]
  obtain ⟨hsl, hsr, hcross⟩ := hs
  have hlow : ∀ y ∈ r, y.2.pri ≤ cb.pri := by
    intro y hy
    cases r with
    | nil => exact nomatch hy
    | cons z r =>
        have hz := UInt8.le_of_lt (hr z rfl)
        rcases List.mem_cons.mp hy with rfl | hy
        · exact hz
        · exact UInt8.le_trans ((List.pairwise_cons.mp hsr).1 y hy) hz
  refine ⟨hsl, ⟨hlow, hsr⟩, fun x hx y hy => ?_⟩
  rcases List.mem_cons.mp hy with rfl | hy
  · exact hl x hx
  · exact hcross x hx y hy

theorem Placed.keep {a : Nat} {cb : ZEventCB F P} {evtid : UInt32}
    (h : Placed w mng ls a cb evtid w' mng' ls') (hrep : EvtRep w mng ls) {b : Nat} (hba : b ≠ a)
    (hb : ∀ k, b ∉ ls k) : w'.nodes[b]? = w.nodes[b]? ∧ ∀ k, b ∉ ls' k := by
  refine ⟨h.nodes b hba (hb _), fun k hk => ?_⟩
  by_cases hke : k = some evtid
  · subst hke
    exact ((h.mem hrep).mp hk).elim (hb _) hba
  · rw [h.same k hke] at hk
    exact hb k hk

theorem Placed.cover {a : Nat} {cb : ZEventCB F P} {evtid : UInt32}
    (h : Placed w mng ls a cb evtid w' mng' ls') (hrep : EvtRep w mng ls) (b : Nat) :
    (∃ k, b ∈ ls' k) ∨ (∀ k, b ∉ ls k) ∧ b ≠ a := by
  by_cases hba : b = a
  · exact Or.inl ⟨some evtid, (h.mem hrep).mpr (Or.inr hba)⟩
  · by_cases hin : ∃ k, b ∈ ls k
    · obtain ⟨k, hk⟩ := hin
      by_cases hke : k = some evtid
      · exact Or.inl ⟨some evtid, (h.mem hrep).mpr (Or.inl (hke ▸ hk))⟩
      · refine Or.inl ⟨k, ?_⟩
        rw [h.same k hke]
        exact hk
    · exact Or.inr ⟨not_exists.mp hin, hba⟩

/-- The nodes that `link` does not write. -/
theorem link_nodes {evtid : UInt32} {a : Nat} {prev : Option Nat}
    (h : w.link evtid (some a) prev = .ok w') :
    w'.nodes.length = w.nodes.length ∧
      ∀ b, b ≠ a → prev ≠ some b → w'.nodes[b]? = w.nodes[b]? := by
  unfold EvtHeap.link at h
  cases prev with
  | none =>
      obtain ⟨⟨b, n⟩, hload, h⟩ := except_bind_eq_ok h
      obtain ⟨hb, -⟩ := Nodes.load_eq_ok hload
      obtain rfl := Option.some.inj hb
      obtain rfl := Except.ok.inj h
      exact ⟨List.length_set, fun c hc _ => Nodes.set_of_ne hc _⟩
  | some prev =>
      obtain ⟨⟨b, n⟩, hload, h⟩ := except_bind_eq_ok h
      obtain ⟨hb, -⟩ := Nodes.load_eq_ok hload
      obtain rfl := Option.some.inj hb
      obtain ⟨⟨c, p⟩, hload, h⟩ := except_bind_eq_ok h
      obtain ⟨hc, -⟩ := Nodes.load_eq_ok hload
      obtain rfl := Option.some.inj hc
      obtain ⟨⟨d, q⟩, hload, h⟩ := except_bind_eq_ok h
      obtain ⟨hd, -⟩ := Nodes.load_eq_ok hload
      obtain rfl := Option.some.inj hd
      obtain rfl := Except.ok.inj h
      refine ⟨List.length_set.trans List.length_set, fun e he hp => ?_⟩
      exact (Nodes.set_of_ne (fun he => hp (congrArg some he.symm)) _).trans (Nodes.set_of_ne he _)

theorem place_placed (h : EvtRep w mng ls) {a : Nat} {cb : ZEventCB F P} (ha : ∀ k, a ∉ ls k)
    (hn : w.nodes[a]? = some ⟨cb, none⟩) (evtid : UInt32) :
    ∃ w' mng' ls', w.place cb.pri evtid (some a) = .ok w' ∧
      Placed w mng ls a cb evtid w' mng' ls' := by
  have hcbs := h.cbs (some evtid)
  unfold EvtHeap.place
  by_cases hnone : w.evtlist evtid = none
  · have hl := (h.evtlist_eq_none_iff evtid).mp hnone
    rw [show mng.content (some evtid) = [] from hl] at hcbs
    have hls : ls (some evtid) = [] := List.map_eq_nil_iff.mp hcbs
    rw [if_pos hnone]
    refine ⟨_, _, _, rfl, h.registerEx_first ha hn, ⟨[], [], ?_, ?_, nofun, nofun⟩,
      fun e he => ZEvent.setList_of_ne _ _ he, fun k hk => Function.update_of_ne hk ..,
      fun _ _ _ => rfl, rfl⟩
    · rw [entries, hls]
      rfl
    · rw [entries, Function.update_self, ZEvent.setList_self]
      rfl
  · let high : ZEventCB F P → Bool := fun cur => cur.pri ≥ cb.pri
    let k := (ls (some evtid)).takeWhile fun a => (Nodes.dataOf w.nodes a).any high
    let r := (ls (some evtid)).dropWhile fun a => (Nodes.dataOf w.nodes a).any high
    let ck := (mng.evtlist evtid).takeWhile high
    let cr := (mng.evtlist evtid).dropWhile high
    have happ : k ++ r = ls (some evtid) := List.takeWhile_append_dropWhile
    have hall : ck ++ cr = mng.evtlist evtid := List.takeWhile_append_dropWhile
    obtain ⟨hk, hr⟩ : k.map (Nodes.dataOf w.nodes) = ck.map some ∧
        r.map (Nodes.dataOf w.nodes) = cr.map some := split_cbs high hcbs
    obtain ⟨w', hlink, hrep⟩ := h.link_rep ha hn happ.symm hk hr
    obtain ⟨hlen, hnodes⟩ := link_nodes hlink
    have hzip := congrArg List.length hk
    rw [List.length_map, List.length_map] at hzip
    rw [if_neg hnone, h.walk_event, except_ok_bind]
    refine ⟨w', _, _, hlink, hrep, ⟨k.zip ck, r.zip cr, ?_, ?_, fun x hx => ?_, fun x hx => ?_⟩,
      fun e he => ZEvent.setList_of_ne _ _ he, fun k hk => Function.update_of_ne hk ..,
      fun b hb hin => hnodes b hb fun he => hin ?_, hlen⟩
    · rw [entries, ← happ, ← hall, List.zip_append hzip]
    · rw [entries, Function.update_self, ZEvent.setList_self, List.zip_append hzip,
        List.zip_cons_cons]
    · have hin : x.2 ∈ (mng.evtlist evtid).takeWhile high :=
        (List.of_mem_zip (a := x.1) (b := x.2) hx).2
      have hhigh : high x.2 = true := List.mem_takeWhile_imp hin
      exact of_decide_eq_true hhigh
    · have hhead : ∀ {r : List Nat} {c : List (ZEventCB F P)}, x ∈ (r.zip c).head? →
          c.head? = some x.2 := by
        intro r c hx
        cases r with
        | nil => exact nomatch hx
        | cons b r =>
            cases c with
            | nil => exact nomatch hx
            | cons c cr =>
                obtain rfl := Option.some.inj hx
                rfl
      have hlow := List.head?_dropWhile_not high (mng.evtlist evtid)
      rw [hhead hx] at hlow
      exact UInt8.not_le.mp (of_decide_eq_false hlow)
    · rw [← happ]
      exact List.mem_append_left _ (List.mem_of_getLast? he)

/-- What the region of a removal leaves: all as it was, or the subscription at the node `a` is taken
    out and its node is free. -/
structure Removed (w : EvtHeap F P) (mng : ZEvent F P) (ls : Option UInt32 → List Nat) (a : Nat)
    (evtid : UInt32) (w' : EvtHeap F P) (mng' : ZEvent F P) (ls' : Option UInt32 → List Nat) :
    Prop where
  rep : EvtRep w' mng' ls'
  source : a ∈ ls (some evtid)
  sub : (mng'.evtlist evtid).Sublist (mng.evtlist evtid)
  other : ∀ e, e ≠ evtid → mng'.evtlist e = mng.evtlist e
  same : ∀ e, e ≠ evtid → ls' (some e) = ls (some e)
  left : ∀ b, b ∈ ls' (some evtid) ↔ b ∈ ls (some evtid) ∧ b ≠ a
  free : ls' none = a :: ls none
  nodes : ∀ b, b ∉ ls (some evtid) → w'.nodes[b]? = w.nodes[b]?
  length : w'.nodes.length = w.nodes.length

/-- The node taken out is in the free list, and the others are where they were. -/
theorem Removed.mem {a b : Nat} {evtid : UInt32} (h : Removed w mng ls a evtid w' mng' ls') :
    (∃ k, b ∈ ls' k) ↔ ∃ k, b ∈ ls k := by
  constructor
  · rintro ⟨k, hk⟩
    cases k with
    | none =>
        rw [h.free] at hk
        rcases List.mem_cons.mp hk with rfl | hk
        · exact ⟨_, h.source⟩
        · exact ⟨none, hk⟩
    | some e =>
        by_cases he : e = evtid
        · subst he
          exact ⟨_, ((h.left b).mp hk).1⟩
        · rw [h.same e he] at hk
          exact ⟨_, hk⟩
  · rintro ⟨k, hk⟩
    cases k with
    | none => exact ⟨none, by rw [h.free]; exact List.mem_cons_of_mem _ hk⟩
    | some e =>
        by_cases hba : b = a
        · exact ⟨none, by rw [h.free, hba]; exact List.mem_cons_self⟩
        · by_cases he : e = evtid
          · subst he
            exact ⟨_, (h.left b).mpr ⟨hk, hba⟩⟩
          · exact ⟨some e, by rw [h.same e he]; exact hk⟩

/-- The nodes that `unlink` does not write. -/
theorem unlink_nodes {evtid : UInt32} {a : Nat} {prev : Option Nat}
    (h : w.unlink evtid prev a = .ok w') :
    w'.nodes.length = w.nodes.length ∧ ∀ b, prev ≠ some b → w'.nodes[b]? = w.nodes[b]? := by
  unfold EvtHeap.unlink at h
  obtain ⟨⟨b, n⟩, -, h⟩ := except_bind_eq_ok h
  dsimp only at h
  by_cases hb : some b ≠ w.evtlist evtid
  · rw [if_pos hb] at h
    obtain ⟨⟨c, p⟩, hload, h⟩ := except_bind_eq_ok h
    obtain ⟨hprev, -⟩ := Nodes.load_eq_ok hload
    obtain rfl := Except.ok.inj h
    refine ⟨List.length_set, fun d hd => Nodes.set_of_ne (fun he => hd ?_) _⟩
    rw [hprev, he]
  · rw [if_neg hb] at h
    obtain rfl := Except.ok.inj h
    exact ⟨rfl, fun _ _ => rfl⟩

/-- The nodes that `_zcrt_Event_free_cb_no_protected` does not write. -/
theorem freeCb_nodes {a : Nat} (h : w.freeCb a = .ok w') :
    w'.nodes.length = w.nodes.length ∧ ∀ b, b ≠ a → w'.nodes[b]? = w.nodes[b]? := by
  unfold EvtHeap.freeCb at h
  obtain ⟨⟨b, n⟩, hload, h⟩ := except_bind_eq_ok h
  obtain ⟨hb, -⟩ := Nodes.load_eq_ok hload
  obtain rfl := Option.some.inj hb
  obtain rfl := Except.ok.inj h
  exact ⟨List.length_set, fun c hc => Nodes.set_of_ne hc _⟩

theorem remove_removed [DecidableEq F] [DecidableEq P] (h : EvtRep w mng ls) (evtid : UInt32)
    (cb : Option F) (p1 p2 : P) :
    w.remove evtid cb p1 p2 = .ok w ∨
    ∃ a w' mng' ls', w.remove evtid cb p1 p2 = .ok w' ∧ Removed w mng ls a evtid w' mng' ls' := by
  let past : ZEventCB F P → Bool := fun cur => !cur.isSub cb p1 p2
  obtain ⟨hk, hr⟩ := split_cbs past (h.cbs (some evtid))
  have hl := List.takeWhile_append_dropWhile
    (p := fun a => (Nodes.dataOf w.nodes a).any past) (l := ls (some evtid))
  have hall := List.takeWhile_append_dropWhile (p := past) (l := mng.evtlist evtid)
  have hwalk := h.walk_event past evtid
  change _ = ((mng.evtlist evtid).takeWhile past).map some at hk
  change _ = ((mng.evtlist evtid).dropWhile past).map some at hr
  unfold EvtHeap.remove
  generalize (ls (some evtid)).takeWhile _ = k at hk hl hwalk
  generalize (ls (some evtid)).dropWhile _ = q at hr hl hwalk
  generalize (mng.evtlist evtid).takeWhile past = ck at hk hall
  generalize (mng.evtlist evtid).dropWhile past = cq at hr hall
  rw [hwalk, except_ok_bind]
  cases q with
  | nil => exact Or.inl rfl
  | cons a r =>
      have hmem : a ∈ ls (some evtid) := hl ▸ List.mem_append_right _ List.mem_cons_self
      obtain ⟨n, hn⟩ := h.node hmem
      cases cq with
      | nil => exact nomatch hr
      | cons c cr =>
          obtain ⟨w1, hunlink, hcb1, hrep1⟩ := h.unlink_rep hn hl.symm hk (List.cons.inj hr).2
          obtain ⟨n1, hn1, -⟩ := Option.map_eq_some_iff.mp hcb1
          obtain ⟨w2, hfree, hrep2⟩ := hrep1.freeCb_rep (h.unlinked_loose hl.symm) hn1
          obtain ⟨hlen1, hnodes1⟩ := unlink_nodes hunlink
          obtain ⟨hlen2, hnodes2⟩ := freeCb_nodes hfree
          have hnd := (h.seg (some evtid)).nodup
          rw [← hl] at hnd
          have hnot := (List.nodup_cons.mp (List.nodup_middle.mp hnd)).1
          refine Or.inr ⟨a, w2, _, _, ?_, hrep2, hmem, ?_, fun e he => ?_, fun e he => ?_,
            fun b => ?_, ?_, fun b hb => ?_, hlen2.trans hlen1⟩
          · change (do let w ← w.unlink evtid _ a; _) = _
            rw [hunlink, except_ok_bind]
            exact hfree
          · change ((mng.setList evtid (ck ++ cr)).evtlist evtid).Sublist _
            rw [ZEvent.setList_self, ← hall]
            exact (List.sublist_cons_self c cr).append_left ck
          · exact ZEvent.setList_of_ne _ _ he
          · rw [Function.update_of_ne (by simp),
              Function.update_of_ne fun heq => he (Option.some.inj heq)]
          · rw [Function.update_of_ne (by simp), Function.update_self, ← hl]
            refine ⟨fun hb => ⟨?_, fun he => hnot (he ▸ hb)⟩, fun ⟨hb, hne⟩ => ?_⟩
            · exact ((List.sublist_cons_self a r).append_left k).subset hb
            · rcases List.mem_append.mp hb with hb | hb
              · exact List.mem_append_left _ hb
              · exact List.mem_append_right _ ((List.mem_cons.mp hb).resolve_left hne)
          · rw [Function.update_self, Function.update_of_ne (by simp)]
          · refine (hnodes2 b fun he => hb (he ▸ hmem)).trans (hnodes1 b fun he => hb ?_)
            rw [← hl]
            exact List.mem_append_left _ (List.mem_of_getLast? he)

end EvtRep

end Zcrt
