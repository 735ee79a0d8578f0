/-
  What the event manager is for: the subscriptions there are, in the order they were made, and which
  of two is called first.

  * `EvtSubs`: the live subscriptions; `add` and `cancel`.
  * `SubsRep`: the lists of `Event` hold the live subscriptions of their events in the order of the
    calls.
  * `execList_subs`: registrations and removals keep this.
-/
import Zcrt.Core.EvtSys

namespace Zcrt

variable {F P : Type}

/-- A subscription; `seq` counts the registrations. -/
structure Sub (F P : Type) where
  seq : Nat
  evtid : UInt32
  cb : ZEventCB F P

/-- Higher priority first, and of one priority the one that came first. -/
def Sub.Before (x y : Sub F P) : Prop :=
  y.cb.pri < x.cb.pri ∨ x.cb.pri = y.cb.pri ∧ x.seq < y.seq

instance (x y : Sub F P) : Decidable (x.Before y) := inferInstanceAs (Decidable (_ ∨ _))

theorem Sub.Before.irrefl (x : Sub F P) : ¬x.Before x := by
  rintro (h | ⟨-, h⟩)
  · exact UInt8.lt_irrefl _ h
  · exact Nat.lt_irrefl _ h

theorem Sub.Before.asymm {x y : Sub F P} (h : x.Before y) : ¬y.Before x := by
  intro h'
  rcases h with h | ⟨he, h⟩
  · rcases h' with h' | ⟨he', -⟩
    · exact UInt8.lt_asymm h h'
    · rw [he'] at h
      exact UInt8.lt_irrefl _ h
  · rcases h' with h' | ⟨-, h'⟩
    · rw [he] at h'
      exact UInt8.lt_irrefl _ h'
    · omega

/-- The subscriptions there are, in the order they were made, and the number of free nodes. -/
structure EvtSubs (F P : Type) where
  count : Nat
  live : List (Sub F P)
  free : Nat

namespace EvtSubs

def init : EvtSubs F P := { count := 0, live := [], free := 0 }

variable (s : EvtSubs F P)

/-- A subscription more, unless there is no id, no callback or no node for it. Without a node for an
    event that has subscriptions the program does not get past the call. -/
def add (mem : Bool) (evtid : UInt32) (cb : ZEventCB F P) : Option (EvtSubs F P) :=
  if evtid ≥ ZCRT_MAX_EVT ∨ cb.fn.isNone then some s
  else if s.free = 0 ∧ mem = false then
    if s.live.any (·.evtid = evtid) then none else some s
  else some { count := s.count + 1
              live := s.live ++ [{ seq := s.count, evtid := evtid, cb := cb }]
              free := s.free - 1 }

variable [DecidableEq F] [DecidableEq P]

/-- The subscription a removal is about. -/
def Wanted (evtid : UInt32) (cb : Option F) (p1 p2 : P) (x : Sub F P) : Prop :=
  x.evtid = evtid ∧ x.cb.isSub cb p1 p2

instance (evtid : UInt32) (cb : Option F) (p1 p2 : P) (x : Sub F P) :
    Decidable (Wanted evtid cb p1 p2 x) := inferInstanceAs (Decidable (_ ∧ _))

/-- Of the subscriptions a removal is about the one called first. -/
def first (evtid : UInt32) (cb : Option F) (p1 p2 : P) : Option (Sub F P) :=
  s.live.find? fun x => Wanted evtid cb p1 p2 x ∧
    s.live.all fun y => Wanted evtid cb p1 p2 y → x.seq = y.seq ∨ x.Before y

/-- The first subscription less, its node free. -/
def cancel (evtid : UInt32) (cb : Option F) (p1 p2 : P) : EvtSubs F P :=
  match s.first evtid cb p1 p2 with
  | none => s
  | some x => { s with live := s.live.filter (·.seq ≠ x.seq), free := s.free + 1 }

def step : EvtOp F P → Option (EvtSubs F P)
  | .register mem priority evtid cb p1 p2 =>
      s.add mem evtid { fn := cb, pri := priority, evtType := .evtAll, p1 := p1, p2 := p2 }
  | .registerEx mem priority evtid evtType cb p1 p2 =>
      s.add mem evtid { fn := cb, pri := priority, evtType := evtType, p1 := p1, p2 := p2 }
  | .unregister evtid cb p1 p2 => some (s.cancel evtid cb p1 p2)

def run (ops : List (EvtOp F P)) : Option (EvtSubs F P) :=
  ops.foldlM (fun s op => s.step op) init

end EvtSubs

/-- `order` are the subscriptions of each event as they are called, and the lists hold them. -/
structure SubsRep (mng : ZEvent F P) (s : EvtSubs F P) (order : UInt32 → List (Sub F P)) :
    Prop where
  lists : ∀ e, (order e).map Sub.cb = mng.evtlist e
  sorted : ∀ e, (order e).Pairwise Sub.Before
  mem : ∀ e x, x ∈ order e ↔ x ∈ s.live ∧ x.evtid = e
  seqs : (s.live.map Sub.seq).Nodup
  live : ∀ x ∈ s.live, x.seq < s.count ∧ x.evtid < ZCRT_MAX_EVT ∧ x.cb.fn ≠ none
  free : mng.freelist.length = s.free
  freesize : mng.freesize = Int32.ofNat s.free
  last : mng.lastEvtid = 0

theorem subsRep_init : SubsRep (zcrtEventManageInit : ZEvent F P) .init fun _ => [] where
  lists := fun _ => rfl
  sorted := fun _ => List.Pairwise.nil
  mem := fun _ _ => ⟨fun h => absurd h List.not_mem_nil, fun h => absurd h.1 List.not_mem_nil⟩
  seqs := List.nodup_nil
  live := fun _ h => absurd h List.not_mem_nil
  free := rfl
  freesize := rfl
  last := rfl

namespace SubsRep

variable {mng : ZEvent F P} {s : EvtSubs F P} {order : UInt32 → List (Sub F P)}

/-- Two subscriptions of one number are one. -/
theorem seq_inj (h : SubsRep mng s order) {x y : Sub F P} (hx : x ∈ s.live) (hy : y ∈ s.live)
    (he : x.seq = y.seq) : x = y :=
  List.inj_on_of_nodup_map h.seqs hx hy he

/-! ## A subscription more -/

/-- The new subscription in its place. -/
def place (x : Sub F P) (l : List (Sub F P)) : List (Sub F P) :=
  l.takeWhile (fun y => y.cb.pri ≥ x.cb.pri) ++ x :: l.dropWhile (fun y => y.cb.pri ≥ x.cb.pri)

theorem place_map (x : Sub F P) (l : List (Sub F P)) :
    (place x l).map Sub.cb = insertCb x.cb.pri x.cb (l.map Sub.cb) := by
  unfold place insertCb
  rw [List.map_append, List.map_cons, List.takeWhile_map, List.dropWhile_map]
  rfl

theorem mem_place {x y : Sub F P} {l : List (Sub F P)} : y ∈ place x l ↔ y = x ∨ y ∈ l := by
  have hl := List.takeWhile_append_dropWhile (p := fun y : Sub F P => y.cb.pri ≥ x.cb.pri) (l := l)
  unfold place
  rw [List.mem_append, List.mem_cons]
  constructor
  · rintro (h | h | h)
    · exact Or.inr (hl ▸ List.mem_append_left _ h)
    · exact Or.inl h
    · exact Or.inr (hl ▸ List.mem_append_right _ h)
  · rintro (h | h)
    · exact Or.inr (Or.inl h)
    · rw [← hl, List.mem_append] at h
      rcases h with h | h
      · exact Or.inl h
      · exact Or.inr (Or.inr h)

/-- A later subscription goes behind those of its priority. -/
theorem place_sorted {x : Sub F P} {l : List (Sub F P)} (h : l.Pairwise Sub.Before)
    (hseq : ∀ y ∈ l, y.seq < x.seq) : (place x l).Pairwise Sub.Before := by
  have hl := List.takeWhile_append_dropWhile (p := fun y : Sub F P => y.cb.pri ≥ x.cb.pri) (l := l)
  have hfront : ∀ y ∈ l.takeWhile (fun y => y.cb.pri ≥ x.cb.pri), y.Before x := fun y hy => by
    have htrue := List.mem_takeWhile_imp hy
    have hge : x.cb.pri ≤ y.cb.pri := of_decide_eq_true htrue
    have hy' : y ∈ l := hl ▸ List.mem_append_left _ hy
    by_cases he : y.cb.pri = x.cb.pri
    · exact Or.inr ⟨he, hseq y hy'⟩
    · exact Or.inl (UInt8.lt_of_le_of_ne hge fun he' => he he'.symm)
  have hpair : (l.takeWhile (fun y => y.cb.pri ≥ x.cb.pri) ++
      l.dropWhile (fun y => y.cb.pri ≥ x.cb.pri)).Pairwise Sub.Before := by rwa [hl]
  obtain ⟨h1, h2, h12⟩ := List.pairwise_append.mp hpair
  have hback : ∀ y ∈ l.dropWhile (fun y => y.cb.pri ≥ x.cb.pri), x.Before y := by
    cases hd : l.dropWhile (fun y => y.cb.pri ≥ x.cb.pri) with
    | nil => exact fun y hy => absurd hy List.not_mem_nil
    | cons z r =>
        have hz : z.cb.pri < x.cb.pri := by
          have hz := List.head_dropWhile_not (fun y : Sub F P => decide (y.cb.pri ≥ x.cb.pri))
            (show l.dropWhile _ ≠ [] by rw [hd]; exact List.cons_ne_nil _ _)
          simp only [hd, List.head_cons, decide_eq_false_iff_not] at hz
          exact UInt8.not_le.mp hz
        rw [hd] at h2
        intro y hy
        rcases List.mem_cons.mp hy with rfl | hy
        · exact Or.inl hz
        · rcases (List.pairwise_cons.mp h2).1 y hy with h | ⟨h, -⟩
          · exact Or.inl (UInt8.lt_trans h hz)
          · rw [h] at hz
            exact Or.inl hz
  unfold place
  refine List.pairwise_append.mpr ⟨h1, List.pairwise_cons.mpr ⟨hback, h2⟩, fun y hy z hz => ?_⟩
  rcases List.mem_cons.mp hz with rfl | hz
  · exact hfront y hy
  · exact h12 y hy z hz

/-- The place changes nothing but the list of its event. -/
theorem place_lists (h : SubsRep mng s order) {mng1 : ZEvent F P}
    (hlists : mng1.evtlist = mng.evtlist) (x : Sub F P) (e : UInt32) :
    (Function.update order x.evtid (place x (order x.evtid)) e).map Sub.cb =
      (mng1.setList x.evtid (insertCb x.cb.pri x.cb (mng1.evtlist x.evtid))).evtlist e := by
  by_cases he : e = x.evtid
  · rw [he, Function.update_self, ZEvent.setList_self, place_map, h.lists, hlists]
  · rw [Function.update_of_ne he, ZEvent.setList_of_ne _ _ he, h.lists, hlists]

theorem place_mem (h : SubsRep mng s order) (x : Sub F P) (e : UInt32) (y : Sub F P) :
    y ∈ Function.update order x.evtid (place x (order x.evtid)) e ↔
      y ∈ s.live ++ [x] ∧ y.evtid = e := by
  rw [List.mem_append, List.mem_singleton]
  by_cases he : e = x.evtid
  · rw [he, Function.update_self, mem_place, h.mem]
    constructor
    · rintro (rfl | ⟨hy, hye⟩)
      · exact ⟨Or.inr rfl, rfl⟩
      · exact ⟨Or.inl hy, hye⟩
    · rintro ⟨hy | rfl, hye⟩
      · exact Or.inr ⟨hy, hye⟩
      · exact Or.inl rfl
  · rw [Function.update_of_ne he, h.mem]
    constructor
    · exact fun ⟨hy, hye⟩ => ⟨Or.inl hy, hye⟩
    · rintro ⟨hy | rfl, hye⟩
      · exact ⟨hy, hye⟩
      · exact absurd hye.symm he

/-- A registration that gets a node. -/
theorem added (h : SubsRep mng s order) {mng1 : ZEvent F P} {evtid : UInt32} {cb : ZEventCB F P}
    (hguard : ¬(evtid ≥ ZCRT_MAX_EVT ∨ cb.fn.isNone)) (hlists : mng1.evtlist = mng.evtlist)
    (hlast : mng1.lastEvtid = mng.lastEvtid) (hlen : mng1.freelist.length = s.free - 1)
    (hsize : mng1.freesize = Int32.ofNat (s.free - 1)) :
    SubsRep (mng1.setList evtid (insertCb cb.pri cb (mng1.evtlist evtid)))
      { count := s.count + 1
        live := s.live ++ [{ seq := s.count, evtid := evtid, cb := cb }]
        free := s.free - 1 }
      (Function.update order evtid
        (place { seq := s.count, evtid := evtid, cb := cb } (order evtid))) := by
  rw [not_or, Option.isNone_iff_eq_none] at hguard
  let x : Sub F P := { seq := s.count, evtid := evtid, cb := cb }
  have hlt : ∀ y ∈ s.live, y.seq < s.count := fun y hy => (h.live y hy).1
  exact {
    lists := h.place_lists hlists x
    sorted := fun e => by
      by_cases he : e = evtid
      · rw [he, Function.update_self]
        exact place_sorted (h.sorted evtid) fun y hy => hlt y ((h.mem evtid y).mp hy).1
      · rw [Function.update_of_ne he]
        exact h.sorted e
    mem := h.place_mem x
    seqs := by
      change ((s.live ++ [x]).map Sub.seq).Nodup
      rw [List.map_append, List.map_singleton]
      refine List.Nodup.append h.seqs (List.nodup_singleton _) fun n hn hx => ?_
      obtain ⟨y, hy, rfl⟩ := List.mem_map.mp hn
      have hlt := hlt y hy
      rw [List.mem_singleton.mp hx] at hlt
      exact Nat.lt_irrefl _ hlt
    live := fun y hy => by
      rcases List.mem_append.mp hy with hy | hy
      · obtain ⟨h1, h2⟩ := h.live y hy
        exact ⟨Nat.lt_succ_of_lt h1, h2⟩
      · rw [List.mem_singleton.mp hy]
        exact ⟨Nat.lt_succ_self _, UInt32.not_le.mp hguard.1, hguard.2⟩
    free := hlen
    freesize := hsize
    last := hlast.trans h.last }

/-- There is a node for one more. -/
theorem mallocCb_node (h : SubsRep mng s order) {mem : Bool} (hnode : ¬(s.free = 0 ∧ mem = false))
    (cb : ZEventCB F P) : ∃ mng1,
      zcrtEventMallocCb mng mem cb.pri cb.evtType cb.fn cb.p1 cb.p2 = (some cb, mng1) ∧
      mng1.evtlist = mng.evtlist ∧ mng1.lastEvtid = mng.lastEvtid ∧
      mng1.freelist.length = s.free - 1 ∧ mng1.freesize = Int32.ofNat (s.free - 1) := by
  have hfree := h.free
  have hfreesize := h.freesize
  unfold zcrtEventMallocCb
  cases hf : mng.freelist with
  | nil =>
      rw [hf] at hfree
      have hmem : mem = true := Bool.eq_true_of_not_eq_false fun hm => hnode ⟨hfree.symm, hm⟩
      rw [hmem]
      refine ⟨mng, rfl, rfl, rfl, ?_, ?_⟩
      · rw [hf, ← hfree]
        rfl
      · rw [hfreesize, ← hfree]
        rfl
  | cons node next =>
      rw [hf, List.length_cons] at hfree
      refine ⟨_, rfl, rfl, rfl, ?_, ?_⟩
      · rw [← hfree]
        rfl
      · change mng.freesize - 1 = _
        rw [hfreesize, ← hfree, Int32.ofNat_add, Nat.add_sub_cancel]
        exact Int32.add_sub_cancel _ _

theorem any_evtid_iff (h : SubsRep mng s order) (evtid : UInt32) :
    s.live.any (·.evtid = evtid) = true ↔ mng.evtlist evtid ≠ [] := by
  rw [List.any_eq_true, ← h.lists, ne_eq, List.map_eq_nil_iff]
  constructor
  · rintro ⟨x, hx, hxe⟩
    exact List.ne_nil_of_mem ((h.mem evtid x).mpr ⟨hx, of_decide_eq_true hxe⟩)
  · intro hne
    obtain ⟨x, hxo⟩ := List.exists_mem_of_ne_nil _ hne
    obtain ⟨hx, hxe⟩ := (h.mem evtid x).mp hxo
    exact ⟨x, hx, decide_eq_true hxe⟩

/-- A registration does to the lists what `add` does to the subscriptions. -/
theorem add_rep (h : SubsRep mng s order) (mem : Bool) (evtid : UInt32) (cb : ZEventCB F P) :
    (s.add mem evtid cb = none ∧
      zcrtEventRegisterEx (some mng) mem cb.pri evtid cb.evtType cb.fn cb.p1 cb.p2 = none) ∨
    ∃ s' ret mng' order', s.add mem evtid cb = some s' ∧
      zcrtEventRegisterEx (some mng) mem cb.pri evtid cb.evtType cb.fn cb.p1 cb.p2 =
        some (ret, some mng') ∧ SubsRep mng' s' order' := by
  unfold EvtSubs.add
  by_cases hguard : evtid ≥ ZCRT_MAX_EVT ∨ cb.fn.isNone
  · rw [if_pos hguard]
    refine Or.inr ⟨s, .paramErr, mng, order, rfl, ?_, h⟩
    unfold zcrtEventRegisterEx
    dsimp only
    rw [if_pos hguard]
  rw [if_neg hguard]
  by_cases hnode : s.free = 0 ∧ mem = false
  · obtain ⟨hfree, rfl⟩ := hnode
    rw [if_pos ⟨hfree, rfl⟩]
    have hno : ¬mng.hasNode false := by
      rintro (hf | hm)
      · exact hf (List.length_eq_zero_iff.mp (h.free.trans hfree))
      · exact nomatch hm
    obtain ⟨hnil, hcons⟩ := zcrtEventRegisterEx_of_noNode hguard
      (zcrtEventMallocCb_of_not_hasNode hno cb.pri cb.evtType cb.fn cb.p1 cb.p2)
    by_cases hany : s.live.any (·.evtid = evtid) = true
    · rw [if_pos hany]
      exact Or.inl ⟨rfl, hcons ((h.any_evtid_iff evtid).mp hany)⟩
    · rw [if_neg hany]
      refine Or.inr ⟨s, .success, mng, order, rfl, hnil ?_, h⟩
      by_contra hne
      exact hany ((h.any_evtid_iff evtid).mpr hne)
  · rw [if_neg hnode]
    obtain ⟨mng1, hmalloc, hlists, hlast, hlen, hsize⟩ := h.mallocCb_node hnode cb
    exact Or.inr ⟨_, .success, _, _, rfl, zcrtEventRegisterEx_of_malloc hguard hmalloc,
      h.added hguard hlists hlast hlen hsize⟩

/-! ## The first subscription less -/

section Cancel

variable [DecidableEq F] [DecidableEq P] {evtid : UInt32} {cb : Option F} {p1 p2 : P}

theorem first_eq_none (h : ∀ x ∈ s.live, ¬EvtSubs.Wanted evtid cb p1 p2 x) :
    s.first evtid cb p1 p2 = none :=
  List.find?_eq_none.mpr fun x hx hw => h x hx (of_decide_eq_true hw).1

theorem first_eq_some (h : SubsRep mng s order) {x : Sub F P} (hx : x ∈ s.live)
    (hw : EvtSubs.Wanted evtid cb p1 p2 x)
    (hfirst : ∀ y ∈ s.live, EvtSubs.Wanted evtid cb p1 p2 y → x.seq = y.seq ∨ x.Before y) :
    s.first evtid cb p1 p2 = some x := by
  have hall : ∀ x : Sub F P, (s.live.all fun y =>
      EvtSubs.Wanted evtid cb p1 p2 y → x.seq = y.seq ∨ x.Before y) = true ↔
      ∀ y ∈ s.live, EvtSubs.Wanted evtid cb p1 p2 y → x.seq = y.seq ∨ x.Before y := fun x => by
    rw [List.all_eq_true]
    exact ⟨fun h y hy => of_decide_eq_true (h y hy), fun h y hy => decide_eq_true (h y hy)⟩
  unfold EvtSubs.first
  cases hf : s.live.find? _ with
  | none =>
      have hno := List.find?_eq_none.mp hf x hx
      exact absurd (decide_eq_true ⟨hw, (hall x).mpr hfirst⟩) hno
  | some z =>
      have hz := List.mem_of_find?_eq_some hf
      have hztrue := List.find?_some hf
      obtain ⟨hzw, hzfirst⟩ := of_decide_eq_true hztrue
      rcases hfirst z hz hzw with he | hb
      · rw [h.seq_inj hx hz he]
      · rcases (hall z).mp hzfirst x hx hw with he | hb'
        · rw [h.seq_inj hx hz he.symm]
        · exact absurd hb' hb.asymm

/-- The first in its list that a removal is about is the one called first. -/
theorem first_of_list (h : SubsRep mng s order) {x : Sub F P} {k r : List (Sub F P)}
    (hk : order evtid = k ++ x :: r) (hsub : x.cb.isSub cb p1 p2 = true)
    (hnot : ∀ y ∈ k, ¬y.cb.isSub cb p1 p2 = true) : s.first evtid cb p1 p2 = some x := by
  have hsorted := h.sorted evtid
  rw [hk] at hsorted
  have hxo : x ∈ order evtid := hk ▸ List.mem_append_right _ List.mem_cons_self
  obtain ⟨hx, hxe⟩ := (h.mem evtid x).mp hxo
  refine first_eq_some h hx ⟨hxe, hsub⟩ fun y hy hw => ?_
  have hyo := (h.mem evtid y).mpr ⟨hy, hw.1⟩
  rw [hk] at hyo
  rcases List.mem_append.mp hyo with hyk | hyr
  · exact absurd hw.2 (hnot y hyk)
  · rcases List.mem_cons.mp hyr with rfl | hyr
    · exact Or.inl rfl
    · obtain ⟨-, hxr, -⟩ := List.pairwise_append.mp hsorted
      exact Or.inr ((List.pairwise_cons.mp hxr).1 y hyr)

omit [DecidableEq F] [DecidableEq P] in
/-- The subscriptions of an event but for one of them. -/
theorem mem_without (h : SubsRep mng s order) {x : Sub F P} {k r : List (Sub F P)}
    (hk : order evtid = k ++ x :: r) (e : UInt32) (y : Sub F P) :
    y ∈ Function.update order evtid (k ++ r) e ↔
      y ∈ s.live.filter (·.seq ≠ x.seq) ∧ y.evtid = e := by
  have hxo : x ∈ order evtid := hk ▸ List.mem_append_right _ List.mem_cons_self
  obtain ⟨hx, hxe⟩ := (h.mem evtid x).mp hxo
  have hsorted := h.sorted evtid
  rw [hk] at hsorted
  rw [List.mem_filter]
  by_cases he : e = evtid
  · rw [he, Function.update_self]
    constructor
    · intro hy
      have hyo : y ∈ order evtid :=
        hk ▸ (List.Sublist.append_left (List.sublist_cons_self x r) k).subset hy
      obtain ⟨hyl, hye⟩ := (h.mem evtid y).mp hyo
      refine ⟨⟨hyl, decide_eq_true fun hseq => ?_⟩, hye⟩
      obtain rfl := h.seq_inj hyl hx hseq
      obtain ⟨-, hxr, hkx⟩ := List.pairwise_append.mp hsorted
      rcases List.mem_append.mp hy with hy | hy
      · exact Sub.Before.irrefl _ (hkx y hy y List.mem_cons_self)
      · exact Sub.Before.irrefl _ ((List.pairwise_cons.mp hxr).1 y hy)
    · rintro ⟨⟨hyl, hne⟩, hye⟩
      have hyo := (h.mem evtid y).mpr ⟨hyl, hye⟩
      rw [hk] at hyo
      rcases List.mem_append.mp hyo with hyk | hyr
      · exact List.mem_append_left _ hyk
      · rcases List.mem_cons.mp hyr with rfl | hyr
        · exact absurd rfl (of_decide_eq_true hne)
        · exact List.mem_append_right _ hyr
  · rw [Function.update_of_ne he, h.mem]
    constructor
    · rintro ⟨hyl, hye⟩
      refine ⟨⟨hyl, decide_eq_true fun hseq => he ?_⟩, hye⟩
      rw [← hye, h.seq_inj hyl hx hseq, hxe]
    · rintro ⟨⟨hyl, -⟩, hye⟩
      exact ⟨hyl, hye⟩

omit [DecidableEq F] [DecidableEq P] in
/-- A subscription taken out of its list, its node given back. -/
theorem without (h : SubsRep mng s order) {x : Sub F P} {k r : List (Sub F P)}
    (hk : order evtid = k ++ x :: r) (node : ZEventCB F P) :
    SubsRep
      (ZEvent.setList { mng with freelist := node :: mng.freelist, freesize := mng.freesize + 1 }
        evtid ((k ++ r).map Sub.cb))
      { s with live := s.live.filter (·.seq ≠ x.seq), free := s.free + 1 }
      (Function.update order evtid (k ++ r)) where
  lists := fun e => by
    by_cases he : e = evtid
    · rw [he, Function.update_self, ZEvent.setList_self]
    · rw [Function.update_of_ne he, h.lists, ZEvent.setList_of_ne _ _ he]
  sorted := fun e => by
    by_cases he : e = evtid
    · rw [he, Function.update_self]
      have hsorted := h.sorted evtid
      rw [hk] at hsorted
      exact hsorted.sublist (List.Sublist.append_left (List.sublist_cons_self x r) k)
    · rw [Function.update_of_ne he]
      exact h.sorted e
  mem := h.mem_without hk
  seqs := (h.seqs.sublist ((List.filter_sublist (l := s.live)).map Sub.seq) :)
  live := fun y hy => h.live y (List.mem_of_mem_filter hy)
  free := congrArg (· + 1) h.free
  freesize := by
    change mng.freesize + 1 = Int32.ofNat (s.free + 1)
    rw [h.freesize, Int32.ofNat_add]
    rfl
  last := h.last

/-- A removal outside any dispatch does to the lists what `cancel` does to the subscriptions. -/
theorem cancel_rep (h : SubsRep mng s order) (cb : Option F) (p1 p2 : P) (he0 : evtid ≠ 0) :
    ∃ mng' order', zcrtEventUnregister (some mng) evtid cb p1 p2 = some (some mng') ∧
      SubsRep mng' (s.cancel evtid cb p1 p2) order' := by
  unfold zcrtEventUnregister EvtSubs.cancel
  dsimp only
  by_cases hguard : evtid ≥ ZCRT_MAX_EVT ∨ cb.isNone
  · rw [if_pos hguard, first_eq_none fun x hx hw => ?_]
    · exact ⟨mng, order, rfl, h⟩
    · obtain ⟨-, hlt, hfn⟩ := h.live x hx
      obtain ⟨rfl, hsub⟩ := hw
      rcases hguard with hge | hnone
      · exact absurd hlt (UInt32.not_lt.mpr hge)
      · refine hfn ((of_decide_eq_true hsub).1.trans ?_)
        exact Option.isNone_iff_eq_none.mp hnone
  rw [if_neg hguard, if_neg (by rw [h.last]; exact he0.symm)]
  rw [← h.lists, List.find?_map]
  cases hf : (order evtid).find? (ZEventCB.isSub cb p1 p2 ∘ Sub.cb) with
  | none =>
      rw [first_eq_none fun x hx hw =>
        List.find?_eq_none.mp hf x ((h.mem evtid x).mpr ⟨hx, hw.1⟩) hw.2]
      exact ⟨mng, order, rfl, h⟩
  | some x =>
      obtain ⟨hsub, k, r, hk, hbefore⟩ := List.find?_eq_some_iff_append.mp hf
      have hsubx : x.cb.isSub cb p1 p2 = true := hsub
      have hnot : ∀ y ∈ k, ¬ZEventCB.isSub cb p1 p2 y.cb = true := fun y hy => by
        have hno := hbefore y hy
        simpa using hno
      have herase : ((order evtid).map Sub.cb).eraseP (ZEventCB.isSub cb p1 p2) =
          (k ++ r).map Sub.cb := by
        rw [hk, List.map_append, List.map_cons, List.eraseP_append_right,
          List.eraseP_cons_of_pos hsubx, List.map_append]
        intro b hb
        obtain ⟨y, hy, rfl⟩ := List.mem_map.mp hb
        exact hnot y hy
      rw [h.first_of_list hk hsubx hnot, herase]
      exact ⟨_, _, rfl, h.without hk _⟩

end Cancel

/-- A call outside any dispatch does to the lists what it means for the subscriptions. -/
theorem execList_subs [DecidableEq F] [DecidableEq P] (h : SubsRep mng s order) {op : EvtOp F P}
    (he0 : op.evtid ≠ 0) :
    (s.step op = none ∧ op.execList (some mng) = none) ∨
    ∃ s' mng' order', s.step op = some s' ∧ op.execList (some mng) = some (some mng') ∧
      SubsRep mng' s' order' := by
  cases op with
  | register mem priority evtid cb p1 p2 =>
      rcases h.add_rep mem evtid
          { fn := cb, pri := priority, evtType := .evtAll, p1 := p1, p2 := p2 } with
        ⟨h1, h2⟩ | ⟨s', ret, mng', order', h1, h2, hrep⟩
      · exact Or.inl ⟨h1, congrArg (Option.map Prod.snd) h2⟩
      · exact Or.inr ⟨s', mng', order', h1, congrArg (Option.map Prod.snd) h2, hrep⟩
  | registerEx mem priority evtid evtType cb p1 p2 =>
      rcases h.add_rep mem evtid
          { fn := cb, pri := priority, evtType := evtType, p1 := p1, p2 := p2 } with
        ⟨h1, h2⟩ | ⟨s', ret, mng', order', h1, h2, hrep⟩
      · exact Or.inl ⟨h1, congrArg (Option.map Prod.snd) h2⟩
      · exact Or.inr ⟨s', mng', order', h1, congrArg (Option.map Prod.snd) h2, hrep⟩
  | unregister evtid cb p1 p2 =>
      obtain ⟨mng', order', h2, hrep⟩ := h.cancel_rep cb p1 p2 he0
      exact Or.inr ⟨_, mng', order', rfl, h2, hrep⟩

end SubsRep

end Zcrt
