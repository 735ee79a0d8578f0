/-
  What a dispatch of the event manager delivers while other threads register and remove, and its own
  callbacks register more.

  * `Dispatch.At`: how far a dispatch has come in the list of its event.
  * `EvtShared.Ok`: each node is in one list, or in the hands of one thread.
  * `EvtShared.Ok.exec`: what one step does, whichever thread takes it.
-/
import Zcrt.Core.EvtRegions
import Zcrt.Core.EvtGuard

namespace Zcrt

open Lib

variable {F P : Type}

namespace EvtRep

variable {w : EvtHeap F P} {mng : ZEvent F P} {ls : Option UInt32 → List Nat}

/-- A subscription of an event, and the link of its node. -/
theorem entry (h : EvtRep w mng ls) {e : UInt32} {passed todo : List (Nat × ZEventCB F P)}
    {x : Nat × ZEventCB F P} (hE : entries mng ls e = passed ++ x :: todo) :
    w.nodes[x.1]? = some ⟨x.2, todo.head?.map Prod.fst⟩ := by
  have hls : ls (some e) = passed.map Prod.fst ++ x.1 :: todo.map Prod.fst := by
    rw [← h.entries_fst, hE, List.map_append, List.map_cons]
  have hcb : mng.evtlist e = passed.map Prod.snd ++ x.2 :: todo.map Prod.snd := by
    rw [← List.map_snd_zip (h.length_eq e).ge, ← entries, hE, List.map_append,
      List.map_cons]
  obtain ⟨n, hn⟩ := h.node (k := some e) (a := x.1) (by rw [hls]; simp)
  have hdata := h.cbs (some e)
  rw [hls, show mng.content (some e) = mng.evtlist e from rfl, hcb, List.map_append,
    List.map_append] at hdata
  have htail := (List.append_inj hdata (by simp)).2
  rw [List.map_cons, List.map_cons, Nodes.dataOf_of_node hn] at htail
  have hseg := h.seg (some e)
  rw [hls] at hseg
  obtain ⟨m, -, -, next, hnext, hrest⟩ := Seg.append_iff.mp hseg
  have hlink : n.next = next := Option.some.inj ((Nodes.nextOf_of_node hn).symm.trans hnext)
  obtain ⟨d, m⟩ := n
  obtain rfl : d = x.2 := Option.some.inj (List.cons.inj htail).1
  rw [hn, show m = next from hlink, hrest.head, List.head?_map]

theorem entries_sorted (h : EvtRep w mng ls) {e : UInt32}
    (hs : (mng.evtlist e).Pairwise fun x y => y.pri ≤ x.pri) :
    (entries mng ls e).Pairwise fun x y => y.2.pri ≤ x.2.pri := by
  rw [← h.entries_snd, List.pairwise_map] at hs
  exact hs

theorem entries_nodup (h : EvtRep w mng ls) (e : UInt32) :
    ((entries mng ls e).map Prod.fst).Nodup := by
  rw [h.entries_fst]
  exact (h.seg (some e)).nodup

end EvtRep

/-! ## A dispatch in its list -/

namespace Dispatch

variable {f : Dispatch F P} {passed todo E : List (Nat × ZEventCB F P)} {x : Nat × ZEventCB F P}

/-- The loop of `f` has `passed` behind it, and `todo` before it. -/
structure Between (f : Dispatch F P) (passed todo : List (Nat × ZEventCB F P)) : Prop where
  inCb : f.inCb = true → f.cur = passed.getLast?.map Prod.fst ∧ passed ≠ []
  loop : f.inCb = false → f.cur = todo.head?.map Prod.fst
  due : ∃ b1 b2, f.began = b1 ++ b2 ∧ (b1.filter (·.2.takes f.evtType)).Sublist f.calls ∧
    b2.Sublist todo
  calls : f.calls.Sublist passed
  takes : ∀ x ∈ f.calls, x.2.takes f.evtType = true

/-- The dispatch `f` in the list `E`. -/
def At (f : Dispatch F P) (E : List (Nat × ZEventCB F P)) : Prop :=
  ∃ passed todo, E = passed ++ todo ∧ f.Between passed todo

/-- At its start. -/
theorem at_began {evtid : UInt32} {evtType : EZCRTEvtType} {evtdata : P} {cur : Option Nat}
    (hcur : cur = E.head?.map Prod.fst) :
    Dispatch.At { evtid := evtid, evtType := evtType, evtdata := evtdata, cur := cur,
                  inCb := false, began := E, calls := [], left := [] } E :=
  ⟨[], E, rfl, fun h => (nomatch h), fun _ => hcur,
    ⟨[], E, rfl, List.Sublist.refl _, List.Sublist.refl _⟩, List.Sublist.refl _,
    fun _ h => (nomatch h)⟩

/-- A subscription put into its list by a callback. -/
theorem At.place (h : f.At E) (hcb : f.inCb = true) {l r : List (Nat × ZEventCB F P)}
    (hE : E = l ++ r) : f.At (l ++ x :: r) := by
  obtain ⟨passed, todo, hsplit, hb⟩ := h
  obtain ⟨b1, b2, hbegan, hb1, hb2⟩ := hb.due
  have hloop : ∀ {todo : List (Nat × ZEventCB F P)}, f.inCb = false →
      f.cur = todo.head?.map Prod.fst := fun hf => nomatch hcb.symm.trans hf
  -- the new one is before the loop, or behind it
  have hfront : ∀ s, l = passed ++ s → todo = s ++ r → f.At (l ++ x :: r) := by
    rintro s rfl rfl
    refine ⟨passed, s ++ x :: r, List.append_assoc .., hb.inCb, hloop,
      ⟨b1, b2, hbegan, hb1, ?_⟩, hb.calls, hb.takes⟩
    exact hb2.trans ((List.sublist_cons_self x r).append_left s)
  rcases List.append_eq_append_iff.mp (hsplit.symm.trans hE) with ⟨s, hl, ht⟩ | ⟨s, hp, hr⟩
  · exact hfront s hl ht
  · rcases List.eq_nil_or_concat s with rfl | ⟨s, y, rfl⟩
    · exact hfront [] (by rw [hp]; simp) (by rw [hr]; rfl)
    · obtain ⟨hcur, -⟩ := hb.inCb hcb
      subst hp hr
      refine ⟨l ++ x :: s.concat y, todo, by simp, fun _ => ⟨?_, by simp⟩, hloop,
        ⟨b1, b2, hbegan, hb1, hb2⟩, ?_, hb.takes⟩
      · rw [hcur, List.concat_eq_append, ← List.cons_append, ← List.append_assoc,
          ← List.append_assoc, List.getLast?_concat, List.getLast?_concat]
      · exact hb.calls.trans ((List.sublist_cons_self x _).append_left l)

/-- The callback of the node it is at is called. -/
theorem Between.call (h : f.Between passed (x :: todo)) (hcb : f.inCb = false)
    (ht : x.2.takes f.evtType = true) :
    Between { f with inCb := true, calls := f.calls ++ [x] } (passed ++ [x]) todo := by
  obtain ⟨b1, b2, hbegan, hb1, hb2⟩ := h.due
  refine ⟨fun _ => ⟨?_, by simp⟩, fun hf => (nomatch hf), ?_, h.calls.append_right [x],
    fun y hy => ?_⟩
  · change f.cur = _
    rw [h.loop hcb]
    simp
  · rcases List.sublist_cons_iff.mp hb2 with hb2 | ⟨r, rfl, hb2⟩
    · exact ⟨b1, b2, hbegan, hb1.trans (List.sublist_append_left ..), hb2⟩
    · refine ⟨b1 ++ [x], r, by simp [hbegan], ?_, hb2.of_cons_cons⟩
      change ((b1 ++ [x]).filter (·.2.takes f.evtType)).Sublist (f.calls ++ [x])
      rw [List.filter_append, List.filter_eq_self (l := [x]) |>.mpr (by simpa using ht)]
      exact hb1.append_right [x]
  · rcases List.mem_append.mp hy with hy | hy
    · exact h.takes y hy
    · rw [List.mem_singleton.mp hy]
      exact ht

/-- The node it is at is passed over. -/
theorem Between.skip (h : f.Between passed (x :: todo)) (hcb : f.inCb = false)
    (ht : x.2.takes f.evtType = false) :
    Between { f with cur := todo.head?.map Prod.fst } (passed ++ [x]) todo := by
  obtain ⟨b1, b2, hbegan, hb1, hb2⟩ := h.due
  refine ⟨fun hf => (nomatch hcb.symm.trans hf), fun _ => rfl, ?_,
    h.calls.trans (List.sublist_append_left ..), h.takes⟩
  rcases List.sublist_cons_iff.mp hb2 with hb2 | ⟨r, rfl, hb2⟩
  · exact ⟨b1, b2, hbegan, hb1, hb2⟩
  · refine ⟨b1 ++ [x], r, by simp [hbegan], ?_, hb2.of_cons_cons⟩
    change ((b1 ++ [x]).filter (·.2.takes f.evtType)).Sublist f.calls
    rw [List.filter_append, List.filter_eq_nil_iff (l := [x]) |>.mpr (by simp [ht]),
      List.append_nil]
    exact hb1

/-- The callback returns. -/
theorem Between.back (h : f.Between passed todo) :
    Between { f with inCb := false, cur := todo.head?.map Prod.fst } passed todo :=
  ⟨fun hf => (nomatch hf), fun _ => rfl, h.due, h.calls, h.takes⟩

/-- What a dispatch has done when it ends: it called what was registered when it began and takes the
    event, nothing twice, all in the order of their priorities, and nothing that is not in the list
    of its event. -/
structure Delivered (f : Dispatch F P) : Prop where
  all : (f.began.filter (·.2.takes f.evtType)).Sublist f.calls
  once : (f.calls.map Prod.fst).Nodup
  order : f.calls.Pairwise fun x y => y.2.pri ≤ x.2.pri
  takes : ∀ x ∈ f.calls, x.2.takes f.evtType = true
  registered : f.calls.Sublist f.left

theorem At.delivered (h : f.At E) (hcb : f.inCb = false) (hcur : f.cur = none)
    (hE : (E.map Prod.fst).Nodup) (hs : E.Pairwise fun x y => y.2.pri ≤ x.2.pri) :
    Delivered { f with left := E } := by
  obtain ⟨passed, todo, rfl, hb⟩ := h
  obtain ⟨b1, b2, hbegan, hb1, hb2⟩ := hb.due
  have htodo : todo = [] :=
    List.head?_eq_none_iff.mp (Option.map_eq_none_iff.mp ((hb.loop hcb).symm.trans hcur))
  obtain rfl : b2 = [] := List.sublist_nil.mp (htodo ▸ hb2)
  have hsub := hb.calls.trans (List.sublist_append_left passed todo)
  refine ⟨?_, (hsub.map Prod.fst).nodup hE, hs.sublist hsub, hb.takes, hsub⟩
  rw [hbegan, List.append_nil]
  exact hb1

end Dispatch

/-! ## The threads together -/

/-- The node a call has in its hands. -/
def EvtPc.job : EvtPc F P → Option Nat
  | .linking job _ _ => job
  | _ => none

/-- What a call in progress relies on: its node is in no list, and it removes from no list that a
    dispatch around it is in. -/
def EvtPc.At (ns : List (Node (ZEventCB F P))) (ls : Option UInt32 → List Nat)
    (frames : List (Dispatch F P)) : EvtPc F P → Prop
  | .linking job priority evtid => evtid < ZCRT_MAX_EVT ∧ ∃ a cb, job = some a ∧
      cb.pri = priority ∧ cb.fn.isSome ∧ ns[a]? = some ⟨cb, none⟩ ∧ ∀ k, a ∉ ls k
  | .removing evtid _ _ _ => ∀ f ∈ frames, f.evtid ≠ evtid
  | _ => True

section Pc

variable {pc : EvtPc F P} {ns ns' : List (Node (ZEventCB F P))} {ls ls' : Option UInt32 → List Nat}
  {frames : List (Dispatch F P)}

theorem EvtPc.At.loose (h : pc.At ns ls frames) {a : Nat} (ha : pc.job = some a) :
    a < ns.length ∧ ∀ k, a ∉ ls k := by
  cases pc with
  | linking job priority evtid =>
      obtain ⟨-, b, cb, rfl, -, -, hn, hloose⟩ := h
      obtain rfl := Option.some.inj ha
      exact ⟨Nodes.lt_of_node hn, hloose⟩
  | _ => exact nomatch ha

theorem EvtPc.At.congr (h : pc.At ns ls frames)
    (hkeep : ∀ a, pc.job = some a → ns'[a]? = ns[a]? ∧ ∀ k, a ∉ ls' k) : pc.At ns' ls' frames := by
  cases pc with
  | linking job priority evtid =>
      obtain ⟨he, a, cb, rfl, hpri, hfn, hn, -⟩ := h
      obtain ⟨hsame, hloose⟩ := hkeep a rfl
      exact ⟨he, a, cb, rfl, hpri, hfn, hsame.trans hn, hloose⟩
  | _ => exact h

end Pc

/-- A thread is in its calls and dispatches as the lists are. -/
structure EvtThread.Ok (ns : List (Node (ZEventCB F P))) (mng : ZEvent F P)
    (ls : Option UInt32 → List Nat) (th : EvtThread F P) : Prop where
  pc : th.pc.At ns ls th.frames
  at_list : ∀ f ∈ th.frames, f.At (EvtRep.entries mng ls f.evtid)
  outer : ∀ f ∈ th.frames.tail, f.inCb = true
  busy : th.pc ≠ .idle → ∀ f ∈ th.frames, f.inCb = true

/-- Each node is in one list or in the hands of one thread, dispatches run in the thread that has
    the mutex, and those that ended delivered. -/
structure EvtShared.Ok (st : EvtShared F P) (mng : ZEvent F P) (ls : Option UInt32 → List Nat) :
    Prop where
  rep : EvtRep st.heap mng ls
  bound : ∀ e, e ≥ ZCRT_MAX_EVT → ls (some e) = []
  fns : ∀ e, ∀ cb ∈ mng.evtlist e, cb.fn.isSome
  sorted : ∀ e, (mng.evtlist e).Pairwise fun x y => y.pri ≤ x.pri
  threads : ∀ t, (st.threads t).Ok st.heap.nodes mng ls
  owner : ∀ t, (st.threads t).frames ≠ [] → st.owner = some t
  cover : ∀ a, a < st.heap.nodes.length → (∃ k, a ∈ ls k) ∨ ∃ t, (st.threads t).pc.job = some a
  apart : ∀ t u a, (st.threads t).pc.job = some a → (st.threads u).pc.job = some a → t = u
  ended : ∀ f ∈ st.ended, f.Delivered

namespace EvtShared

theorem ok_init : ({ heap := .manageInit, owner := none, threads := fun _ => ⟨.idle, []⟩,
                     ended := [] } : EvtShared F P).Ok zcrtEventManageInit fun _ => [] where
  rep := evtRep_init
  bound := fun _ _ => rfl
  fns := fun _ _ h => nomatch h
  sorted := fun _ => List.Pairwise.nil
  threads := fun _ => ⟨trivial, fun _ h => (nomatch h), fun _ h => (nomatch h),
    fun h => absurd rfl h⟩
  owner := fun _ h => absurd rfl h
  cover := fun _ h => absurd h (Nat.not_lt_zero _)
  apart := fun _ _ _ h => nomatch h
  ended := fun _ h => nomatch h

variable {st st' : EvtShared F P} {mng mng' : ZEvent F P} {ls ls' : Option UInt32 → List Nat}
  {t : Nat} {th : EvtThread F P} {w' : EvtHeap F P}

@[simp] theorem setThread_self : (st.setThread t th).threads t = th := Function.update_self ..

theorem setThread_of_ne {u : Nat} (h : u ≠ t) : (st.setThread t th).threads u = st.threads u :=
  Function.update_of_ne h ..

/-- A thread goes on, and the nodes are left as they are. -/
theorem Ok.move (h : st.Ok mng ls) (lastEvtid : UInt32) {owner : Option Nat}
    {ended : List (Dispatch F P)} (hth : th.Ok st.heap.nodes mng ls)
    (hjob : th.pc.job = (st.threads t).pc.job) (hown : th.frames ≠ [] → owner = some t)
    (hothers : ∀ u, u ≠ t → (st.threads u).frames ≠ [] → owner = some u)
    (hended : ∀ f ∈ ended, f.Delivered) :
    (({ st with heap := { st.heap with lastEvtid := lastEvtid }, owner := owner
                ended := ended } : EvtShared F P).setThread t th).Ok
      { mng with lastEvtid := lastEvtid } ls := by
  have hpc : ∀ u, (Function.update st.threads t th u).pc.job = (st.threads u).pc.job := by
    intro u
    by_cases hu : u = t
    · subst hu
      rw [Function.update_self, hjob]
    · rw [Function.update_of_ne hu]
  have hrep : EvtRep { st.heap with lastEvtid := lastEvtid }
      { mng with lastEvtid := lastEvtid } ls :=
    @EvtRep.setLast F P ⟨st.heap, [], []⟩ mng ls h.rep lastEvtid
  refine ⟨hrep, h.bound, h.fns, h.sorted, fun u => ?_, fun u => ?_, fun a ha => ?_,
    fun u v a hu hv => ?_, hended⟩
  · by_cases hu : u = t
    · subst hu
      rw [setThread_self]
      exact ⟨hth.pc, hth.at_list, hth.outer, hth.busy⟩
    · rw [setThread_of_ne hu]
      obtain ⟨hpc, hat, houter, hbusy⟩ := h.threads u
      exact ⟨hpc, hat, houter, hbusy⟩
  · by_cases hu : u = t
    · subst hu
      rw [setThread_self]
      exact hown
    · rw [setThread_of_ne hu]
      exact hothers u hu
  · rcases h.cover a ha with hin | ⟨u, hu⟩
    · exact Or.inl hin
    · exact Or.inr ⟨u, (hpc u).trans hu⟩
  · exact h.apart u v a ((hpc u).symm.trans hu) ((hpc v).symm.trans hv)

/-- While a thread may lock the mutex, no other one is in a dispatch. -/
theorem Ok.others (h : st.Ok mng ls) (hlock : st.mayLock t = true) {u : Nat} (hu : u ≠ t) :
    (st.threads u).frames = [] := by
  by_contra hne
  have hown := h.owner u hne
  unfold mayLock at hlock
  rcases of_decide_eq_true hlock with hnone | hself
  · exact nomatch hnone.symm.trans hown
  · exact hu (Option.some.inj (hown.symm.trans hself))

/-- A region changes the lists, and leaves alone the nodes in the hands of the other threads. -/
theorem Ok.region (h : st.Ok mng ls) (hlock : st.mayLock t = true) (hrep : EvtRep w' mng' ls')
    (hbound : ∀ e, e ≥ ZCRT_MAX_EVT → ls' (some e) = [])
    (hfns : ∀ e, ∀ cb ∈ mng'.evtlist e, cb.fn.isSome)
    (hsorted : ∀ e, (mng'.evtlist e).Pairwise fun x y => y.pri ≤ x.pri)
    (hth : th.Ok w'.nodes mng' ls') (hframes : th.frames = (st.threads t).frames)
    (hkeep : ∀ b, b < st.heap.nodes.length → (∀ k, b ∉ ls k) → (st.threads t).pc.job ≠ some b →
      w'.nodes[b]? = st.heap.nodes[b]? ∧ ∀ k, b ∉ ls' k)
    (hjob : ∀ b, th.pc.job = some b → b ∈ ls none ∨ b = st.heap.nodes.length)
    (hcover : ∀ b, b < w'.nodes.length → (∃ k, b ∈ ls' k) ∨ th.pc.job = some b ∨
      b < st.heap.nodes.length ∧ (∀ k, b ∉ ls k) ∧ (st.threads t).pc.job ≠ some b) :
    (({ st with heap := w' } : EvtShared F P).setThread t th).Ok mng' ls' := by
  -- the node of another thread is neither that of this one nor the one it takes
  have hloose : ∀ u b, (st.threads u).pc.job = some b → b < st.heap.nodes.length ∧ ∀ k, b ∉ ls k :=
    fun u b hb => (h.threads u).pc.loose hb
  have hnot : ∀ u b, u ≠ t → (st.threads u).pc.job = some b → th.pc.job ≠ some b := by
    intro u b hu hb hbt
    obtain ⟨hlt, hnone⟩ := hloose u b hb
    rcases hjob b hbt with hfree | rfl
    · exact hnone none hfree
    · exact absurd hlt (Nat.lt_irrefl _)
  have hown : ∀ u b, u ≠ t → (st.threads u).pc.job = some b → (st.threads t).pc.job ≠ some b :=
    fun u b hu hb hbt => hu (h.apart u t b hb hbt)
  refine ⟨hrep, hbound, hfns, hsorted, fun u => ?_, fun u => ?_, fun b hb => ?_,
    fun u v b hu hv => ?_, h.ended⟩
  · by_cases hu : u = t
    · subst hu
      rw [setThread_self]
      exact hth
    · rw [setThread_of_ne hu]
      have hnil := h.others hlock hu
      refine ⟨(h.threads u).pc.congr fun b hb => ?_, fun f hf => ?_, (h.threads u).outer,
        (h.threads u).busy⟩
      · exact hkeep b (hloose u b hb).1 (hloose u b hb).2 (hown u b hu hb)
      · change f ∈ (st.threads u).frames at hf
        rw [hnil] at hf
        exact nomatch hf
  · by_cases hu : u = t
    · subst hu
      rw [setThread_self, hframes]
      exact h.owner u
    · rw [setThread_of_ne hu]
      exact h.owner u
  · rcases hcover b hb with hin | hmine | ⟨hlt, hnone, hne⟩
    · exact Or.inl hin
    · exact Or.inr ⟨t, by rw [setThread_self]; exact hmine⟩
    · obtain ⟨k, hk⟩ | ⟨u, hu⟩ := h.cover b hlt
      · exact absurd hk (hnone k)
      · refine Or.inr ⟨u, ?_⟩
        have hut : u ≠ t := by
          rintro rfl
          exact hne hu
        rw [setThread_of_ne hut]
        exact hu
  · by_cases hut : u = t <;> by_cases hvt : v = t
    · rw [hut, hvt]
    · rw [hut, setThread_self] at hu
      rw [setThread_of_ne hvt] at hv
      exact absurd hu (hnot v b hvt hv)
    · rw [hvt, setThread_self] at hv
      rw [setThread_of_ne hut] at hu
      exact absurd hv (hnot u b hut hu)
    · rw [setThread_of_ne hut] at hu
      rw [setThread_of_ne hvt] at hv
      exact h.apart u v b hu hv

/-! ## One step -/

/-- A step is not possible, or fails the assertion, or leaves the threads as they should be. -/
def Safe : Option (Except Fault (EvtShared F P)) → Prop
  | none => True
  | some (.error e) => e = .assert
  | some (.ok st) => ∃ mng ls, st.Ok mng ls

/-- In a callback, or outside of all dispatches. -/
theorem Ok.calling (h : st.Ok mng ls) (hc : (st.threads t).calling = true) :
    (st.threads t).pc = .idle ∧ ∀ f ∈ (st.threads t).frames, f.inCb = true := by
  have houter := (h.threads t).outer
  unfold EvtThread.calling at hc
  split at hc
  · rename_i hpc hframes
    exact ⟨hpc, fun f hf => by rw [hframes] at hf; exact nomatch hf⟩
  · rename_i f fs hpc hframes
    refine ⟨hpc, fun g hg => ?_⟩
    rw [hframes] at hg houter
    rcases List.mem_cons.mp hg with rfl | hg
    · exact hc
    · exact houter g hg
  · exact nomatch hc

/-- A thread that calls, in another place of the code. -/
theorem Ok.goes (h : st.Ok mng ls) (hc : (st.threads t).calling = true) {pc : EvtPc F P}
    (hpc : pc.At st.heap.nodes ls (st.threads t).frames) :
    EvtThread.Ok st.heap.nodes mng ls { st.threads t with pc := pc } :=
  ⟨hpc, (h.threads t).at_list, (h.threads t).outer, fun _ => (h.calling hc).2⟩

theorem Ok.registerStep (h : st.Ok mng ls) (hc : (st.threads t).calling = true) (priority : UInt8)
    (evtid : UInt32) (evtType : EZCRTEvtType) (cb : Option F) (p1 p2 : P) :
    Safe (st.registerStep t true priority evtid evtType cb p1 p2) := by
  unfold EvtShared.registerStep
  by_cases hguard : evtid ≥ ZCRT_MAX_EVT ∨ cb.isNone
  · rw [if_pos hguard]
    exact ⟨mng, ls, h⟩
  · rw [if_neg hguard]
    obtain ⟨he, hcb⟩ := not_or.mp hguard
    by_cases hlock : st.mayLock t = true
    · rw [if_pos hlock]
      obtain ⟨a, w', mng', ls', hw, htaken⟩ := EvtRep.mallocCb_taken h.rep
        ⟨cb, priority, evtType, p1, p2⟩
      have hlists : ∀ e, EvtRep.entries mng' ls' e = EvtRep.entries mng ls e := fun e => by
        unfold EvtRep.entries
        rw [htaken.evtlist, htaken.same]
      have hidle : (st.threads t).pc.job = none := by
        rw [(h.calling hc).1]
        rfl
      change st.heap.mallocCb true priority evtType cb p1 p2 = _ at hw
      rw [hw]
      refine ⟨mng', ls', h.region hlock htaken.rep (fun e hge => ?_) ?_ ?_
        ⟨⟨UInt32.not_le.mp he, a, _, rfl, rfl, ?_, htaken.node, htaken.loose h.rep⟩, fun f hf => ?_,
          (h.threads t).outer, fun _ => (h.calling hc).2⟩ rfl
        (fun b hlt hb _ => htaken.keep hlt hb) (fun b hb => ?_) (fun b hb => ?_)⟩
      · rw [htaken.same]
        exact h.bound e hge
      · rw [htaken.evtlist]
        exact h.fns
      · rw [htaken.evtlist]
        exact h.sorted
      · cases cb with
        | none => exact absurd rfl hcb
        | some _ => rfl
      · rw [hlists]
        exact (h.threads t).at_list f hf
      · obtain rfl := Option.some.inj hb
        exact htaken.source
      · rcases htaken.cover hb with hin | rfl | ⟨hlt, hnone⟩
        · exact Or.inl hin
        · exact Or.inr (Or.inl rfl)
        · exact Or.inr (Or.inr ⟨hlt, hnone, by rw [hidle]; exact nofun⟩)
    · rw [if_neg hlock]
      trivial

/-- The second region of a registration: the node is put into the list, and a dispatch of its event
    goes on as it was. -/
theorem Ok.placeStep (h : st.Ok mng ls) {job : Option Nat} {priority : UInt8} {evtid : UInt32}
    (hpc : (st.threads t).pc = .linking job priority evtid) :
    Safe (st.regionStep t (st.heap.place priority evtid job)) := by
  unfold regionStep
  by_cases hlock : st.mayLock t = true
  · rw [if_pos hlock]
    have hat := (h.threads t).pc
    rw [hpc] at hat
    obtain ⟨he, a, cb, rfl, rfl, hfn, hn, hloose⟩ := hat
    obtain ⟨w', mng', ls', hw, hplaced⟩ := EvtRep.place_placed h.rep hloose hn evtid
    have hmine : (st.threads t).pc.job = some a := by
      rw [hpc]
      rfl
    have hbusy := (h.threads t).busy (by rw [hpc]; exact nofun)
    rw [hw]
    refine ⟨mng', ls', h.region hlock hplaced.rep (fun e hge => ?_) (fun e cb' hcb => ?_)
      (fun e => ?_)
      ⟨trivial, fun f hf => ?_, (h.threads t).outer, fun hne => absurd rfl hne⟩ rfl
      (fun b _ hb hne => hplaced.keep h.rep (fun hba => hne (hba ▸ hmine)) hb)
      (fun b hb => nomatch hb) (fun b hb => ?_)⟩
    · rw [hplaced.same _ fun heq => ?_]
      · exact h.bound e hge
      · rw [Option.some.inj heq] at hge
        exact absurd he (UInt32.not_lt.mpr hge)
    · by_cases hee : e = evtid
      · subst hee
        exact (hplaced.mem_evtlist h.rep hcb).elim (h.fns e cb') fun heq => heq ▸ hfn
      · rw [hplaced.other e hee] at hcb
        exact h.fns e cb' hcb
    · by_cases hee : e = evtid
      · subst hee
        exact hplaced.sorted h.rep (h.sorted e)
      · rw [hplaced.other e hee]
        exact h.sorted e
    · by_cases hfe : f.evtid = evtid
      · obtain ⟨l, r, hE, hE', -, -⟩ := hplaced.split
        rw [hfe, hE']
        exact ((h.threads t).at_list f hf).place (hbusy f hf) (by rw [hfe, hE])
      · unfold EvtRep.entries
        rw [hplaced.other _ hfe, hplaced.same _ fun heq => hfe (Option.some.inj heq)]
        exact (h.threads t).at_list f hf
    · rcases hplaced.cover h.rep b with hin | ⟨hnone, hba⟩
      · exact Or.inl hin
      · refine Or.inr (Or.inr ⟨hplaced.length ▸ hb, hnone, fun hjob => hba ?_⟩)
        exact Option.some.inj (hjob.symm.trans hmine)
  · rw [if_neg hlock]
    trivial

/-- The region of a removal: no dispatch around it is in that list. -/
theorem Ok.removeStep [DecidableEq F] [DecidableEq P] (h : st.Ok mng ls) {evtid : UInt32}
    {cb : Option F} {p1 p2 : P} (hpc : (st.threads t).pc = .removing evtid cb p1 p2) :
    Safe (st.regionStep t (st.heap.remove evtid cb p1 p2)) := by
  unfold regionStep
  by_cases hlock : st.mayLock t = true
  · rw [if_pos hlock]
    have hat := (h.threads t).pc
    rw [hpc] at hat
    rcases EvtRep.remove_removed h.rep evtid cb p1 p2 with hw | ⟨a, w', mng', ls', hw, hrem⟩
    · rw [hw]
      refine ⟨_, ls, h.move st.heap.lastEvtid ⟨trivial, (h.threads t).at_list, (h.threads t).outer,
        fun hne => absurd rfl hne⟩ ?_ (h.owner t) (fun u _ => h.owner u) h.ended⟩
      rw [hpc]
      rfl
    · rw [hw]
      have hidle : (st.threads t).pc.job = none := by
        rw [hpc]
        rfl
      refine ⟨mng', ls', h.region hlock hrem.rep (fun e hge => ?_) (fun e cb' hcb => ?_)
        (fun e => ?_)
        ⟨trivial, fun f hf => ?_, (h.threads t).outer, fun hne => absurd rfl hne⟩ rfl
        (fun b _ hb _ => ⟨hrem.nodes b (hb _), fun k hk => ?_⟩) (fun b hb => nomatch hb)
        (fun b hb => ?_)⟩
      · by_cases hee : e = evtid
        · subst hee
          exact List.eq_nil_iff_forall_not_mem.mpr fun b hb => by
            have hin := ((hrem.left b).mp hb).1
            rw [h.bound e hge] at hin
            exact nomatch hin
        · rw [hrem.same e hee]
          exact h.bound e hge
      · by_cases hee : e = evtid
        · subst hee
          exact h.fns e cb' (hrem.sub.subset hcb)
        · rw [hrem.other e hee] at hcb
          exact h.fns e cb' hcb
      · by_cases hee : e = evtid
        · subst hee
          exact (h.sorted e).sublist hrem.sub
        · rw [hrem.other e hee]
          exact h.sorted e
      · have hfe : f.evtid ≠ evtid := hat f hf
        unfold EvtRep.entries
        rw [hrem.other _ hfe, hrem.same _ hfe]
        exact (h.threads t).at_list f hf
      · obtain ⟨k', hk'⟩ := hrem.mem.mp ⟨k, hk⟩
        exact hb k' hk'
      · by_cases hin : ∃ k, b ∈ ls k
        · exact Or.inl (hrem.mem.mpr hin)
        · refine Or.inr (Or.inr ⟨hrem.length ▸ hb, not_exists.mp hin, ?_⟩)
          rw [hidle]
          exact nofun
  · rw [if_neg hlock]
    trivial

/-- The call a thread is in goes on. -/
theorem Ok.goStep [DecidableEq F] [DecidableEq P] (h : st.Ok mng ls) : Safe (st.goStep t) := by
  have hth := h.threads t
  unfold EvtShared.goStep
  cases hpc : (st.threads t).pc with
  | idle => trivial
  | linking job priority evtid => exact h.placeStep hpc
  | removing evtid cb p1 p2 => exact h.removeStep hpc
  | sending evtid evtType evtdata =>
      dsimp only
      by_cases hlock : st.mayLock t = true
      · rw [if_pos hlock]
        have hbusy := hth.busy (by rw [hpc]; exact nofun)
        have hhead : st.heap.evtlist evtid = (EvtRep.entries mng ls evtid).head?.map Prod.fst := by
          rw [← List.head?_map, h.rep.entries_fst]
          exact (h.rep.seg (some evtid)).head
        refine ⟨_, ls, h.move st.heap.lastEvtid ⟨trivial, fun f hf => ?_, hbusy,
          fun hne => absurd rfl hne⟩ (by rw [hpc]; rfl) (fun _ => rfl)
          (fun u hu hne => absurd (h.others hlock hu) hne) h.ended⟩
        rcases List.mem_cons.mp hf with rfl | hf
        · rw [h.rep.subs_eq]
          exact Dispatch.at_began hhead
        · exact hth.at_list f hf
      · rw [if_neg hlock]
        trivial
  | sent =>
      exact ⟨_, ls, h.move 0 ⟨trivial, hth.at_list, hth.outer, fun hne => absurd rfl hne⟩
        (by rw [hpc]; rfl) (h.owner t) (fun u _ => h.owner u) h.ended⟩

/-- A dispatch of a thread goes on. -/
theorem Ok.frame (h : st.Ok mng ls) {f f' : Dispatch F P} {fs : List (Dispatch F P)}
    (hpc : (st.threads t).pc = .idle) (hframes : (st.threads t).frames = f :: fs)
    (hat : f'.At (EvtRep.entries mng ls f'.evtid)) :
    ∃ mng ls, (st.setThread t { pc := .idle, frames := f' :: fs }).Ok mng ls := by
  have hth := h.threads t
  have hold := hth.at_list
  have houter := hth.outer
  rw [hframes] at hold houter
  refine ⟨_, ls, h.move st.heap.lastEvtid ⟨trivial, fun g hg => ?_, houter,
    fun hne => absurd rfl hne⟩ (by rw [hpc]) (fun _ => h.owner t (by rw [hframes]; exact nofun))
    (fun u _ => h.owner u) h.ended⟩
  rcases List.mem_cons.mp hg with rfl | hg
  · exact hat
  · exact hold g (List.mem_cons_of_mem _ hg)

theorem Ok.visitStep (h : st.Ok mng ls) {f : Dispatch F P} {fs : List (Dispatch F P)}
    (hpc : (st.threads t).pc = .idle) (hframes : (st.threads t).frames = f :: fs)
    (hcb : f.inCb = false) : Safe (st.visitStep t f fs) := by
  have hmem : f ∈ (st.threads t).frames := hframes ▸ List.mem_cons_self
  obtain ⟨passed, todo, hE, hb⟩ := (h.threads t).at_list f hmem
  unfold EvtShared.visitStep
  split
  · trivial
  · rename_i cur hcur
    cases todo with
    | nil => exact nomatch hcur.symm.trans (hb.loop hcb)
    | cons x todo =>
        obtain rfl : cur = x.1 := Option.some.inj (hcur.symm.trans (hb.loop hcb))
        have hE' : EvtRep.entries mng ls f.evtid = (passed ++ [x]) ++ todo := by
          rw [hE, List.append_assoc]
          rfl
        have hfn := h.fns f.evtid x.2 (by rw [← h.rep.entries_snd, hE]; simp)
        rw [Nodes.load_some (h.rep.entry hE), except_ok_bind]
        dsimp only
        cases ht : x.2.takes f.evtType with
        | true =>
            rw [if_pos rfl, if_neg (by rw [← Option.not_isSome, hfn]; simp)]
            exact h.frame hpc hframes ⟨_, todo, hE', hb.call hcb ht⟩
        | false =>
            rw [if_neg (by simp)]
            exact h.frame hpc hframes ⟨_, todo, hE', hb.skip hcb ht⟩

theorem Ok.backStep (h : st.Ok mng ls) {f : Dispatch F P} {fs : List (Dispatch F P)}
    (hpc : (st.threads t).pc = .idle) (hframes : (st.threads t).frames = f :: fs)
    (hcb : f.inCb = true) : Safe (st.backStep t f fs) := by
  have hmem : f ∈ (st.threads t).frames := hframes ▸ List.mem_cons_self
  obtain ⟨passed, todo, hE, hb⟩ := (h.threads t).at_list f hmem
  obtain ⟨hcur, hne⟩ := hb.inCb hcb
  rcases List.eq_nil_or_concat passed with rfl | ⟨l, x, rfl⟩
  · exact absurd rfl hne
  · rw [List.concat_eq_append, List.getLast?_concat, Option.map_some] at hcur
    have hsplit : EvtRep.entries mng ls f.evtid = l ++ x :: todo := by
      rw [hE]
      simp
    have hn := h.rep.entry hsplit
    rw [EvtShared.backStep, hcur, Nodes.load_some hn, except_ok_bind]
    exact h.frame hpc hframes ⟨_, todo, hE, hb.back⟩

theorem Ok.finishStep (h : st.Ok mng ls) {f : Dispatch F P} {fs : List (Dispatch F P)}
    (hpc : (st.threads t).pc = .idle) (hframes : (st.threads t).frames = f :: fs)
    (hcb : f.inCb = false) : Safe (st.finishStep t f fs) := by
  have hth := h.threads t
  have hold := hth.at_list
  have houter := hth.outer
  have hown := h.owner t (by rw [hframes]; exact nofun)
  rw [hframes] at hold houter
  unfold EvtShared.finishStep
  by_cases hcur : f.cur = none
  · rw [if_pos hcur]
    refine ⟨_, ls, h.move st.heap.lastEvtid ⟨trivial,
      fun g hg => hold g (List.mem_cons_of_mem _ hg),
      fun g hg => houter g (List.mem_of_mem_tail hg), fun _ g hg => houter g hg⟩
      (by rw [hpc]; rfl) (fun hne => ?_) (fun u hu hne => ?_) (fun g hg => ?_)⟩
    · cases fs with
      | nil => exact absurd rfl hne
      | cons => rfl
    · exact absurd (Option.some.inj ((h.owner u hne).symm.trans hown)) hu
    · rcases List.mem_append.mp hg with hg | hg
      · exact h.ended g hg
      · rw [List.mem_singleton.mp hg, h.rep.subs_eq]
        exact (hold f List.mem_cons_self).delivered hcb hcur (h.rep.entries_nodup f.evtid)
          (h.rep.entries_sorted (h.sorted f.evtid))
  · rw [if_neg hcur]
    trivial

theorem safe_onFrame (inCb : Bool) {step : Dispatch F P → List (Dispatch F P) →
    Option (Except Fault (EvtShared F P))}
    (hstep : ∀ f fs, (st.threads t).pc = .idle → (st.threads t).frames = f :: fs →
      f.inCb = inCb → Safe (step f fs)) : Safe (st.onFrame t inCb step) := by
  unfold EvtShared.onFrame
  split
  · rename_i f fs hpc hframes
    split
    · exact hstep f fs hpc hframes ‹_›
    · trivial
  · trivial

/-- One step of any thread. -/
theorem Ok.exec [DecidableEq F] [DecidableEq P] (h : st.Ok mng ls) {act : ThreadAct F P}
    (hp : st.Proper (t, act)) : Safe (st.exec t act) := by
  cases act with
  | op op =>
      by_cases hc : (st.threads t).calling = true
      · unfold EvtShared.exec
        dsimp only
        rw [if_pos hc]
        cases op with
        | register mem priority evtid cb p1 p2 =>
            obtain rfl : mem = true := hp
            exact h.registerStep hc ..
        | registerEx mem priority evtid evtType cb p1 p2 =>
            obtain rfl : mem = true := hp
            exact h.registerStep hc ..
        | unregister evtid cb p1 p2 =>
            unfold opStep
            dsimp only
            split
            · exact ⟨mng, ls, h⟩
            · split
              · rfl
              · have hremoving : (EvtPc.removing evtid cb p1 p2).At st.heap.nodes ls
                    (st.threads t).frames := hp
                exact ⟨_, ls, h.move st.heap.lastEvtid (h.goes hc hremoving)
                  (by rw [(h.calling hc).1]; rfl) (h.owner t) (fun u _ => h.owner u) h.ended⟩
      · unfold EvtShared.exec
        dsimp only
        rw [if_neg hc]
        trivial
  | send evtid evtType evtdata =>
      by_cases hc : (st.threads t).calling = true
      · unfold EvtShared.exec sendStep
        dsimp only
        rw [if_pos hc]
        split
        · exact ⟨mng, ls, h⟩
        · have hsending : (EvtPc.sending evtid evtType evtdata : EvtPc F P).At st.heap.nodes ls
              (st.threads t).frames := trivial
          exact ⟨_, ls, h.move evtid (h.goes hc hsending)
            (by rw [(h.calling hc).1]; rfl) (h.owner t) (fun u _ => h.owner u) h.ended⟩
      · unfold EvtShared.exec
        dsimp only
        rw [if_neg hc]
        trivial
  | go => exact h.goStep
  | visit => exact safe_onFrame false fun _ _ hpc hframes hcb => h.visitStep hpc hframes hcb
  | back => exact safe_onFrame true fun _ _ hpc hframes hcb => h.backStep hpc hframes hcb
  | finish => exact safe_onFrame false fun _ _ hpc hframes hcb => h.finishStep hpc hframes hcb

/-- Along every run of the threads. -/
theorem ok_of_reach [DecidableEq F] [DecidableEq P]
    (h : (evtThreads : Sys (EvtShared F P) _).Reach Proper st) : ∃ mng ls, st.Ok mng ls := by
  refine h.invariant (I := fun st => ∃ mng ls, st.Ok mng ls) (fun st hinit => ?_)
    fun st act st' hok hp hn => ?_
  · obtain rfl := hinit
    exact ⟨_, _, ok_init⟩
  · obtain ⟨mng, ls, hok⟩ := hok
    obtain ⟨t, act⟩ := act
    have hsafe := hok.exec hp
    obtain ⟨r, hr, hst⟩ := Option.bind_eq_some_iff.mp hn
    change st.exec t act = some r at hr
    rw [hr] at hsafe
    cases r with
    | error e => exact nomatch hst
    | ok st1 =>
        obtain rfl := Option.some.inj hst
        exact hsafe

/-- A thread registers, and another one sends: its callback registers a second subscription. -/
def twoThreads : List (Nat × ThreadAct Unit Unit) :=
  [(1, .op (.register true 10 1 (some ()) () ())), (1, .go), (0, .send 1 .evtAll ()), (0, .go),
    (0, .visit), (0, .op (.register true 5 1 (some ()) () ())), (0, .go)]

/-- A run of threads after which `p` holds. -/
theorem reach_twoThreads (acts : List (Nat × ThreadAct Unit Unit)) {p : EvtShared Unit Unit → Bool}
    (hr : ((evtThreads.run (fun st act => decide (st.Proper act))
      { heap := .manageInit, owner := none, threads := fun _ => ⟨.idle, []⟩, ended := [] }
      (twoThreads ++ acts)).map p) = some true) :
    ∃ st, (evtThreads : Sys (EvtShared Unit Unit) _).Reach Proper st ∧ p st = true :=
  Sys.reach_of_run (fun _ _ h => of_decide_eq_true h) (.init rfl) _ hr

/-- Every dispatch that ended, whatever the other threads and its own callbacks did meanwhile. -/
theorem ended_delivered [DecidableEq F] [DecidableEq P]
    (h : (evtThreads : Sys (EvtShared F P) _).Reach Proper st) {f : Dispatch F P}
    (hf : f ∈ st.ended) : f.Delivered := by
  obtain ⟨mng, ls, hok⟩ := ok_of_reach h
  exact hok.ended f hf

/-- Both subscriptions are called, and one of them was there when the dispatch began. -/
theorem ended_delivered_two : ∃ st : EvtShared Unit Unit, evtThreads.Reach Proper st ∧
    ∃ f ∈ st.ended, f.began.length = 1 ∧ f.calls.length = 2 ∧ f.left.length = 2 ∧
      f.Delivered := by
  obtain ⟨st, hst, hp⟩ := reach_twoThreads [(0, .back), (0, .visit), (0, .back), (0, .finish)]
    (p := fun st => st.ended.any fun f =>
      decide (f.began.length = 1 ∧ f.calls.length = 2 ∧ f.left.length = 2))
    (by decide)
  obtain ⟨f, hf, hlen⟩ := List.any_eq_true.mp hp
  obtain ⟨hbegan, hcalls, hleft⟩ := of_decide_eq_true hlen
  exact ⟨st, hst, f, hf, hbegan, hcalls, hleft, ended_delivered hst hf⟩

/-! ## The end -/

/-- The lists, in the order in which they are given back. -/
def deleteOrder : List (Option UInt32) :=
  (List.range ZCRT_MAX_EVT.toNat).map (fun i => some (UInt32.ofNat i)) ++ [none]

theorem mem_deleteOrder {e : UInt32} (he : e < ZCRT_MAX_EVT) : some e ∈ deleteOrder := by
  refine List.mem_append_left _ (List.mem_map.mpr ⟨e.toNat, List.mem_range.mpr he, ?_⟩)
  rw [UInt32.ofNat_toNat]

theorem deleteOrder_nodup : deleteOrder.Nodup := by
  refine List.nodup_append.mpr ⟨(List.nodup_map_iff_inj_on List.nodup_range).mpr ?_,
    List.nodup_singleton _, ?_⟩
  · intro i hi j hj hij
    have heq := congrArg UInt32.toNat (Option.some.inj hij)
    have hmax : ZCRT_MAX_EVT.toNat < 2 ^ 32 := ZCRT_MAX_EVT.toNat_lt
    rw [UInt32.toNat_ofNat', UInt32.toNat_ofNat',
      Nat.mod_eq_of_lt ((List.mem_range.mp hi).trans hmax),
      Nat.mod_eq_of_lt ((List.mem_range.mp hj).trans hmax)] at heq
    exact heq
  · intro x hx y hy heq
    obtain ⟨i, -, rfl⟩ := List.mem_map.mp hx
    exact nomatch heq.trans (List.mem_singleton.mp hy)

theorem manageDelete_eq (w : EvtHeap F P) :
    w.manageDelete = Nodes.freeChains w.nodes (deleteOrder.map w.first) [] := by
  unfold Nodes.freeChains deleteOrder
  rw [List.map_append, List.map_map, List.foldlM_append, List.foldlM_map]
  unfold EvtHeap.manageDelete
  congr 1
  funext freed
  exact (bind_pure _).symm

/-- `zcrt_event_manage_delete` gives each node back once, but for those that a registration has
    taken and not linked yet. -/
theorem manageDelete_freed [DecidableEq F] [DecidableEq P]
    (h : (evtThreads : Sys (EvtShared F P) _).Reach Proper st) :
    ∃ freed, st.heap.manageDelete = .ok freed ∧ freed.Nodup ∧
      ∀ a, a ∈ freed ↔ a < st.heap.nodes.length ∧ ∀ t, (st.threads t).pc.job ≠ some a := by
  obtain ⟨mng, ls, hok⟩ := ok_of_reach h
  have hnd : (deleteOrder.map ls).flatten.Nodup := by
    refine List.nodup_flatten.mpr ⟨fun l hl => ?_, List.pairwise_map.mpr ?_⟩
    · obtain ⟨k, -, rfl⟩ := List.mem_map.mp hl
      exact (hok.rep.seg k).nodup
    · exact deleteOrder_nodup.imp fun hne a ha ha' => hne (hok.rep.apart _ _ a ha ha')
  have hsegs : List.Forall₂ (fun p l => Seg (Nodes.nextOf st.heap.nodes) p l none)
      (deleteOrder.map st.heap.first) (deleteOrder.map ls) := by
    rw [List.forall₂_map_left_iff, List.forall₂_map_right_iff, List.forall₂_same]
    exact fun k _ => hok.rep.seg k
  refine ⟨_, (manageDelete_eq _).trans (Nodes.freeChains_ok hsegs hnd), hnd, fun a => ?_⟩
  rw [List.nil_append, List.mem_flatten]
  constructor
  · rintro ⟨l, hl, ha⟩
    obtain ⟨k, -, rfl⟩ := List.mem_map.mp hl
    obtain ⟨n, hn⟩ := hok.rep.node ha
    exact ⟨Nodes.lt_of_node hn, fun t ht => ((hok.threads t).pc.loose ht).2 k ha⟩
  · rintro ⟨hlt, hnone⟩
    obtain ⟨k, hk⟩ | ⟨t, ht⟩ := hok.cover a hlt
    · refine ⟨ls k, List.mem_map_of_mem ?_, hk⟩
      cases k with
      | none => exact List.mem_append_right _ List.mem_cons_self
      | some e =>
          refine mem_deleteOrder (UInt32.not_le.mp fun hge => ?_)
          rw [hok.bound e hge] at hk
          exact nomatch hk
    · exact absurd ht (hnone t)

/-- A third node is taken and not linked. -/
theorem manageDelete_freed_two : ∃ st : EvtShared Unit Unit, evtThreads.Reach Proper st ∧
    st.heap.nodes.length = 3 ∧ (st.threads 1).pc.job = some 2 ∧
    ∃ freed, st.heap.manageDelete = .ok freed ∧ freed.Nodup ∧
      ∀ a, a ∈ freed ↔ a < st.heap.nodes.length ∧ ∀ t, (st.threads t).pc.job ≠ some a := by
  obtain ⟨st, hst, hp⟩ := reach_twoThreads
    [(0, .back), (0, .visit), (0, .back), (0, .finish),
      (1, .op (.register true 7 2 (some ()) () ()))]
    (p := fun st => decide (st.heap.nodes.length = 3 ∧ (st.threads 1).pc.job = some 2)) (by decide)
  obtain ⟨hlen, hjob⟩ := of_decide_eq_true hp
  exact ⟨st, hst, hlen, hjob, manageDelete_freed hst⟩

end EvtShared

end Zcrt
