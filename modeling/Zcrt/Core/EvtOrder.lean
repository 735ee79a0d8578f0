/-
  Which callbacks a dispatch calls, and in which order.

  * `Dispatched`: what holds of the dispatches while the subscriptions stay as they are.
  * `ends_of_send`: a dispatch whose callbacks return comes to its end.
  * `delivered_inOrder`: after any registrations and removals a dispatch calls each live
    subscription of its event and type once, highest priority first, and within one in the order
    they came.
  * `evtFreesize_wraps`: `freesize` after 2^31 removals.
-/
import Zcrt.Core.EvtGuard
import Zcrt.Core.EvtSubs

namespace Zcrt

open Lib

variable {F P : Type} [DecidableEq F] [DecidableEq P]

/-- A step that leaves the subscriptions as they are. -/
def NoChange (st : EvtState F P) : EvtAct F P → Prop
  | .op op => op.exec (some st.heap) = .ok (some st.heap)
  | _ => True

/-- What the dispatch `f` calls of these subscriptions. -/
def EvtFrame.chosen (f : EvtFrame F P) (c : List (ZEventCB F P)) : List (ZEventCB F P) :=
  c.filter fun cb => cb.takes f.evtType

omit [DecidableEq F] [DecidableEq P] in
theorem EvtFrame.chosen_snoc (f : EvtFrame F P) (c : List (ZEventCB F P)) (cb : ZEventCB F P) :
    f.chosen (c ++ [cb]) = if cb.takes f.evtType then f.chosen c ++ [cb] else f.chosen c := by
  let p : ZEventCB F P → Bool := fun cb => cb.takes f.evtType
  change (c ++ [cb]).filter p = if p cb then c.filter p ++ [cb] else c.filter p
  rw [List.filter_append]
  by_cases h : p cb
  · rw [if_pos h, List.filter_cons_of_pos h, List.filter_nil]
  · rw [if_neg h, List.filter_cons_of_neg h, List.filter_nil, List.append_nil]

/-- The dispatch `f` has called what is chosen of the subscriptions before its node, and of this one
    while its callback runs. -/
def EvtFrame.Halfway (w : EvtHeap F P) (mng : ZEvent F P) (f : EvtFrame F P) : Prop :=
  ∃ c1 c2 l, mng.evtlist f.evtid = c1 ++ c2 ∧ Seg (Nodes.nextOf w.nodes) f.cur l none ∧
    l.map (Nodes.dataOf w.nodes) = c2.map some ∧
    (f.inCb = false → f.calls = f.chosen c1) ∧
    (f.inCb = true → ∃ c r, c2 = c :: r ∧ f.calls = f.chosen (c1 ++ [c]))

/-- The links are those of `w`, the dispatches in progress are halfway, and those that ended called
    all that is chosen. -/
structure Dispatched (w : EvtHeap F P) (mng : ZEvent F P) (st : EvtState F P) : Prop where
  nodes : st.heap.nodes = w.nodes
  evtlist : st.heap.evtlist = w.evtlist
  frames : ∀ f ∈ st.frames, f.Halfway w mng
  ended : ∀ f ∈ st.ended, f.calls = f.chosen (mng.evtlist f.evtid)

section Step

variable {w : EvtHeap F P} {mng : ZEvent F P} {ls : Option UInt32 → List Nat}
  {st st' : EvtState F P} {act : EvtAct F P}

omit [DecidableEq F] [DecidableEq P] in
/-- The node a dispatch is at holds the next subscription, and links to the rest. -/
theorem halfway_cons {a : Nat} {n : Node (ZEventCB F P)} {l : List Nat} {c : List (ZEventCB F P)}
    (hseg : Seg (Nodes.nextOf w.nodes) (some a) l none)
    (hl : l.map (Nodes.dataOf w.nodes) = c.map some)
    (hn : w.nodes[a]? = some n) :
    ∃ l' r, c = n.data :: r ∧ Seg (Nodes.nextOf w.nodes) n.next l' none ∧
      l'.map (Nodes.dataOf w.nodes) = r.map some := by
  cases l with
  | nil => exact nomatch hseg
  | cons b l =>
      obtain ⟨hb, next, hnext, hseg⟩ := hseg
      obtain rfl := Option.some.inj hb
      obtain rfl := Option.some.inj ((Nodes.nextOf_of_node hn).symm.trans hnext)
      cases c with
      | nil => exact nomatch hl
      | cons c r =>
          obtain ⟨hc, hr⟩ := List.cons.inj hl
          rw [Nodes.dataOf_of_node hn] at hc
          exact ⟨l, r, by rw [Option.some.inj hc], hseg, hr⟩

/-- One step. -/
theorem Dispatched.step (h : Dispatched w mng st) (hrep : EvtRep w mng ls) (hc : NoChange st act)
    (hn : st.step act = some st') : Dispatched w mng st' := by
  have hmove : ∀ {f f' : EvtFrame F P} {fs : List (EvtFrame F P)}, st.frames = f :: fs →
      f'.Halfway w mng → ∀ g ∈ f' :: fs, g.Halfway w mng := by
    intro f f' fs hf hf' g hg
    rcases List.mem_cons.mp hg with rfl | hg
    · exact hf'
    · exact h.frames g (by rw [hf]; exact List.mem_cons_of_mem _ hg)
  cases act with
  | op op =>
      obtain ⟨-, w', hexec, rfl⟩ := EvtState.op_cases hn
      obtain rfl := Option.some.inj (Except.ok.inj (Eq.trans (Eq.symm hc) hexec))
      exact h
  | send evtid evtType evtdata =>
      obtain ⟨-, ⟨-, rfl⟩ | ⟨-, rfl⟩⟩ := EvtState.send_cases hn
      · exact h
      · refine ⟨h.nodes, h.evtlist, fun f hf => ?_, h.ended⟩
        rcases List.mem_cons.mp hf with rfl | hf
        · refine ⟨[], mng.evtlist evtid, ls (some evtid), rfl, ?_, hrep.cbs (some evtid),
            fun _ => rfl, fun hcb => nomatch hcb⟩
          dsimp only
          rw [h.evtlist]
          exact hrep.seg (some evtid)
        · exact h.frames f hf
  | visit =>
      obtain ⟨f, fs, a, n, hf, hcb, hcur, hnode, hcase⟩ := EvtState.visit_cases hn
      rw [h.nodes] at hnode
      obtain ⟨c1, c2, l, hsplit, hseg, hl, hcalls, -⟩ :=
        h.frames f (by rw [hf]; exact List.mem_cons_self)
      obtain ⟨l', r, rfl, hseg', hl'⟩ := halfway_cons (hcur ▸ hseg) hl hnode
      rcases hcase with ⟨htakes, -, rfl⟩ | ⟨htakes, rfl⟩
      · refine ⟨h.nodes, h.evtlist, hmove hf ?_, h.ended⟩
        refine ⟨c1, n.data :: r, l, hsplit, hseg, hl, (by simp), fun _ => ⟨n.data, r, rfl, ?_⟩⟩
        change f.calls ++ [n.data] = f.chosen (c1 ++ [n.data])
        rw [f.chosen_snoc, if_pos htakes, hcalls hcb]
      · refine ⟨h.nodes, h.evtlist, hmove hf ?_, h.ended⟩
        refine ⟨c1 ++ [n.data], r, l', ?_, hseg', hl', fun _ => ?_, fun he => ?_⟩
        · rw [List.append_assoc]
          exact hsplit
        · change f.calls = f.chosen (c1 ++ [n.data])
          rw [f.chosen_snoc, if_neg (by rw [htakes]; simp), hcalls hcb]
        · exact nomatch hcb.symm.trans he
  | back =>
      obtain ⟨f, fs, a, n, hf, hcb, hcur, hnode, rfl⟩ := EvtState.back_cases hn
      rw [h.nodes] at hnode
      obtain ⟨c1, c2, l, hsplit, hseg, hl, -, hcalls⟩ :=
        h.frames f (by rw [hf]; exact List.mem_cons_self)
      obtain ⟨c, r, rfl, hcalled⟩ := hcalls hcb
      obtain ⟨l', r', hcr, hseg', hl'⟩ := halfway_cons (hcur ▸ hseg) hl hnode
      obtain ⟨rfl, rfl⟩ := List.cons.inj hcr
      refine ⟨h.nodes, h.evtlist, hmove hf ?_, h.ended⟩
      refine ⟨c1 ++ [n.data], r, l', ?_, hseg', hl', fun _ => hcalled, (by simp)⟩
      rw [List.append_assoc]
      exact hsplit
  | finish =>
      obtain ⟨f, fs, hf, hcb, hcur, rfl⟩ := EvtState.finish_cases hn
      refine ⟨h.nodes, h.evtlist, fun g hg => ?_, fun g hg => ?_⟩
      · cases fs with
        | nil => exact absurd hg List.not_mem_nil
        | cons f1 fs =>
            rcases List.mem_cons.mp hg with rfl | hg
            · exact h.frames f1 (by rw [hf]; simp)
            · exact h.frames g (by rw [hf]; simp [hg])
      · rcases List.mem_append.mp hg with hg | hg
        · exact h.ended g hg
        · rw [List.mem_singleton.mp hg]
          obtain ⟨c1, c2, l, hsplit, hseg, hl, hcalls, -⟩ :=
            h.frames f (by rw [hf]; exact List.mem_cons_self)
          -- nothing is left
          rw [hcur] at hseg
          cases l with
          | nil =>
              rw [hcalls hcb, hsplit, List.map_eq_nil_iff.mp hl.symm, List.append_nil]
          | cons b l => exact nomatch hseg.1

theorem dispatched_of_reach (hrep : EvtRep w mng ls) (h : (evtSys w).Reach NoChange st) :
    Dispatched w mng st :=
  h.invariant
    (fun st hst => by
      rw [hst]
      exact ⟨rfl, rfl, fun f hf => absurd hf List.not_mem_nil,
        fun f hf => absurd hf List.not_mem_nil⟩)
    fun _ _ _ hI hc hn => hI.step hrep hc hn

/-- The callbacks of a dispatch that is left alone return one by one, up to its end. -/
theorem ends_of_loop {f : EvtFrame F P} {l : List Nat} {c : List (ZEventCB F P)}
    (h : (evtSys w).Reach NoChange st) (hnodes : st.heap.nodes = w.nodes)
    (hf : st.frames = [f]) (hcb : f.inCb = false) (hseg : Seg (Nodes.nextOf w.nodes) f.cur l none)
    (hl : l.map (Nodes.dataOf w.nodes) = c.map some) (hfn : ∀ cb ∈ c, cb.fn ≠ none) :
    ∃ st' f', (evtSys w).Reach NoChange st' ∧ st'.frames = [] ∧ st'.ended = st.ended ++ [f'] ∧
      f'.evtid = f.evtid ∧ f'.evtType = f.evtType ∧ f'.evtdata = f.evtdata := by
  induction l generalizing st f c with
  | nil =>
      have hcur : f.cur = none := hseg
      have hn : st.step .finish = some { st with
          heap := { st.heap with lastEvtid := 0 }
          frames := []
          ended := st.ended ++ [f] } := by
        change st.finishStep = _
        unfold EvtState.finishStep
        rw [hf]
        dsimp only
        rw [if_pos ⟨hcb, hcur⟩]
        rfl
      exact ⟨_, f, h.step (show NoChange st .finish from trivial) hn, rfl, rfl, rfl, rfl, rfl⟩
  | cons a l ih =>
      obtain ⟨hcur, next, hnext, hseg⟩ := hseg
      obtain ⟨n, hn, rfl⟩ := Option.map_eq_some_iff.mp hnext
      have hload : Nodes.load st.heap.nodes f.cur = .ok (a, n) := by
        rw [hcur]
        refine Nodes.load_some ?_
        rw [hnodes, hn]
      obtain ⟨-, r, rfl, -, hr⟩ := halfway_cons (l := a :: l) ⟨rfl, n.next, hnext, hseg⟩ hl hn
      have hfn' : ∀ cb ∈ r, cb.fn ≠ none := fun cb hm => hfn cb (List.mem_cons_of_mem _ hm)
      have hl' : l.map (Nodes.dataOf w.nodes) = r.map some := (List.cons.inj hl).2
      by_cases htakes : n.data.takes f.evtType
      · -- the callback is called, and returns
        let f1 : EvtFrame F P := { f with inCb := true, calls := f.calls ++ [n.data] }
        let st1 : EvtState F P := { st with frames := [f1] }
        let st2 : EvtState F P := { st with frames := [{ f1 with inCb := false, cur := n.next }] }
        have hvisit : st.step .visit = some st1 := by
          change st.visitStep = _
          unfold EvtState.visitStep
          rw [hf]
          dsimp only
          rw [hcb, if_neg (by simp), hload]
          dsimp only
          rw [if_pos htakes, if_neg]
          rw [Option.isNone_iff_eq_none]
          exact hfn n.data List.mem_cons_self
        have hframes : st1.frames = [f1] := rfl
        have hback : st1.step .back = some st2 := EvtState.backStep_of_load hframes rfl hload
        have h1 := h.step (show NoChange st .visit from trivial) hvisit
        have h2 : (evtSys w).Reach NoChange st2 :=
          h1.step (show NoChange st1 .back from trivial) hback
        have hend := ih h2 hnodes rfl rfl hseg hl' hfn'
        exact hend
      · let st1 : EvtState F P := { st with frames := [{ f with cur := n.next }] }
        have hvisit : st.step .visit = some st1 := by
          change st.visitStep = _
          unfold EvtState.visitStep
          rw [hf]
          dsimp only
          rw [if_neg (by rw [hcb]; simp), hload]
          dsimp only
          rw [if_neg htakes]
        have h1 : (evtSys w).Reach NoChange st1 :=
          h.step (show NoChange st .visit from trivial) hvisit
        have hend := ih h1 hnodes rfl hcb hseg hl' hfn'
        exact hend

/-- A dispatch that is left alone comes to its end. -/
theorem ends_of_send (hrep : EvtRep w mng ls) {evtid : UInt32} (evtType : EZCRTEvtType)
    (evtdata : P) (he : evtid < ZCRT_MAX_EVT) (hfn : ∀ cb ∈ mng.evtlist evtid, cb.fn ≠ none) :
    ∃ st f, (evtSys w).Reach NoChange st ∧ st.frames = [] ∧ st.ended = [f] ∧
      f.evtid = evtid ∧ f.evtType = evtType ∧ f.evtdata = evtdata := by
  let st0 : EvtState F P := { heap := w, frames := [], ended := [] }
  have hsend : st0.step (.send evtid evtType evtdata) = some { st0 with
      heap := { w with lastEvtid := evtid }
      frames := [{ evtid := evtid, evtType := evtType, evtdata := evtdata, cur := w.evtlist evtid,
                   inCb := false, nested := false, calls := [] }] } := by
    change st0.sendStep evtid evtType evtdata = _
    unfold EvtState.sendStep
    rw [if_pos (by rfl), if_neg (UInt32.not_le.mpr he)]
  have hinit : (evtSys w).Reach NoChange st0 := Sys.Reach.init rfl
  obtain ⟨st, f, h, hframes, hended, h1, h2, h3⟩ := ends_of_loop
    (hinit.step (show NoChange st0 (.send evtid evtType evtdata) from trivial) hsend) rfl rfl rfl
    (hrep.seg (some evtid)) (hrep.cbs (some evtid)) hfn
  exact ⟨st, f, h, hframes, hended, h1, h2, h3⟩

end Step

/-! ## After any registrations and removals -/

/-- Every dispatch from `w`, while the subscriptions stay as they are, calls those of `s` that it is
    for, in their order; and it ends. -/
def Delivers (w : EvtHeap F P) (s : EvtSubs F P) : Prop :=
  ∀ evtid evtType (evtdata : P), evtid < ZCRT_MAX_EVT →
    ∃ l : List (Sub F P), l.Pairwise Sub.Before ∧
      (∀ x, x ∈ l ↔ x ∈ s.live ∧ x.evtid = evtid ∧ x.cb.takes evtType) ∧
      (∀ st, (evtSys w).Reach NoChange st → ∀ f ∈ st.ended, f.evtid = evtid → f.evtType = evtType →
        f.calls = l.map Sub.cb) ∧
      ∃ st f, (evtSys w).Reach NoChange st ∧ st.frames = [] ∧ st.ended = [f] ∧
        f.evtid = evtid ∧ f.evtType = evtType ∧ f.evtdata = evtdata

/-- The free list ends, and `freesize` is its length, as far as an `int32_t` goes. -/
def FreeCounted (w : EvtHeap F P) : Prop :=
  ∃ l, Seg (Nodes.nextOf w.nodes) w.freelist l none ∧ w.freesize = Int32.ofNat l.length ∧
    (l.length < 2 ^ 31 → w.freesize.toInt = l.length)

/-- A registration is given a node when it asks the allocator. -/
def EvtOp.Served : EvtOp F P → Prop
  | register mem _ _ _ _ _ => mem = true
  | registerEx mem _ _ _ _ _ _ => mem = true
  | unregister _ _ _ _ => True

section Delivery

variable {w : EvtHeap F P} {mng : ZEvent F P} {ls : Option UInt32 → List Nat} {s : EvtSubs F P}
  {order : UInt32 → List (Sub F P)}

theorem delivers_of_rep (hrep : EvtRep w mng ls) (hs : SubsRep mng s order) : Delivers w s := by
  intro evtid evtType evtdata he
  refine ⟨(order evtid).filter fun x => x.cb.takes evtType, (hs.sorted evtid).filter _, fun x => ?_,
    fun st h f hf hid htype => ?_, ends_of_send hrep evtType evtdata he fun cb hcb => ?_⟩
  · rw [List.mem_filter, hs.mem, and_assoc]
  · rw [(dispatched_of_reach hrep h).ended f hf, hid, ← hs.lists evtid]
    unfold EvtFrame.chosen
    rw [List.filter_map, htype]
    rfl
  · rw [← hs.lists evtid] at hcb
    obtain ⟨x, hx, rfl⟩ := List.mem_map.mp hcb
    exact (hs.live x ((hs.mem evtid x).mp hx).1).2.2

omit [DecidableEq F] [DecidableEq P] in
/-- The free list has as many nodes as the list it stands for. -/
theorem EvtRep.free_length (hrep : EvtRep w mng ls) : (ls none).length = mng.freelist.length := by
  have hlen := congrArg List.length (hrep.cbs none)
  rw [List.length_map, List.length_map] at hlen
  exact hlen

omit [DecidableEq F] [DecidableEq P] in
theorem freeCounted_of_rep (hrep : EvtRep w mng ls) (hs : SubsRep mng s order) : FreeCounted w := by
  have hsize : w.freesize = Int32.ofNat (ls none).length := by
    rw [hrep.freesize, hs.freesize, hrep.free_length, ← hs.free]
  refine ⟨ls none, hrep.seg none, hsize, fun hlt => ?_⟩
  rw [hsize]
  exact Int32.toInt_ofNat_of_lt hlt

/-- Calls outside any dispatch, on the links and for the subscriptions. -/
theorem run_rep {ops : List (EvtOp F P)} (hops : ∀ op ∈ ops, op.evtid ≠ 0) (hrep : EvtRep w mng ls)
    (hs : SubsRep mng s order) :
    (ops.foldlM (fun s op => s.step op) s = none ∧ ∃ e, EvtOp.run (some w) ops = .error e) ∨
    ∃ s' w' mng' ls' order', ops.foldlM (fun s op => s.step op) s = some s' ∧
      EvtOp.run (some w) ops = .ok (some w') ∧ EvtRep w' mng' ls' ∧ SubsRep mng' s' order' := by
  induction ops generalizing w mng ls s order with
  | nil => exact Or.inr ⟨s, w, mng, ls, order, rfl, rfl, hrep, hs⟩
  | cons op ops ih =>
      have hrun : ∀ w0, op.exec (some w) = .ok w0 → EvtOp.run (some w) (op :: ops) =
          EvtOp.run w0 ops := fun w0 h => by
        unfold EvtOp.run
        rw [List.foldlM_cons, h]
        rfl
      rcases hs.execList_subs (hops op List.mem_cons_self) with
        ⟨h1, h2⟩ | ⟨s', mng', order', h1, h2, hs'⟩
      · rcases op.exec_rep hrep with ⟨-, e, he⟩ | ⟨mng', w', ls', h3, -⟩
        · refine Or.inl ⟨?_, e, ?_⟩
          · rw [List.foldlM_cons, h1]
            rfl
          · unfold EvtOp.run
            rw [List.foldlM_cons, he]
            rfl
        · exact nomatch h2.symm.trans h3
      · rcases op.exec_rep hrep with ⟨h3, -⟩ | ⟨mng1, w', ls', h3, hw', hrep', -⟩
        · exact nomatch h2.symm.trans h3
        · obtain rfl := Option.some.inj (Option.some.inj (h2.symm.trans h3))
          rw [List.foldlM_cons, h1, hrun _ hw']
          exact ih (fun op hop => hops op (List.mem_cons_of_mem _ hop)) hrep' hs'

/-- With nodes to be had every registration gets past its call. -/
theorem subs_run_of_served {ops : List (EvtOp F P)} (h : ∀ op ∈ ops, op.Served) (s : EvtSubs F P) :
    ops.foldlM (fun s op => s.step op) s ≠ none := by
  have hadd : ∀ (s : EvtSubs F P) evtid cb, ∃ s', s.add true evtid cb = some s' := by
    intro s evtid cb
    unfold EvtSubs.add
    split
    · exact ⟨_, rfl⟩
    · rw [if_neg (by simp)]
      exact ⟨_, rfl⟩
  induction ops generalizing s with
  | nil => exact fun hn => nomatch hn
  | cons op ops ih =>
      obtain ⟨s', hs'⟩ : ∃ s', s.step op = some s' := by
        have hserved := h op List.mem_cons_self
        cases op with
        | register mem priority evtid cb p1 p2 =>
            obtain rfl : mem = true := hserved
            exact hadd s evtid _
        | registerEx mem priority evtid evtType cb p1 p2 =>
            obtain rfl : mem = true := hserved
            exact hadd s evtid _
        | unregister evtid cb p1 p2 => exact ⟨_, rfl⟩
      rw [List.foldlM_cons, hs']
      exact ih (fun op hop => h op (List.mem_cons_of_mem _ hop)) s'

/-- After any registrations and removals, of events other than 0 and outside any dispatch, a
    dispatch delivers to the live subscriptions, and the free list is counted. The calls fail only
    where there is no node for a registration. -/
theorem delivered_inOrder (ops : List (EvtOp F P)) (hops : ∀ op ∈ ops, op.evtid ≠ 0) :
    ((∀ op ∈ ops, op.Served) → EvtSubs.run ops ≠ none) ∧
    (EvtSubs.run ops = none → ∃ e, EvtOp.run (some .manageInit) ops = .error e) ∧
    ∀ s, EvtSubs.run ops = some s →
      ∃ w, EvtOp.run (some .manageInit) ops = .ok (some w) ∧ Delivers w s ∧ FreeCounted w := by
  refine ⟨fun h => subs_run_of_served h _, fun hnone => ?_, fun s hs => ?_⟩
  · rcases run_rep hops evtRep_init subsRep_init with ⟨-, he⟩ | ⟨s', w', mng', ls', order', h1, -⟩
    · exact he
    · exact nomatch hnone.symm.trans h1
  · rcases run_rep hops evtRep_init subsRep_init with
      ⟨h1, -⟩ | ⟨s', w, mng', ls', order', h1, hw, hrep, hsubs⟩
    · exact nomatch h1.symm.trans hs
    · obtain rfl := Option.some.inj (h1.symm.trans hs)
      exact ⟨w, hw, delivers_of_rep hrep hsubs, freeCounted_of_rep hrep hsubs⟩

end Delivery

/-- Three subscriptions to one event, the second of the highest priority, and the first
    cancelled. -/
def threeCalls : List (EvtOp Nat Unit) :=
  [.register true 10 1 (some 1) () (), .register true 20 1 (some 2) () (),
    .registerEx true 10 1 .evtLocal (some 3) () (), .unregister 1 (some 1) () ()]

/-- The dispatch of the event calls the other two. -/
theorem delivered_inOrder_three : ∃ (s : EvtSubs Nat Unit) (w : EvtHeap Nat Unit),
    EvtSubs.run threeCalls = some s ∧ s.live.map (fun x => x.cb.fn) = [some 2, some 3] ∧
    EvtOp.run (some .manageInit) threeCalls = .ok (some w) ∧ Delivers w s ∧ FreeCounted w := by
  obtain ⟨s, hs, hlive⟩ : ∃ s, EvtSubs.run threeCalls = some s ∧
      s.live.map (fun x => x.cb.fn) = [some 2, some 3] := ⟨_, rfl, by decide⟩
  obtain ⟨w, hw, hdel, hfree⟩ := (delivered_inOrder threeCalls (by decide)).2.2 s hs
  exact ⟨s, w, hs, hlive, hw, hdel, hfree⟩

/-! ## 2^31 removals -/

/-- A subscription like all others. -/
def sameSub : ZEventCB Unit Unit := ⟨some (), 10, .evtAll, (), ()⟩

/-- The lists after `n + k` registrations of it and `k` removals. -/
def sameSubs (n k : Nat) : ZEvent Unit Unit where
  freelist := List.replicate k { sameSub with fn := none }
  freesize := Int32.ofNat k
  lastEvtid := 0
  evtlist e := if e = 1 then List.replicate n sameSub else []

/-- The registration. -/
def sameAdd : EvtOp Unit Unit := .register true 10 1 (some ()) () ()

/-- The removal. -/
def sameCancel : EvtOp Unit Unit := .unregister 1 (some ()) () ()

theorem sameSubs_setList (n m k : Nat) :
    (sameSubs n k).setList 1 (List.replicate m sameSub) = sameSubs m k := by
  have hlists : (fun e : UInt32 => if e = 1 then List.replicate m sameSub
      else (sameSubs n k).evtlist e) = (sameSubs m k).evtlist := by
    funext e
    by_cases he : e = 1
    · simp [sameSubs, he]
    · simp [sameSubs, he]
  unfold ZEvent.setList
  rw [hlists]
  rfl

theorem sameAdd_exec (n : Nat) :
    sameAdd.execList (some (sameSubs n 0)) = some (some (sameSubs (n + 1) 0)) := by
  have hinsert : insertCb 10 sameSub (List.replicate n sameSub) =
      List.replicate (n + 1) sameSub := by
    rw [insertCb, List.takeWhile_replicate_eq_filter, List.dropWhile_replicate_eq_filter_not,
      List.replicate_succ']
    simp [sameSub]
  have hset := sameSubs_setList n (n + 1) 0
  rw [← hinsert] at hset
  cases n with
  | zero => exact congrArg (fun mng => some (some mng)) hset
  | succ n => exact congrArg (fun mng => some (some mng)) hset

theorem sameCancel_exec (n k : Nat) :
    sameCancel.execList (some (sameSubs (n + 1) k)) = some (some (sameSubs n (k + 1))) := by
  have hset := sameSubs_setList (n + 1) n k
  have hfree : zcrtEventFreeCb (sameSubs n k) sameSub = sameSubs n (k + 1) := by
    unfold zcrtEventFreeCb sameSubs
    rw [Int32.ofNat_add]
    rfl
  rw [← hfree, ← hset]
  rfl

/-- A call more. -/
theorem EvtOp.run_snoc {ops : List (EvtOp Unit Unit)} {op : EvtOp Unit Unit}
    {w0 : Option (EvtHeap Unit Unit)} {w : EvtHeap Unit Unit} {mng mng' : ZEvent Unit Unit}
    {ls : Option UInt32 → List Nat} (hrun : EvtOp.run w0 ops = .ok (some w))
    (hrep : EvtRep w mng ls) (hop : op.execList (some mng) = some (some mng')) :
    ∃ w' ls', EvtOp.run w0 (ops ++ [op]) = .ok (some w') ∧ EvtRep w' mng' ls' := by
  rcases op.exec_rep hrep with ⟨hnone, -⟩ | ⟨mng1, w', ls', hlist, hexec, hrep', -⟩
  · exact nomatch hnone.symm.trans hop
  · obtain rfl := Option.some.inj (Option.some.inj (hlist.symm.trans hop))
    refine ⟨w', ls', ?_, hrep'⟩
    unfold EvtOp.run at hrun ⊢
    rw [List.foldlM_append, hrun, ← hexec]
    exact bind_pure (op.exec (some w))

/-- So many registrations, then so many removals. -/
theorem sameSubs_run (n k : Nat) : ∃ w ls,
    EvtOp.run (some .manageInit) (List.replicate (n + k) sameAdd ++ List.replicate k sameCancel) =
      .ok (some w) ∧ EvtRep w (sameSubs n k) ls := by
  induction k generalizing n with
  | zero =>
      induction n with
      | zero =>
          have hinit : sameSubs 0 0 = zcrtEventManageInit := by
            unfold sameSubs zcrtEventManageInit
            simp
          rw [hinit]
          exact ⟨.manageInit, fun _ => [], rfl, evtRep_init⟩
      | succ n ih =>
          obtain ⟨w, ls, hrun, hrep⟩ := ih
          have hsnoc := EvtOp.run_snoc hrun hrep (sameAdd_exec n)
          rw [List.replicate_zero, List.append_nil, ← List.replicate_succ'] at hsnoc
          rw [List.replicate_zero, List.append_nil]
          exact hsnoc
  | succ k ih =>
      obtain ⟨w, ls, hrun, hrep⟩ := ih (n + 1)
      have hsnoc := EvtOp.run_snoc hrun hrep (sameCancel_exec n k)
      rw [List.append_assoc, ← List.replicate_succ', Nat.add_right_comm] at hsnoc
      exact hsnoc

theorem evtFreesize_wraps : ∃ ops : List (EvtOp Unit Unit),
    (∀ op ∈ ops, op.evtid ≠ 0 ∧ op.Served) ∧
    ∃ w l, EvtOp.run (some .manageInit) ops = .ok (some w) ∧
      Seg (Nodes.nextOf w.nodes) w.freelist l none ∧ w.freesize.toInt ≠ l.length := by
  obtain ⟨w, ls, hrun, hrep⟩ := sameSubs_run 0 (2 ^ 31)
  refine ⟨_, fun op hop => ?_, w, ls none, hrun, hrep.seg none, ?_⟩
  · rcases List.mem_append.mp hop with hop | hop
    · rw [List.eq_of_mem_replicate hop]
      exact ⟨by decide, rfl⟩
    · rw [List.eq_of_mem_replicate hop]
      exact ⟨by decide, trivial⟩
  · have hlen : (ls none).length = 2 ^ 31 := hrep.free_length.trans List.length_replicate
    have hsize : w.freesize = Int32.ofNat (2 ^ 31) := hrep.freesize
    rw [hlen, hsize]
    decide

end Zcrt
