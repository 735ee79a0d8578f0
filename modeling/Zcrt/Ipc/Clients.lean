/-
  The clients of a server and each other's subscriptions. Requests of all of them go through one
  event manager; a client's own part of its lists is what its own requests made of it.

  * `linkRun`: requests in the order they are processed.
  * `ZEvent.Ordered`: every list is in the order of the priorities, which registrations keep.
  * `LinkOp.on_own`, `LinkOp.on_other`: one request, and the part of a client.
  * `clientSubs_independent`: the run of all requests against the run of one client's.
-/
import Zcrt.Core.EvtSys
import Zcrt.Ipc.Hook
import Zcrt.Ipc.LinkOps

namespace Zcrt

open Lib

/-- A request of a client; `obuf` is what `zipc_buf_malloc` finds for the reply, `heap` whether the
    allocator gives a node. -/
structure LinkReq (P : Type) where
  client : P
  ibuf : ZBuf
  obuf : ZBuf
  heap : Bool

section Run

variable {F E G P : Type} [DecidableEq G] [DecidableEq P] (module : ZIPCModule F E) (cb : G)
  (null : P)

/-- The call of `_zipc_msg_proc_job`, with `cb` its `_zipc_hookevent_cb`. -/
def linkStep (evtMng : Option (ZEvent G P)) (r : LinkReq P) : Option (Option (ZEvent G P)) :=
  (zipcParseAppLink module evtMng r.heap r.ibuf (zcrtBufClear r.obuf) (some cb) r.client null).map
    fun x => x.2.2.2

/-- Requests one after the other. -/
def linkRun (evtMng : Option (ZEvent G P)) (reqs : List (LinkReq P)) :
    Option (Option (ZEvent G P)) :=
  reqs.foldlM (linkStep module cb null) evtMng

variable {module cb null}

theorem linkStep_op (evtMng : Option (ZEvent G P)) (r : LinkReq P) :
    linkStep module cb null evtMng r =
      (linkOp module r.ibuf).exec evtMng r.heap cb r.client null := by
  obtain ⟨ret, ibuf, obuf, hlink⟩ :=
    zipcParseAppLink_op module evtMng r.heap cb r.client null r.ibuf r.obuf
  unfold linkStep
  rw [hlink, Option.map_map]
  exact Option.map_id'

end Run

/-! ## Lists in order -/

section Lists

variable {G P : Type}

/-- Highest priority first. -/
def PriOrdered (l : List (ZEventCB G P)) : Prop := l.Pairwise fun a b => b.pri ≤ a.pri

/-- The events of all lists come in the order of their priorities, and none is being dispatched. -/
structure ZEvent.Ordered (mng : ZEvent G P) : Prop where
  lists : ∀ e, PriOrdered (mng.evtlist e)
  last : mng.lastEvtid = 0

/-- In an ordered list the walk of the registration stops where the lower priorities begin. -/
theorem PriOrdered.split {l : List (ZEventCB G P)} (h : PriOrdered l) (priority : UInt8) :
    l.takeWhile (fun cur => cur.pri ≥ priority) = l.filter (fun cur => cur.pri ≥ priority) ∧
    l.dropWhile (fun cur => cur.pri ≥ priority) =
      l.filter fun cur => !decide (cur.pri ≥ priority) := by
  induction l with
  | nil => exact ⟨rfl, rfl⟩
  | cons x l ih =>
      obtain ⟨hx, hl⟩ := List.pairwise_cons.mp h
      by_cases hge : x.pri ≥ priority
      · rw [List.takeWhile_cons_of_pos (by simpa using hge),
          List.dropWhile_cons_of_pos (by simpa using hge),
          List.filter_cons_of_pos (by simpa using hge),
          List.filter_cons_of_neg (by simpa using hge), (ih hl).1]
        exact ⟨rfl, (ih hl).2⟩
      · have hlow : ∀ y ∈ l, ¬y.pri ≥ priority := fun y hy hle =>
          hge (UInt8.le_trans hle (hx y hy))
        have hnone : l.filter (fun cur => decide (cur.pri ≥ priority)) = [] :=
          List.filter_eq_nil_iff.mpr fun y hy => by simpa using hlow y hy
        have hall : l.filter (fun cur => !decide (cur.pri ≥ priority)) = l :=
          List.filter_eq_self.mpr fun y hy => by simpa using hlow y hy
        rw [List.takeWhile_cons_of_neg (by simpa using hge),
          List.dropWhile_cons_of_neg (by simpa using hge),
          List.filter_cons_of_neg (by simpa using hge),
          List.filter_cons_of_pos (by simpa using hge), hnone, hall]
        exact ⟨rfl, rfl⟩

theorem PriOrdered.insertCb_eq {l : List (ZEventCB G P)} (h : PriOrdered l) (priority : UInt8)
    (job : ZEventCB G P) :
    insertCb priority job l =
      l.filter (fun cur => cur.pri ≥ priority) ++
        job :: l.filter fun cur => !decide (cur.pri ≥ priority) := by
  unfold insertCb
  rw [(h.split priority).1, (h.split priority).2]

theorem PriOrdered.insertCb {l : List (ZEventCB G P)} (h : PriOrdered l) (job : ZEventCB G P) :
    PriOrdered (insertCb job.pri job l) := by
  rw [h.insertCb_eq]
  refine List.pairwise_append.mpr ⟨h.filter _, List.pairwise_cons.mpr ⟨fun y hy => ?_, h.filter _⟩,
    fun x hx y hy => ?_⟩
  · have hlow := (List.mem_filter.mp hy).2
    rw [Bool.not_eq_true', decide_eq_false_iff_not] at hlow
    exact UInt8.le_of_lt (UInt8.not_le.mp hlow)
  · have hhigh := of_decide_eq_true (List.mem_filter.mp hx).2
    rcases List.mem_cons.mp hy with rfl | hy
    · exact hhigh
    · have hlow := (List.mem_filter.mp hy).2
      rw [Bool.not_eq_true', decide_eq_false_iff_not] at hlow
      exact UInt8.le_trans (UInt8.le_of_lt (UInt8.not_le.mp hlow)) hhigh

/-- A subscription put into an ordered list, and a part of it. -/
theorem PriOrdered.filter_insertCb {l : List (ZEventCB G P)} (h : PriOrdered l)
    (q : ZEventCB G P → Bool) (priority : UInt8) (job : ZEventCB G P) :
    (Zcrt.insertCb priority job l).filter q =
      if q job then Zcrt.insertCb priority job (l.filter q) else l.filter q := by
  have hq : PriOrdered (l.filter q) := h.filter _
  have hcomm : ∀ p : ZEventCB G P → Bool, (l.filter p).filter q = (l.filter q).filter p := by
    intro p
    rw [List.filter_filter, List.filter_filter]
    exact congrArg (List.filter · l) (funext fun x => Bool.and_comm ..)
  rw [h.insertCb_eq, hq.insertCb_eq, List.filter_append, List.filter_cons, hcomm, hcomm]
  split
  · rfl
  · rw [← (hq.split priority).1, ← (hq.split priority).2, List.takeWhile_append_dropWhile]

/-- A removal that is about the part. -/
theorem filter_eraseP_of_imp {l : List (ZEventCB G P)} {q sub : ZEventCB G P → Bool}
    (h : ∀ x, sub x = true → q x = true) : (l.eraseP sub).filter q = (l.filter q).eraseP sub := by
  induction l with
  | nil => rfl
  | cons x l ih =>
      by_cases hsub : sub x = true
      · rw [List.eraseP_cons_of_pos hsub, List.filter_cons_of_pos (h x hsub),
          List.eraseP_cons_of_pos hsub]
      · rw [List.eraseP_cons_of_neg hsub]
        by_cases hq : q x = true
        · rw [List.filter_cons_of_pos hq, List.filter_cons_of_pos hq, List.eraseP_cons_of_neg hsub,
            ih]
        · rw [List.filter_cons_of_neg hq, List.filter_cons_of_neg hq, ih]

/-- A removal that is not. -/
theorem filter_eraseP_of_not {l : List (ZEventCB G P)} {q sub : ZEventCB G P → Bool}
    (h : ∀ x, sub x = true → ¬q x = true) : (l.eraseP sub).filter q = l.filter q := by
  induction l with
  | nil => rfl
  | cons x l ih =>
      by_cases hsub : sub x = true
      · rw [List.eraseP_cons_of_pos hsub, List.filter_cons_of_neg (h x hsub)]
      · rw [List.eraseP_cons_of_neg hsub, List.filter_cons, List.filter_cons, ih]

end Lists

/-! ## One request -/

section Request

variable {G P : Type} [DecidableEq G] [DecidableEq P]

/-- The subscriptions of a client. -/
def own (B : P) (l : List (ZEventCB G P)) : List (ZEventCB G P) := l.filter fun x => x.p1 = B

theorem isSub_own {cb : G} {p1 p2 : P} {x : ZEventCB G P}
    (h : x.isSub (some cb) p1 p2 = true) : x.p1 = p1 := (of_decide_eq_true h).2.1

variable {cb : G} {p1 p2 B : P} {e : UInt32} {l : List (ZEventCB G P)}

theorem LinkOp.on_ordered (op : LinkOp) (h : PriOrdered l) : PriOrdered (op.on cb p1 p2 e l) := by
  cases op with
  | hook evtid =>
      unfold LinkOp.on
      dsimp only
      split
      · exact h.insertCb (linkSub cb p1 p2)
      · exact h
  | unhook evtid =>
      unfold LinkOp.on
      dsimp only
      split
      · exact List.Pairwise.sublist List.eraseP_sublist h
      · exact h
  | nothing => exact h

/-- A client's own request does to its part what it does to the list. -/
theorem LinkOp.on_own (op : LinkOp) (h : PriOrdered l) :
    own B (op.on cb B p2 e l) = op.on cb B p2 e (own B l) := by
  cases op with
  | hook evtid =>
      unfold LinkOp.on own
      dsimp only
      split
      · exact (h.filter_insertCb _ 10 (linkSub cb B p2)).trans (if_pos (decide_eq_true rfl))
      · rfl
  | unhook evtid =>
      unfold LinkOp.on own
      dsimp only
      split
      · exact filter_eraseP_of_imp fun x hx => decide_eq_true (isSub_own hx)
      · rfl
  | nothing => rfl

/-- A request of another client leaves it. -/
theorem LinkOp.on_other (op : LinkOp) (h : PriOrdered l) (hne : p1 ≠ B) :
    own B (op.on cb p1 p2 e l) = own B l := by
  cases op with
  | hook evtid =>
      unfold LinkOp.on own
      dsimp only
      split
      · exact (h.filter_insertCb _ 10 (linkSub cb p1 p2)).trans
          (if_neg fun he => hne (of_decide_eq_true he))
      · rfl
  | unhook evtid =>
      unfold LinkOp.on own
      dsimp only
      split
      · refine filter_eraseP_of_not fun x hx he => ?_
        exact hne ((isSub_own hx).symm.trans (of_decide_eq_true he))
      · rfl
  | nothing => rfl

end Request

/-! ## Runs -/

section Runs

variable {F E G P : Type} [DecidableEq G] [DecidableEq P] {module : ZIPCModule F E} {cb : G}
  {null : P} {mng mng' : ZEvent G P}

theorem LinkOp.Does.ordered {op : LinkOp} {p1 p2 : P} (h : op.Does cb p1 p2 mng mng')
    (ho : mng.Ordered) : mng'.Ordered := by
  refine ⟨fun e => ?_, h.1.trans ho.last⟩
  rw [h.2 e]
  exact op.on_ordered (ho.lists e)

omit [DecidableEq G] [DecidableEq P] in
theorem ordered_init : (zcrtEventManageInit : ZEvent G P).Ordered :=
  ⟨fun _ => List.Pairwise.nil, rfl⟩

omit [DecidableEq G] [DecidableEq P] in
theorem register_ordered (h : mng.Ordered) {heap : Bool} {priority : UInt8} {evtid : UInt32}
    {evtType : EZCRTEvtType} {fn : Option G} {p1 p2 : P} {ret : EZCRTErr}
    (hr : zcrtEventRegisterEx (some mng) heap priority evtid evtType fn p1 p2 =
      some (ret, some mng')) : mng'.Ordered := by
  obtain ⟨mng1, he, hlast, hlists⟩ := register_cases hr
  obtain rfl := Option.some.inj he
  refine ⟨fun e => ?_, hlast.trans h.last⟩
  rcases hlists with hsame | ⟨hl, hother⟩
  · rw [hsame e]
    exact h.lists e
  · by_cases he : e = evtid
    · rw [he, hl]
      exact (h.lists evtid).insertCb
        { fn := fn, pri := priority, evtType := evtType, p1 := p1, p2 := p2 }
    · rw [hother e he]
      exact h.lists e

theorem unregister_ordered (h : mng.Ordered) {evtid : UInt32} {fn : Option G} {p1 p2 : P}
    (hu : zcrtEventUnregister (some mng) evtid fn p1 p2 = some (some mng')) : mng'.Ordered := by
  obtain ⟨mng1, he, hlast, hlists⟩ := unregister_cases hu
  obtain rfl := Option.some.inj he
  refine ⟨fun e => ?_, hlast.trans h.last⟩
  rcases hlists with hsame | ⟨hl, hother⟩
  · rw [hsame e]
    exact h.lists e
  · by_cases he : e = evtid
    · rw [he, hl]
      exact List.Pairwise.sublist List.eraseP_sublist (h.lists evtid)
    · rw [hother e he]
      exact h.lists e

/-- The calls of the module's own code keep the order. -/
theorem execList_ordered {op : EvtOp G P} (h : mng.Ordered)
    (hx : op.execList (some mng) = some (some mng')) : mng'.Ordered := by
  cases op with
  | register mem priority evtid fn p1 p2 =>
      obtain ⟨⟨ret, evtMng'⟩, hr, rfl⟩ := Option.map_eq_some_iff.mp hx
      exact register_ordered h hr
  | registerEx mem priority evtid evtType fn p1 p2 =>
      obtain ⟨⟨ret, evtMng'⟩, hr, rfl⟩ := Option.map_eq_some_iff.mp hx
      exact register_ordered h hr
  | unregister evtid fn p1 p2 => exact unregister_ordered h hx

/-- Calls one after the other, from a manager in order. -/
theorem ordered_of_calls {ops : List (EvtOp G P)} {evtMng : Option (ZEvent G P)}
    (h : ∀ mng, evtMng = some mng → mng.Ordered)
    (hx : ops.foldlM (fun evtMng op => op.execList evtMng) evtMng = some (some mng')) :
    mng'.Ordered := by
  induction ops generalizing evtMng with
  | nil => exact h mng' (Option.some.inj hx)
  | cons op ops ih =>
      rw [List.foldlM_cons] at hx
      obtain ⟨evtMng1, h1, hx⟩ := Option.bind_eq_some_iff.mp hx
      refine ih (fun mng1 hm => ?_) hx
      subst hm
      cases evtMng with
      | none =>
          have hnone : op.execList (none : Option (ZEvent G P)) = some none := by
            cases op <;> rfl
          exact nomatch Option.some.inj (hnone.symm.trans h1)
      | some mng => exact execList_ordered (h mng rfl) h1

variable (module cb null) in
/-- A request that has a node. -/
theorem linkStep_does (h : mng.Ordered) {r : LinkReq P} (hheap : r.heap = true) :
    ∃ mng', linkStep module cb null (some mng) r = some (some mng') ∧
      (linkOp module r.ibuf).Does cb r.client null mng mng' := by
  rw [linkStep_op]
  exact LinkOp.exec_does (linkOp_valid _) h.last (Or.inr hheap)

/-- The run of all requests, and the run of those of `B`, from managers in which `B` has the same
    subscriptions. -/
theorem linkRun_own (reqs : List (LinkReq P)) (hheap : ∀ r ∈ reqs, r.heap = true) (B : P)
    {mngB : ZEvent G P} (h : mng.Ordered) (hB : mngB.Ordered)
    (hown : ∀ e, own B (mng.evtlist e) = own B (mngB.evtlist e)) :
    ∃ mng' mngB', linkRun module cb null (some mng) reqs = some (some mng') ∧
      linkRun module cb null (some mngB) (reqs.filter fun r => r.client = B) =
        some (some mngB') ∧
      ∀ e, own B (mng'.evtlist e) = own B (mngB'.evtlist e) := by
  induction reqs generalizing mng mngB with
  | nil => exact ⟨mng, mngB, rfl, rfl, hown⟩
  | cons r reqs ih =>
      have hrest := fun r' hr' => hheap r' (List.mem_cons_of_mem _ hr')
      have hr := hheap r List.mem_cons_self
      obtain ⟨mng1, hstep, hdoes⟩ := linkStep_does module cb null h hr
      unfold linkRun
      rw [List.foldlM_cons, hstep]
      by_cases hc : r.client = B
      · obtain ⟨mngB1, hstepB, hdoesB⟩ :=
          linkStep_does module cb null hB hr
        have hkeep : (r :: reqs).filter (fun r => r.client = B) =
            r :: reqs.filter fun r => r.client = B :=
          List.filter_cons_of_pos (decide_eq_true hc)
        rw [hkeep, List.foldlM_cons, hstepB]
        refine ih hrest (hdoes.ordered h) (hdoesB.ordered hB) fun e => ?_
        rw [hdoes.2 e, hdoesB.2 e, hc, LinkOp.on_own _ (h.lists e), LinkOp.on_own _ (hB.lists e),
          hown e]
      · have hdrop : (r :: reqs).filter (fun r => r.client = B) =
            reqs.filter fun r => r.client = B :=
          List.filter_cons_of_neg fun he => hc (of_decide_eq_true he)
        rw [hdrop]
        refine ih hrest (hdoes.ordered h) hB fun e => ?_
        rw [hdoes.2 e, LinkOp.on_other _ (h.lists e) hc, hown e]

/-- The subscriptions of a client `B` are the same after the requests of all clients as after those
    of `B` alone, where the allocator gives a node for each. The manager is one after any calls of
    the module's own code. -/
theorem clientSubs_independent (module : ZIPCModule F E) (cb : G) (null : P)
    (ops : List (EvtOp G P)) (mng : ZEvent G P)
    (hstart : ops.foldlM (fun evtMng op => op.execList evtMng) (some zcrtEventManageInit) =
      some (some mng))
    (reqs : List (LinkReq P)) (hheap : ∀ r ∈ reqs, r.heap = true) (B : P) :
    ∃ mng' mngB', linkRun module cb null (some mng) reqs = some (some mng') ∧
      linkRun module cb null (some mng) (reqs.filter fun r => r.client = B) =
        some (some mngB') ∧
      ∀ e, own B (mng'.evtlist e) = own B (mngB'.evtlist e) := by
  have hordered : mng.Ordered := by
    refine ordered_of_calls (fun m hm => ?_) hstart
    exact Option.some.inj hm ▸ ordered_init
  exact linkRun_own reqs hheap B hordered hordered fun _ => rfl

end Runs

/-! ## Two clients -/

/-- A hook request for event 7. -/
def hookSeven : ZBuf := hookRequest [14]

/-- `{sn=5, req=true}{1="z", 2="_unhookevt", 3={1=7}}` -/
def unhookSeven : ZBuf :=
  recycled [2, 0x11, 2, 0x73, 0x6E, 4, 10, 0x11, 3, 0x72, 0x65, 0x71, 3,
    3, 4, 2, 0x11, 1, 0x7A, 4, 4, 0x11, 10, 0x5F, 0x75, 0x6E, 0x68, 0x6F, 0x6F, 0x6B, 0x65, 0x76,
    0x74, 4, 6, 0x12, 1, 4, 2, 4, 14] 0

def encodingModule : ZIPCModule Unit Unit := { evtEncode := some (), modlist := none }

/-- Client 1 hooks and unhooks, and client 2 hooks in between. -/
theorem clientSubs_independent_two : ∃ mng' mngB' : ZEvent Unit Nat,
    linkRun encodingModule () 0 (some zcrtEventManageInit)
        [⟨1, hookSeven, recycled [] 0, true⟩, ⟨2, hookSeven, recycled [] 0, true⟩,
          ⟨1, unhookSeven, recycled [] 0, true⟩] = some (some mng') ∧
      linkRun encodingModule () 0 (some zcrtEventManageInit)
        [⟨2, hookSeven, recycled [] 0, true⟩] = some (some mngB') ∧
      ∀ e, own 2 (mng'.evtlist e) = own 2 (mngB'.evtlist e) :=
  clientSubs_independent encodingModule () 0 [] zcrtEventManageInit rfl
    [⟨1, hookSeven, recycled [] 0, true⟩, ⟨2, hookSeven, recycled [] 0, true⟩,
      ⟨1, unhookSeven, recycled [] 0, true⟩] (by simp) 2

/-- Without memory client 2 gets its node only because client 1 has hooked and unhooked before. -/
theorem noMemory_needsOther : ¬∀ (reqs : List (LinkReq Nat)) (B : Nat)
    (mng' mngB' : ZEvent Unit Nat),
    linkRun encodingModule () 0 (some zcrtEventManageInit) reqs = some (some mng') →
    linkRun encodingModule () 0 (some zcrtEventManageInit) (reqs.filter fun r => r.client = B) =
      some (some mngB') →
    ∀ e, own B (mng'.evtlist e) = own B (mngB'.evtlist e) := by
  intro hall
  have hlen : ∀ (reqs : List (LinkReq Nat)) (n : Nat),
      (linkRun encodingModule () 0 (some (zcrtEventManageInit : ZEvent Unit Nat)) reqs).map
        (Option.map fun mng => (own 2 (mng.evtlist 7)).length) = some (some n) →
      ∃ mng : ZEvent Unit Nat,
        linkRun encodingModule () 0 (some zcrtEventManageInit) reqs = some (some mng) ∧
        (own 2 (mng.evtlist 7)).length = n := by
    intro reqs n h
    obtain ⟨evtMng, hrun, h⟩ := Option.map_eq_some_iff.mp h
    obtain ⟨mng, rfl, hn⟩ := Option.map_eq_some_iff.mp h
    exact ⟨mng, hrun, hn⟩
  obtain ⟨mng', hrun, h1⟩ := hlen [⟨1, hookSeven, recycled [] 0, true⟩,
    ⟨1, unhookSeven, recycled [] 0, true⟩, ⟨2, hookSeven, recycled [] 0, false⟩] 1
    (by decide +kernel)
  obtain ⟨mngB', hrunB, h0⟩ := hlen [⟨2, hookSeven, recycled [] 0, false⟩] 0 (by decide +kernel)
  have hsame := hall _ 2 mng' mngB' hrun hrunB 7
  rw [hsame, h0] at h1
  exact absurd h1 (by decide)

end Zcrt
