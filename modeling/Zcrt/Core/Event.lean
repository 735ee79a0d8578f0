/-
  The event manager of `zcrtlib/zevent.c`: one list of subscriptions for each event id, highest
  priority first, and a list of free nodes.

  `F` is the type of callback pointers, `P` of the two `void*` arguments. Each function runs under
  the manager's mutex and is one step. A function returns `none` where the source writes through
  a `NULL` node or fails an assertion.

  * `zcrtEventRegisterEx_some`: when a registration adds its subscription, and where.
  * `zcrtEventUnregister_some`: a removal takes the first subscription of that callback and those
    arguments and touches nothing else.
-/
import Zcrt.Core.Types

namespace Zcrt

/-- `EZCRTEvtType`. -/
inductive EZCRTEvtType
  | evtAll
  | evtLocal
  | evtRemote
deriving DecidableEq

/-- `_zstEventCB`: a subscription, or a free node (`fn` is then `NULL`). -/
structure ZEventCB (F P : Type) where
  fn : Option F
  pri : UInt8
  evtType : EZCRTEvtType
  p1 : P
  p2 : P
deriving DecidableEq

/-- `_zstEvent`. -/
structure ZEvent (F P : Type) where
  freelist : List (ZEventCB F P)
  freesize : Int32
  lastEvtid : UInt32
  evtlist : UInt32 → List (ZEventCB F P)

variable {F P : Type}

/-- `zcrt_event_manage_init`, where the allocation succeeds. -/
def zcrtEventManageInit : ZEvent F P :=
  { freelist := [], freesize := 0, lastEvtid := 0, evtlist := fun _ => [] }

/-- The manager with one event's list replaced. -/
def ZEvent.setList (mng : ZEvent F P) (evtid : UInt32) (l : List (ZEventCB F P)) : ZEvent F P :=
  { mng with evtlist := fun e => if e = evtid then l else mng.evtlist e }

@[simp] theorem ZEvent.setList_self (mng : ZEvent F P) (evtid : UInt32) (l : List (ZEventCB F P)) :
    (mng.setList evtid l).evtlist evtid = l := by
  simp [ZEvent.setList]

theorem ZEvent.setList_of_ne (mng : ZEvent F P) {evtid e : UInt32} (l : List (ZEventCB F P))
    (h : e ≠ evtid) : (mng.setList evtid l).evtlist e = mng.evtlist e := by
  simp [ZEvent.setList, h]

theorem ZEvent.setList_eq_self {mng : ZEvent F P} {evtid : UInt32} {l : List (ZEventCB F P)}
    (h : mng.evtlist evtid = l) : mng.setList evtid l = mng := by
  have hlists : (fun e => if e = evtid then l else mng.evtlist e) = mng.evtlist := by
    funext e
    by_cases he : e = evtid
    · rw [if_pos he, he, h]
    · rw [if_neg he]
  unfold ZEvent.setList
  rw [hlists]

/-- `_zcrt_Event_malloc_cb`: a node off the free list, or from the allocator, which hands one out
    when `heap` says so. -/
def zcrtEventMallocCb (mng : ZEvent F P) (heap : Bool) (priority : UInt8) (evtType : EZCRTEvtType)
    (fn : Option F) (p1 p2 : P) : Option (ZEventCB F P) × ZEvent F P :=
  let job : ZEventCB F P := { fn := fn, pri := priority, evtType := evtType, p1 := p1, p2 := p2 }
  match mng.freelist with
  | _ :: next => (some job, { mng with freelist := next, freesize := mng.freesize - 1 })
  | [] => (if heap then some job else none, mng)

/-- The walk of `zcrt_event_register_ex`: past every node of at least the same priority. -/
def insertCb (priority : UInt8) (job : ZEventCB F P) (l : List (ZEventCB F P)) :
    List (ZEventCB F P) :=
  l.takeWhile (fun cur => cur.pri ≥ priority) ++
    job :: l.dropWhile (fun cur => cur.pri ≥ priority)

/-- `zcrt_event_register_ex`. Into an empty list the node is put without a look at it, so a failed
    allocation leaves the list empty; into another list it is written to. -/
def zcrtEventRegisterEx (evtMng : Option (ZEvent F P)) (heap : Bool) (priority : UInt8)
    (evtid : UInt32) (evtType : EZCRTEvtType) (cb : Option F) (p1 p2 : P) :
    Option (EZCRTErr × Option (ZEvent F P)) :=
  match evtMng with
  | none => some (.invalidCrtModule, none)
  | some mng =>
      if evtid ≥ ZCRT_MAX_EVT ∨ cb.isNone then some (.paramErr, some mng)
      else
        let (job, mng) := zcrtEventMallocCb mng heap priority evtType cb p1 p2
        match mng.evtlist evtid with
        | [] => some (.success, some (mng.setList evtid job.toList))
        | cur :: next =>
            job.map fun job =>
              (.success, some (mng.setList evtid (insertCb priority job (cur :: next))))

section Unregister

variable [DecidableEq F] [DecidableEq P]

/-- The node `zcrt_event_unregister` looks for. -/
def ZEventCB.isSub (cb : Option F) (p1 p2 : P) (cur : ZEventCB F P) : Bool :=
  cur.fn = cb ∧ cur.p1 = p1 ∧ cur.p2 = p2

/-- `_zcrt_Event_free_cb_no_protected`. -/
def zcrtEventFreeCb (mng : ZEvent F P) (job : ZEventCB F P) : ZEvent F P :=
  { mng with freelist := { job with fn := none } :: mng.freelist, freesize := mng.freesize + 1 }

/-- `zcrt_event_unregister`. -/
def zcrtEventUnregister (evtMng : Option (ZEvent F P)) (evtid : UInt32) (cb : Option F)
    (p1 p2 : P) : Option (Option (ZEvent F P)) :=
  match evtMng with
  | none => some none
  | some mng =>
      if evtid ≥ ZCRT_MAX_EVT ∨ cb.isNone then some (some mng)
      else if mng.lastEvtid = evtid then none
      else
        match (mng.evtlist evtid).find? (ZEventCB.isSub cb p1 p2) with
        | none => some (some mng)
        | some cur =>
            some (some (zcrtEventFreeCb
              (mng.setList evtid ((mng.evtlist evtid).eraseP (ZEventCB.isSub cb p1 p2))) cur))

end Unregister

/-! ## What the two operations do to the lists -/

/-- A node can be had. -/
def ZEvent.hasNode (mng : ZEvent F P) (heap : Bool) : Prop := mng.freelist ≠ [] ∨ heap = true

theorem zcrtEventMallocCb_of_hasNode {mng : ZEvent F P} {heap : Bool} (h : mng.hasNode heap)
    (priority : UInt8) (evtType : EZCRTEvtType) (fn : Option F) (p1 p2 : P) :
    ∃ mng', zcrtEventMallocCb mng heap priority evtType fn p1 p2 =
        (some { fn := fn, pri := priority, evtType := evtType, p1 := p1, p2 := p2 }, mng') ∧
      mng'.evtlist = mng.evtlist ∧ mng'.lastEvtid = mng.lastEvtid := by
  unfold zcrtEventMallocCb
  cases hf : mng.freelist with
  | cons node next => exact ⟨_, rfl, rfl, rfl⟩
  | nil =>
      have hheap : heap = true := h.resolve_left (not_not.mpr hf)
      subst hheap
      exact ⟨_, rfl, rfl, rfl⟩

theorem zcrtEventMallocCb_of_not_hasNode {mng : ZEvent F P} {heap : Bool} (h : ¬mng.hasNode heap)
    (priority : UInt8) (evtType : EZCRTEvtType) (fn : Option F) (p1 p2 : P) :
    zcrtEventMallocCb mng heap priority evtType fn p1 p2 = (none, mng) := by
  unfold ZEvent.hasNode at h
  push Not at h
  unfold zcrtEventMallocCb
  rw [h.1, Bool.eq_false_iff.mpr h.2]
  rfl

/-- `l'` is `l` with one node put in somewhere. -/
def InsertedOne (node : ZEventCB F P) (l l' : List (ZEventCB F P)) : Prop :=
  ∃ a b, l = a ++ b ∧ l' = a ++ node :: b

theorem insertedOne_insertCb (priority : UInt8) (job : ZEventCB F P) (l : List (ZEventCB F P)) :
    InsertedOne job l (insertCb priority job l) :=
  ⟨_, _, List.takeWhile_append_dropWhile.symm, rfl⟩

/-- Past the parameter check a node that can be had goes into its list. -/
theorem zcrtEventRegisterEx_of_malloc {mng mng1 : ZEvent F P} {heap : Bool} {evtid : UInt32}
    {cb : ZEventCB F P} (he : ¬(evtid ≥ ZCRT_MAX_EVT ∨ cb.fn.isNone))
    (hm : zcrtEventMallocCb mng heap cb.pri cb.evtType cb.fn cb.p1 cb.p2 = (some cb, mng1)) :
    zcrtEventRegisterEx (some mng) heap cb.pri evtid cb.evtType cb.fn cb.p1 cb.p2 =
      some (.success, some (mng1.setList evtid (insertCb cb.pri cb (mng1.evtlist evtid)))) := by
  unfold zcrtEventRegisterEx
  dsimp only
  rw [if_neg he, hm]
  dsimp only
  cases mng1.evtlist evtid <;> rfl

/-- With no node to be had an empty list is left as it is, and with another the function does not
    return. -/
theorem zcrtEventRegisterEx_of_noNode {mng : ZEvent F P} {heap : Bool} {evtid : UInt32}
    {cb : ZEventCB F P} (he : ¬(evtid ≥ ZCRT_MAX_EVT ∨ cb.fn.isNone))
    (hm : zcrtEventMallocCb mng heap cb.pri cb.evtType cb.fn cb.p1 cb.p2 = (none, mng)) :
    (mng.evtlist evtid = [] →
      zcrtEventRegisterEx (some mng) heap cb.pri evtid cb.evtType cb.fn cb.p1 cb.p2 =
        some (.success, some mng)) ∧
    (mng.evtlist evtid ≠ [] →
      zcrtEventRegisterEx (some mng) heap cb.pri evtid cb.evtType cb.fn cb.p1 cb.p2 = none) := by
  unfold zcrtEventRegisterEx
  dsimp only
  rw [if_neg he, hm]
  dsimp only
  cases hl : mng.evtlist evtid with
  | nil =>
      refine ⟨fun _ => ?_, fun hne => absurd rfl hne⟩
      change some (_, some (mng.setList evtid [])) = _
      rw [ZEvent.setList_eq_self hl]
  | cons cur next => exact ⟨fun hnil => (nomatch hnil), fun _ => rfl⟩

/-- A registration with an id, a callback and a node to be had puts one subscription in. -/
theorem zcrtEventRegisterEx_some {mng : ZEvent F P} {heap : Bool} {evtid : UInt32} {cb : Option F}
    (hn : mng.hasNode heap) (he : evtid < ZCRT_MAX_EVT) (hcb : cb ≠ none) (priority : UInt8)
    (evtType : EZCRTEvtType) (p1 p2 : P) :
    ∃ mng', zcrtEventRegisterEx (some mng) heap priority evtid evtType cb p1 p2 =
        some (.success, some mng') ∧
      mng'.evtlist evtid = insertCb priority
        { fn := cb, pri := priority, evtType := evtType, p1 := p1, p2 := p2 } (mng.evtlist evtid) ∧
      (∀ e, e ≠ evtid → mng'.evtlist e = mng.evtlist e) ∧ mng'.lastEvtid = mng.lastEvtid := by
  obtain ⟨mng1, hm, hl, hlast⟩ := zcrtEventMallocCb_of_hasNode hn priority evtType cb p1 p2
  have hguard : ¬(evtid ≥ ZCRT_MAX_EVT ∨ cb.isNone) := by
    rw [not_or, Option.isNone_iff_eq_none]
    exact ⟨UInt32.not_le.mpr he, hcb⟩
  let sub : ZEventCB F P := { fn := cb, pri := priority, evtType := evtType, p1 := p1, p2 := p2 }
  have hsub : ¬(evtid ≥ ZCRT_MAX_EVT ∨ sub.fn.isNone) := hguard
  have hreg := zcrtEventRegisterEx_of_malloc hsub hm
  refine ⟨_, hreg, ?_, fun e hne => ?_, hlast⟩
  · rw [ZEvent.setList_self, hl]
  · rw [ZEvent.setList_of_ne _ _ hne, hl]

/-- Without an id, a callback, a manager or a node nothing is added; where no node is to be had and
    the list is not empty the function does not return. -/
theorem zcrtEventRegisterEx_refused {evtMng : Option (ZEvent F P)} {heap : Bool} {evtid : UInt32}
    {cb : Option F} (priority : UInt8) (evtType : EZCRTEvtType) (p1 p2 : P)
    (h : ∀ mng, evtMng = some mng → evtid < ZCRT_MAX_EVT → cb ≠ none → ¬mng.hasNode heap)
    {ret : EZCRTErr} {evtMng' : Option (ZEvent F P)}
    (hr : zcrtEventRegisterEx evtMng heap priority evtid evtType cb p1 p2 = some (ret, evtMng')) :
    evtMng'.map ZEvent.evtlist = evtMng.map ZEvent.evtlist := by
  unfold zcrtEventRegisterEx at hr
  cases evtMng with
  | none =>
      obtain ⟨-, rfl⟩ := Prod.mk.inj (Option.some.inj hr)
      rfl
  | some mng =>
      dsimp only at hr
      split at hr
      · obtain ⟨-, rfl⟩ := Prod.mk.inj (Option.some.inj hr)
        rfl
      · next hguard =>
          rw [not_or, Option.isNone_iff_eq_none] at hguard
          have hno := h mng rfl (UInt32.not_le.mp hguard.1) hguard.2
          rw [zcrtEventMallocCb_of_not_hasNode hno] at hr
          dsimp only at hr
          split at hr
          · next hlist =>
              obtain ⟨-, rfl⟩ := Prod.mk.inj (Option.some.inj hr)
              refine congrArg some (funext fun e => ?_)
              by_cases he : e = evtid
              · rw [he, ZEvent.setList_self, hlist]
                rfl
              · rw [ZEvent.setList_of_ne _ _ he]
          · exact absurd hr (by simp)

section Unregister

variable [DecidableEq F] [DecidableEq P]

/-- A removal that returns takes at most the first matching subscription of that event. -/
theorem zcrtEventUnregister_some {mng : ZEvent F P} {evtid : UInt32} {cb : Option F}
    (he : evtid < ZCRT_MAX_EVT) (hcb : cb ≠ none) (hlast : mng.lastEvtid ≠ evtid) (p1 p2 : P) :
    ∃ mng', zcrtEventUnregister (some mng) evtid cb p1 p2 = some (some mng') ∧
      mng'.evtlist evtid = (mng.evtlist evtid).eraseP (ZEventCB.isSub cb p1 p2) ∧
      (∀ e, e ≠ evtid → mng'.evtlist e = mng.evtlist e) ∧ mng'.lastEvtid = mng.lastEvtid := by
  have hguard : ¬(evtid ≥ ZCRT_MAX_EVT ∨ cb.isNone) := by
    rw [not_or, Option.isNone_iff_eq_none]
    exact ⟨UInt32.not_le.mpr he, hcb⟩
  unfold zcrtEventUnregister
  dsimp only
  rw [if_neg hguard, if_neg hlast]
  split
  · next hf =>
      refine ⟨mng, rfl, ?_, fun _ _ => rfl, rfl⟩
      exact (List.eraseP_of_forall_not fun a ha => List.find?_eq_none.mp hf a ha).symm
  · exact ⟨_, rfl, ZEvent.setList_self _ _ _, fun e hne => ZEvent.setList_of_ne _ _ hne, rfl⟩

end Unregister

end Zcrt
