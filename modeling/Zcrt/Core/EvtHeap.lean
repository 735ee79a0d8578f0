/-
  The event manager of `zcrtlib/zevent.c` with its nodes and links: what `Event` has as lists is
  here a heap of `_zstEventCB` nodes.

  * `registerEx`, `unregister`: the functions as they walk and edit the links.
-/
import Zcrt.Lib.Nodes
import Zcrt.Core.Event

namespace Zcrt

open Lib

variable {F P : Type}

/-- `_zstEvent` and the nodes allocated for it: that at address `a` is `nodes[a]`. No node is given
    back to the allocator before the manager is deleted, so each allocation is at a new address. -/
structure EvtHeap (F P : Type) where
  nodes : List (Node (ZEventCB F P))
  freelist : Option Nat
  freesize : Int32
  lastEvtid : UInt32
  evtlist : UInt32 → Option Nat

namespace EvtHeap

/-- `zcrt_event_manage_init`, where the allocation succeeds. -/
def manageInit : EvtHeap F P :=
  { nodes := [], freelist := none, freesize := 0, lastEvtid := 0, evtlist := fun _ => none }

variable (w : EvtHeap F P)

def store (a : Nat) (n : Node (ZEventCB F P)) : EvtHeap F P := { w with nodes := w.nodes.set a n }

def setHead (evtid : UInt32) (a : Option Nat) : EvtHeap F P :=
  { w with evtlist := Function.update w.evtlist evtid a }

/-- `_zcrt_Event_malloc_cb`. `mem` is whether the allocator gives a node. -/
def mallocCb (mem : Bool) (priority : UInt8) (evtType : EZCRTEvtType) (fn : Option F) (p1 p2 : P) :
    Except Fault (Option Nat × EvtHeap F P) :=
  let new : Node (ZEventCB F P) :=
    { data := { fn := fn, pri := priority, evtType := evtType, p1 := p1, p2 := p2 }, next := none }
  match w.freelist with
  | some job => do
      let (job, n) ← Nodes.load w.nodes (some job)
      pure (some job, { w with freelist := n.next, freesize := w.freesize - 1 }.store job new)
  | none =>
      if mem then .ok (some w.nodes.length, { w with nodes := w.nodes ++ [new] })
      else .ok (none, w)

/-- `_zcrt_Event_free_cb_no_protected`. -/
def freeCb (job : Nat) : Except Fault (EvtHeap F P) := do
  let (job, n) ← Nodes.load w.nodes (some job)
  let w := w.store job { data := { n.data with fn := none }, next := w.freelist }
  pure { w with freelist := some job, freesize := w.freesize + 1 }

/-- The loops of `zcrt_event_register_ex` and `zcrt_event_unregister`, which go on from `cur` while
    `past`: the last node passed, and where they stop. -/
def walk (past : ZEventCB F P → Bool) : Nat → Option Nat → Option Nat →
    Except Fault (Option Nat × Option Nat)
  | _, prev, none => .ok (prev, none)
  | 0, _, some _ => .error .endless
  | fuel + 1, prev, some cur => do
      let (cur, n) ← Nodes.load w.nodes (some cur)
      if past n.data then walk past fuel (some cur) n.next else pure (prev, some cur)

/-- The node `job` put behind `prev`, or first. -/
def link (evtid : UInt32) (job prev : Option Nat) : Except Fault (EvtHeap F P) := do
  match prev with
  | none =>
      let (a, n) ← Nodes.load w.nodes job
      pure ((w.store a { n with next := w.evtlist evtid }).setHead evtid (some a))
  | some prev =>
      let (a, n) ← Nodes.load w.nodes job
      let (_, p) ← Nodes.load w.nodes (some prev)
      let w := w.store a { n with next := p.next }
      let (prev, p) ← Nodes.load w.nodes (some prev)
      pure (w.store prev { p with next := some a })

/-- `zcrt_event_register_ex`. A node that could not be had is put into an empty list as `NULL`, and
    written to otherwise. -/
def registerEx (evtMng : Option (EvtHeap F P)) (mem : Bool) (priority : UInt8) (evtid : UInt32)
    (evtType : EZCRTEvtType) (cb : Option F) (p1 p2 : P) :
    Except Fault (EZCRTErr × Option (EvtHeap F P)) :=
  match evtMng with
  | none => .ok (.invalidCrtModule, none)
  | some w =>
      if evtid ≥ ZCRT_MAX_EVT ∨ cb.isNone then .ok (.paramErr, some w)
      else do
        let (job, w) ← w.mallocCb mem priority evtType cb p1 p2
        if w.evtlist evtid = none then pure (.success, some (w.setHead evtid job))
        else do
          let (prev, _) ← w.walk (fun cur => cur.pri ≥ priority) w.nodes.length none
            (w.evtlist evtid)
          let w ← w.link evtid job prev
          pure (.success, some w)

/-- `zcrt_event_register`. -/
def register (evtMng : Option (EvtHeap F P)) (mem : Bool) (priority : UInt8) (evtid : UInt32)
    (cb : Option F) (p1 p2 : P) : Except Fault (EZCRTErr × Option (EvtHeap F P)) :=
  registerEx evtMng mem priority evtid .evtAll cb p1 p2

/-- The node `cur` behind `prev` taken out of the list of `evtid`. -/
def unlink (evtid : UInt32) (prev : Option Nat) (cur : Nat) : Except Fault (EvtHeap F P) := do
  let (cur, n) ← Nodes.load w.nodes (some cur)
  if some cur ≠ w.evtlist evtid then
    let (prev, p) ← Nodes.load w.nodes prev
    pure (w.store prev { p with next := n.next })
  else pure (w.setHead evtid n.next)

/-- `zcrt_event_unregister`. -/
def unregister [DecidableEq F] [DecidableEq P] (evtMng : Option (EvtHeap F P)) (evtid : UInt32)
    (cb : Option F) (p1 p2 : P) : Except Fault (Option (EvtHeap F P)) :=
  match evtMng with
  | none => .ok none
  | some w =>
      if evtid ≥ ZCRT_MAX_EVT ∨ cb.isNone then .ok (some w)
      else if w.lastEvtid = evtid then .error .assert
      else do
        let (prev, cur) ← w.walk (fun cur => !cur.isSub cb p1 p2) w.nodes.length none
          (w.evtlist evtid)
        match cur with
        | none => pure (some w)
        | some cur => do
            let w ← w.unlink evtid prev cur
            let w ← w.freeCb cur
            pure (some w)

end EvtHeap

end Zcrt
