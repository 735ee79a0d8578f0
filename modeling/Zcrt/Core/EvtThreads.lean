/-
  The event manager of `zcrtlib/zevent.c` between threads. A region under the mutex is one step, and
  so is what a call does before its region and after it; a callback makes calls of its own, so that
  a thread may have several dispatches in progress.

  * `EvtHeap.place`, `EvtHeap.remove`: the second region of a registration, that of a removal.
  * `Dispatch`: a dispatch in progress, with a record of what was registered when it began and when
    it ended, and of what it called.
  * `EvtShared.exec`: what a thread does next, and the fault it ends in.
  * `evtThreads`: the steps of all threads, in any order.
-/
import Zcrt.Lib.FreeChain
import Zcrt.Core.EvtSys

namespace Zcrt

open Lib

variable {F P : Type}

namespace EvtHeap

variable (w : EvtHeap F P)

/-- `zcrt_event_register_ex` from `zcrt_mutex_lock` on. -/
def place (priority : UInt8) (evtid : UInt32) (job : Option Nat) :
    Except Fault (EvtHeap F P) :=
  if w.evtlist evtid = none then pure (w.setHead evtid job)
  else do
    let (prev, _) ← w.walk (fun cur => cur.pri ≥ priority) w.nodes.length none (w.evtlist evtid)
    w.link evtid job prev

/-- `zcrt_event_unregister` from `zcrt_mutex_lock` on. -/
def remove [DecidableEq F] [DecidableEq P] (evtid : UInt32) (cb : Option F) (p1 p2 : P) :
    Except Fault (EvtHeap F P) := do
  let (prev, cur) ← w.walk (fun cur => !cur.isSub cb p1 p2) w.nodes.length none (w.evtlist evtid)
  match cur with
  | none => pure w
  | some cur => do
      let w ← w.unlink evtid prev cur
      w.freeCb cur

/-- The two parts of `zcrt_event_register_ex`, one after the other. -/
theorem registerEx_eq {evtid : UInt32} {cb : Option F} (h : ¬(evtid ≥ ZCRT_MAX_EVT ∨ cb.isNone))
    (mem : Bool) (priority : UInt8) (evtType : EZCRTEvtType) (p1 p2 : P) :
    registerEx (some w) mem priority evtid evtType cb p1 p2 =
      (w.mallocCb mem priority evtType cb p1 p2).bind fun r =>
        (r.2.place priority evtid r.1).map fun w => (.success, some w) := by
  unfold registerEx
  dsimp only
  rw [if_neg h]
  cases w.mallocCb mem priority evtType cb p1 p2 with
  | error e => rfl
  | ok r =>
      change (if r.2.evtlist evtid = none then _ else _) = Except.map _ (place ..)
      unfold place
      split
      · rfl
      · cases r.2.walk (fun cur => cur.pri ≥ priority) r.2.nodes.length none
            (r.2.evtlist evtid) with
        | error e => rfl
        | ok s =>
            change (do let w ← r.2.link evtid r.1 s.1; _) = Except.map _ (r.2.link evtid r.1 s.1)
            cases r.2.link evtid r.1 s.1 <;> rfl

/-- The assertion of `zcrt_event_unregister`, then its region. -/
theorem unregister_eq [DecidableEq F] [DecidableEq P] {evtid : UInt32} {cb : Option F}
    (h : ¬(evtid ≥ ZCRT_MAX_EVT ∨ cb.isNone)) (p1 p2 : P) :
    unregister (some w) evtid cb p1 p2 =
      if w.lastEvtid = evtid then .error .assert else (w.remove evtid cb p1 p2).map some := by
  unfold unregister
  dsimp only
  rw [if_neg h]
  split
  · rfl
  · unfold remove
    cases w.walk (fun cur => !cur.isSub cb p1 p2) w.nodes.length none (w.evtlist evtid) with
    | error e => rfl
    | ok s =>
        obtain ⟨prev, cur⟩ := s
        cases cur with
        | none => rfl
        | some cur =>
            change (do let w ← w.unlink evtid prev cur; _) =
              Except.map some (do let w ← w.unlink evtid prev cur; w.freeCb cur)
            cases w.unlink evtid prev cur with
            | error e => rfl
            | ok w' =>
                change (do let w ← w'.freeCb cur; _) = Except.map some (w'.freeCb cur)
                cases w'.freeCb cur <;> rfl

end EvtHeap

/-! ## Threads -/

/-- Where a thread is in a call: at none of these, at the second region of a registration, at the
    region of a removal, and of a dispatch before `zcrt_mutex_lock` and behind
    `zcrt_mutex_unlock`. -/
inductive EvtPc (F P : Type)
  | idle
  | linking (job : Option Nat) (priority : UInt8) (evtid : UInt32)
  | removing (evtid : UInt32) (cb : Option F) (p1 p2 : P)
  | sending (evtid : UInt32) (evtType : EZCRTEvtType) (evtdata : P)
  | sent

/-- A dispatch in its loop, at the node `cur`; `inCb` is set while the callback of `cur` runs. The
    last three are a record: what was registered when it began, what it called, and what is
    registered when it ends. -/
structure Dispatch (F P : Type) where
  evtid : UInt32
  evtType : EZCRTEvtType
  evtdata : P
  cur : Option Nat
  inCb : Bool
  began : List (Nat × ZEventCB F P)
  calls : List (Nat × ZEventCB F P)
  left : List (Nat × ZEventCB F P)

/-- A thread: its place, and the dispatches it is in, the innermost first. -/
structure EvtThread (F P : Type) where
  pc : EvtPc F P
  frames : List (Dispatch F P)

/-- It runs no dispatch, or is in a callback. -/
def EvtThread.calling (th : EvtThread F P) : Bool :=
  match th.pc, th.frames with
  | .idle, [] => true
  | .idle, f :: _ => f.inCb
  | _, _ => false

/-- The event manager, the thread that has its mutex between two steps, the threads, and a record of
    the dispatches that ended. -/
structure EvtShared (F P : Type) where
  heap : EvtHeap F P
  owner : Option Nat
  threads : Nat → EvtThread F P
  ended : List (Dispatch F P)

/-- What a thread does next. -/
inductive ThreadAct (F P : Type)
  | op (op : EvtOp F P)
  | send (evtid : UInt32) (evtType : EZCRTEvtType) (evtdata : P)
  | go
  | visit
  | back
  | finish

/-- The nodes from a pointer on, with their data. -/
def chainFrom (ns : List (Node (ZEventCB F P))) : Nat → Option Nat → List (Nat × ZEventCB F P)
  | fuel + 1, some a =>
      match ns[a]? with
      | some n => (a, n.data) :: chainFrom ns fuel n.next
      | none => []
  | _, _ => []

/-- The subscriptions of an event, in the order of their list. -/
def EvtHeap.subs (w : EvtHeap F P) (evtid : UInt32) : List (Nat × ZEventCB F P) :=
  chainFrom w.nodes w.nodes.length (w.evtlist evtid)

namespace EvtShared

variable (st : EvtShared F P) (t : Nat)

def setThread (th : EvtThread F P) : EvtShared F P :=
  { st with threads := Function.update st.threads t th }

/-- `zcrt_mutex_lock` returns: the mutex is recursive. -/
def mayLock : Bool := st.owner = none ∨ st.owner = some t

/-- `zcrt_event_register_ex` up to its second region. -/
def registerStep (mem : Bool) (priority : UInt8) (evtid : UInt32) (evtType : EZCRTEvtType)
    (cb : Option F) (p1 p2 : P) : Option (Except Fault (EvtShared F P)) :=
  if evtid ≥ ZCRT_MAX_EVT ∨ cb.isNone then some (.ok st)
  else if st.mayLock t then
    some ((st.heap.mallocCb mem priority evtType cb p1 p2).map fun r =>
      { st with heap := r.2 }.setThread t { st.threads t with pc := .linking r.1 priority evtid })
  else none

/-- A call that changes the subscriptions, up to the region that does. -/
def opStep : EvtOp F P → Option (Except Fault (EvtShared F P))
  | .register mem priority evtid cb p1 p2 =>
      st.registerStep t mem priority evtid .evtAll cb p1 p2
  | .registerEx mem priority evtid evtType cb p1 p2 =>
      st.registerStep t mem priority evtid evtType cb p1 p2
  | .unregister evtid cb p1 p2 =>
      if evtid ≥ ZCRT_MAX_EVT ∨ cb.isNone then some (.ok st)
      else if st.heap.lastEvtid = evtid then some (.error .assert)
      else some (.ok (st.setThread t { st.threads t with pc := .removing evtid cb p1 p2 }))

/-- `zcrt_event_send_ex` up to the mutex. -/
def sendStep (evtid : UInt32) (evtType : EZCRTEvtType) (evtdata : P) :
    Option (Except Fault (EvtShared F P)) :=
  if evtid ≥ ZCRT_MAX_EVT then some (.ok st)
  else some (.ok ({ st with heap := { st.heap with lastEvtid := evtid } }.setThread t
    { st.threads t with pc := .sending evtid evtType evtdata }))

/-- A region changes the subscriptions, and the call returns. -/
def regionStep (r : Except Fault (EvtHeap F P)) : Option (Except Fault (EvtShared F P)) :=
  if st.mayLock t then
    some (r.map fun w => { st with heap := w }.setThread t { st.threads t with pc := .idle })
  else none

/-- The call the thread is in goes on. -/
def goStep [DecidableEq F] [DecidableEq P] : Option (Except Fault (EvtShared F P)) :=
  match (st.threads t).pc with
  | .idle => none
  | .linking job priority evtid => st.regionStep t (st.heap.place priority evtid job)
  | .removing evtid cb p1 p2 => st.regionStep t (st.heap.remove evtid cb p1 p2)
  | .sending evtid evtType evtdata =>
      if st.mayLock t then
        let f : Dispatch F P :=
          { evtid := evtid, evtType := evtType, evtdata := evtdata, cur := st.heap.evtlist evtid
            inCb := false, began := st.heap.subs evtid, calls := [], left := [] }
        some (.ok ({ st with owner := some t }.setThread t
          { pc := .idle, frames := f :: (st.threads t).frames }))
      else none
  | .sent =>
      some (.ok ({ st with heap := { st.heap with lastEvtid := 0 } }.setThread t
        { st.threads t with pc := .idle }))

/-- The node at which the loop of the innermost dispatch is: its callback is called, or it is passed
    over. -/
def visitStep (f : Dispatch F P) (fs : List (Dispatch F P)) :
    Option (Except Fault (EvtShared F P)) :=
  match f.cur with
  | none => none
  | some cur => some do
      let (a, n) ← Nodes.load st.heap.nodes (some cur)
      if n.data.takes f.evtType then
        if n.data.fn.isNone then .error .pointer
        else pure (st.setThread t { pc := .idle, frames :=
          { f with inCb := true, calls := f.calls ++ [(a, n.data)] } :: fs })
      else pure (st.setThread t { pc := .idle, frames := { f with cur := n.next } :: fs })

/-- The callback returns. -/
def backStep (f : Dispatch F P) (fs : List (Dispatch F P)) :
    Option (Except Fault (EvtShared F P)) :=
  some do
    let (_, n) ← Nodes.load st.heap.nodes f.cur
    pure (st.setThread t { pc := .idle, frames := { f with inCb := false, cur := n.next } :: fs })

/-- After the loop, up to `zcrt_mutex_unlock`. -/
def finishStep (f : Dispatch F P) (fs : List (Dispatch F P)) :
    Option (Except Fault (EvtShared F P)) :=
  if f.cur = none then
    let ended := { f with left := st.heap.subs f.evtid }
    some (.ok ({ st with owner := if fs.isEmpty then none else some t
                         ended := st.ended ++ [ended] }.setThread t { pc := .sent, frames := fs }))
  else none

/-- What a thread does in its innermost dispatch, with the callback of that one running or not. -/
def onFrame (inCb : Bool) (step : Dispatch F P → List (Dispatch F P) →
    Option (Except Fault (EvtShared F P))) : Option (Except Fault (EvtShared F P)) :=
  match (st.threads t).pc, (st.threads t).frames with
  | .idle, f :: fs => if f.inCb = inCb then step f fs else none
  | _, _ => none

/-- The step of a thread: not possible, or a fault, or the next state. -/
def exec [DecidableEq F] [DecidableEq P] :
    ThreadAct F P → Option (Except Fault (EvtShared F P))
  | .op op => if (st.threads t).calling then st.opStep t op else none
  | .send evtid evtType evtdata =>
      if (st.threads t).calling then st.sendStep t evtid evtType evtdata else none
  | .go => st.goStep t
  | .visit => st.onFrame t false (st.visitStep t)
  | .back => st.onFrame t true (st.backStep t)
  | .finish => st.onFrame t false (st.finishStep t)

/-- What is asked of the step of a thread: the allocator has nodes, and no callback unregisters an
    event that its thread dispatches. -/
def Proper (st : EvtShared F P) : Nat × ThreadAct F P → Prop
  | (_, .op (.register mem _ _ _ _ _)) => mem = true
  | (_, .op (.registerEx mem _ _ _ _ _ _)) => mem = true
  | (t, .op (.unregister evtid _ _ _)) => ∀ f ∈ (st.threads t).frames, f.evtid ≠ evtid
  | _ => True

instance (st : EvtShared F P) : (act : Nat × ThreadAct F P) → Decidable (st.Proper act)
  | (_, .op (.register mem _ _ _ _ _)) => inferInstanceAs (Decidable (mem = true))
  | (_, .op (.registerEx mem _ _ _ _ _ _)) => inferInstanceAs (Decidable (mem = true))
  | (t, .op (.unregister evtid _ _ _)) =>
      inferInstanceAs (Decidable (∀ f ∈ (st.threads t).frames, f.evtid ≠ evtid))
  | (_, .send ..) | (_, .go) | (_, .visit) | (_, .back) | (_, .finish) =>
      inferInstanceAs (Decidable True)

end EvtShared

/-- The threads of a module that begins with no subscription. -/
def evtThreads [DecidableEq F] [DecidableEq P] : Sys (EvtShared F P) (Nat × ThreadAct F P) where
  init st := st =
    { heap := .manageInit, owner := none, threads := fun _ => ⟨.idle, []⟩, ended := [] }
  next st act := (st.exec act.1 act.2).bind Except.toOption

/-! ## The end -/

namespace EvtHeap

/-- `_zcrt_e_free_cbs`, with the nodes given back before. -/
def eFreeCbs (w : EvtHeap F P) (cbs : Option Nat) (freed : List Nat) : Except Fault (List Nat) :=
  Nodes.freeChain w.nodes w.nodes.length cbs freed

/-- `zcrt_event_manage_delete`: the nodes given back, in this order. The manager itself and its
    mutex are not followed. -/
def manageDelete (w : EvtHeap F P) : Except Fault (List Nat) := do
  let freed ← (List.range ZCRT_MAX_EVT.toNat).foldlM
    (fun freed i => w.eFreeCbs (w.evtlist (UInt32.ofNat i)) freed) []
  w.eFreeCbs w.freelist freed

end EvtHeap

end Zcrt
