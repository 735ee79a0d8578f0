/-
  The timers of `zcrtlib/ztimer.c`: one list of pending timers, which the timer thread goes through
  every `TIMER_TICK` milliseconds, and containers, in which a timer is added and which can be
  deleted.

  * `zcrtTimerContainerNew`, `zcrtTimerContainerDelete`, `zcrtTimerconAdd`: the calls of the
    modules.
  * `timerTurn`: one turn of the inner loop of `_zcrt_timer_proc`, up to the callback.
  * `timerPass`: the whole inner loop, with callbacks that leave the timers alone.
-/
import Zcrt.Lib.Nodes
import Zcrt.Core.Types

namespace Zcrt

open Lib

def ZTIMER_CONTAINER_MAX : Nat := 1000
def ZTIMER_INVALID_CONTAINER : UInt16 := 0
def ZTIMER_CONTAINER_CONSTID : UInt16 := 0xfff
def TIMER_TICK : UInt32 := 50

/-- `ZTIMER_IS_VALID_CONTAINER_ID`. -/
def ztimerIsValidContainerId (cid : UInt16) : Bool :=
  (cid.toNat < ZTIMER_CONTAINER_MAX ∧ cid ≠ ZTIMER_INVALID_CONTAINER) ∨
    cid = ZTIMER_CONTAINER_CONSTID

/-- `_zstTimerCB` without its link. `args` are the arguments given; the others are `NULL`. -/
structure ZTimerCB (F P : Type) where
  left : UInt32
  fn : Option F
  argn : UInt32
  timecon : UInt16
  args : List P
deriving DecidableEq

/-- `_zstTimer` and the nodes allocated for it, without the thread. No node is given back to the
    allocator while it runs. `container` has `ZTIMER_CONTAINER_MAX` entries. -/
structure ZTimer (F P : Type) where
  nodes : List (Node (ZTimerCB F P))
  job : Option Nat
  tail : Option Nat
  freelist : Option Nat
  freesize : Int32
  conlastid : UInt16
  container : UInt16 → UInt8

variable {F P : Type}

/-- `zcrt_timer_manage_init`, where the allocation succeeds. -/
def zcrtTimerManageInit : ZTimer F P :=
  { nodes := [], job := none, tail := none, freelist := none, freesize := 0, conlastid := 0,
    container := fun _ => 0 }

namespace ZTimer

variable (mng : ZTimer F P)

def store (a : Nat) (n : Node (ZTimerCB F P)) : ZTimer F P :=
  { mng with nodes := mng.nodes.set a n }

/-- The callback of a timer is called: its container is there. -/
def isLive (timecon : UInt16) : Bool :=
  ztimerIsValidContainerId timecon ∧
    (timecon = ZTIMER_CONTAINER_CONSTID ∨ mng.container timecon ≠ 0)

end ZTimer

/-- `_zcrt_timer_malloc_cb`. `mem` is whether the allocator gives a node. -/
def zcrtTimerMallocCb (mng : ZTimer F P) (mem : Bool) (period : UInt32) (fn : Option F) :
    Except Fault (Option Nat × ZTimer F P) :=
  let new : Node (ZTimerCB F P) :=
    { data := { left := period, fn := fn, argn := 0, timecon := 0, args := [] }, next := none }
  match mng.freelist with
  | some job => do
      let (job, n) ← Nodes.load mng.nodes (some job)
      pure (some job, { mng with freelist := n.next, freesize := mng.freesize - 1 }.store job new)
  | none =>
      if mem then .ok (some mng.nodes.length, { mng with nodes := mng.nodes ++ [new] })
      else .ok (none, mng)

/-- `_zcrt_timer_free_cb`. -/
def zcrtTimerFreeCb (mng : ZTimer F P) (job : Nat) : Except Fault (ZTimer F P) := do
  let (job, n) ← Nodes.load mng.nodes (some job)
  let mng := mng.store job
    { data := { n.data with fn := none, timecon := ZTIMER_INVALID_CONTAINER }
      next := mng.freelist }
  pure { mng with freelist := some job, freesize := mng.freesize + 1 }

/-- `_zcrt_timer_insert_cb_has_mutex`. -/
def zcrtTimerInsertCb (mng : ZTimer F P) (job : Nat) : Except Fault (ZTimer F P) :=
  match mng.job with
  | some _ =>
      match mng.tail with
      | none => .error .assert
      | some tail => do
          let (tail, n) ← Nodes.load mng.nodes (some tail)
          pure { mng.store tail { n with next := some job } with tail := some job }
  | none =>
      if mng.tail ≠ none then .error .assert
      else .ok { mng with job := some job, tail := some job }

/-! ## Containers -/

/-- The loop of `zcrt_timer_container_new` from `i` on: the index found free and where the loop was
    then. `i` is a `uint16_t`; when it has been everywhere the loop does not end. -/
def containerLoop (container : UInt16 → UInt8) (last : UInt16) :
    Nat → UInt16 → Except Fault (Option (UInt16 × UInt16))
  | 0, _ => .error .endless
  | fuel + 1, i =>
      if i.toNat < last.toNat + ZTIMER_CONTAINER_MAX then
        let idx := i % UInt16.ofNat ZTIMER_CONTAINER_MAX
        if idx ≠ ZTIMER_INVALID_CONTAINER ∧ container idx = 0 then .ok (some (idx, i))
        else containerLoop container last fuel (i + 1)
      else .ok none

/-- What the next container will be. -/
def ZTimer.nextContainer (mng : ZTimer F P) : Except Fault (Option (UInt16 × UInt16)) :=
  containerLoop mng.container mng.conlastid 65536 mng.conlastid

/-- `zcrt_timer_container_new`. -/
def zcrtTimerContainerNew (timerMng : Option (ZTimer F P)) :
    Except Fault (UInt16 × Option (ZTimer F P)) :=
  match timerMng with
  | none => .ok (ZTIMER_INVALID_CONTAINER, none)
  | some mng => do
      match ← mng.nextContainer with
      | none => pure (ZTIMER_INVALID_CONTAINER, some mng)
      | some (idx, i) =>
          pure (idx, some { mng with container := Function.update mng.container idx 1
                                     conlastid := i })

/-- `zcrt_timer_container_delete`. -/
def zcrtTimerContainerDelete (timerMng : Option (ZTimer F P)) (containerId : UInt16) :
    Option (ZTimer F P) :=
  match timerMng with
  | none => none
  | some mng =>
      if ¬ztimerIsValidContainerId containerId ∨ containerId = ZTIMER_CONTAINER_CONSTID then
        some mng
      else some { mng with container := Function.update mng.container containerId 0 }

/-! ## Timers -/

/-- `zcrt_timercon_add`. -/
def zcrtTimerconAdd (timerMng : Option (ZTimer F P)) (mem : Bool) (containerId : UInt16)
    (period : UInt32) (cb : Option F) (p1 p2 : P) :
    Except Fault (EZCRTErr × Option (ZTimer F P)) :=
  match timerMng with
  | none => .ok (.invalidCrtModule, none)
  | some mng =>
      if ¬ztimerIsValidContainerId containerId then .ok (.invalidCrtModule, some mng)
      else if cb.isNone then .ok (.paramErr, some mng)
      else if containerId ≠ ZTIMER_CONTAINER_CONSTID ∧ mng.container containerId = 0 then
        .ok (.badObject, some mng)
      else do
        let (job, mng) ← zcrtTimerMallocCb mng mem period cb
        match job with
        | none => pure (.noMem, some mng)
        | some job => do
            let (job, n) ← Nodes.load mng.nodes (some job)
            let mng := mng.store job
              { n with data := { n.data with argn := 2, args := [p1, p2], timecon := containerId } }
            let mng ← zcrtTimerInsertCb mng job
            pure (.success, some mng)

/-- The link to `job` set past it. -/
def timerUnhook (mng : ZTimer F P) (job : Nat) (prev : Option Nat) :
    Except Fault (ZTimer F P × Option Nat) := do
  let (job, n) ← Nodes.load mng.nodes (some job)
  if mng.job = some job then pure ({ mng with job := n.next }, n.next)
  else do
    let (p, m) ← Nodes.load mng.nodes prev
    pure (mng.store p { m with next := n.next }, prev)

/-- `tail` set to `prev` if it was `job`. -/
def timerFixTail (mng : ZTimer F P) (job : Nat) (prev : Option Nat) :
    Except Fault (ZTimer F P) := do
  let (job, n) ← Nodes.load mng.nodes (some job)
  if mng.tail = some job then
    if n.next ≠ none then .error .assert else pure { mng with tail := prev }
  else pure mng

/-- `job` taken out of the list: the region of `_zcrt_timer_proc` under the mutex. -/
def timerUnlink (mng : ZTimer F P) (job : Nat) (prev : Option Nat) :
    Except Fault (ZTimer F P × Option Nat) := do
  let (mng, prev) ← timerUnhook mng job prev
  let mng ← timerFixTail mng job prev
  pure (mng, prev)

/-- What a turn of the inner loop came to: a timer passed, or one taken out, whose callback is
    called if `called`. The loop goes on with `job` and `prev`, or with `prev` once the callback is
    back. -/
inductive TimerTurn (F P : Type)
  | passed (mng : ZTimer F P) (job prev : Option Nat)
  | expired (mng : ZTimer F P) (prev : Option Nat) (called : Bool)

/-- A turn of the inner loop of `_zcrt_timer_proc` at `job`, up to the callback. -/
def timerTurn (mng : ZTimer F P) (job : Nat) (prev : Option Nat) :
    Except Fault (TimerTurn F P) := do
  let (job, n) ← Nodes.load mng.nodes (some job)
  if n.data.left < TIMER_TICK then
    let (mng, prev) ← timerUnlink mng job prev
    let (_, n) ← Nodes.load mng.nodes (some job)
    if n.data.fn.isNone then .error .assert
    else pure (.expired mng prev (mng.isLive n.data.timecon))
  else
    let mng := mng.store job { n with data := { n.data with left := n.data.left - TIMER_TICK } }
    pure (.passed mng n.next (some job))

/-- The inner loop of `_zcrt_timer_proc` from `job` on, with callbacks that leave the timers alone.
    `calls` are the timers whose callbacks were called, in this order. -/
def timerLoop : Nat → ZTimer F P → Option Nat → Option Nat → List Nat →
    Except Fault (ZTimer F P × List Nat)
  | _, mng, none, _, calls => .ok (mng, calls)
  | 0, _, some _, _, _ => .error .endless
  | fuel + 1, mng, some job, prev, calls => do
      match ← timerTurn mng job prev with
      | .passed mng job prev => timerLoop fuel mng job prev calls
      | .expired mng prev called => do
          let mng ← zcrtTimerFreeCb mng job
          timerLoop fuel mng mng.job prev (if called then calls ++ [job] else calls)

/-- One execution of the inner loop. -/
def timerPass (mng : ZTimer F P) : Except Fault (ZTimer F P × List Nat) :=
  timerLoop ((mng.nodes.length + 1) * (mng.nodes.length + 1)) mng mng.job mng.job []

end Zcrt
