/-
  The timers with all their calls, step by step, from the moment a timer is added.

  * `zcrtTimerconAddArgn`, `zcrtTimerDelete`: the calls that `Core.Timer` leaves out.
  * `TimerRun`: the timers, the pass, and which callbacks were called with what.
  * `timerRunSys`: calls of the modules and turns of the thread in any order.
-/
import Zcrt.Core.TimerSys

namespace Zcrt

open Lib

variable {F P : Type}

/-! ## The calls -/

/-- `zcrt_timercon_add_argn`; the arguments after `argn` are as many as it says. -/
def zcrtTimerconAddArgn (timerMng : Option (ZTimer F P)) (mem : Bool) (containerId : UInt16)
    (period : UInt32) (cb : Option F) (args : List P) :
    Except Fault (EZCRTErr × Option (ZTimer F P)) :=
  match timerMng with
  | none => .ok (.invalidCrtModule, none)
  | some mng =>
      if ¬ztimerIsValidContainerId containerId then .ok (.invalidCrtModule, some mng)
      else if cb.isNone ∨ args.length = 0 ∨ args.length > ZCRT_CB_MAX_ARGS then
        .ok (.paramErr, some mng)
      else if containerId ≠ ZTIMER_CONTAINER_CONSTID ∧ mng.container containerId = 0 then
        .ok (.badObject, some mng)
      else do
        let (job, mng) ← zcrtTimerMallocCb mng mem period cb
        match job with
        | none => pure (.noMem, some mng)
        | some job => do
            let (job, n) ← Nodes.load mng.nodes (some job)
            let mng := mng.store job
              { n with data := { n.data with argn := UInt32.ofNat args.length, args := args } }
            let mng ← zcrtTimerInsertCb mng job
            pure (.success, some mng)

theorem timerconAddArgn_eq (mng : ZTimer F P) (mem : Bool) (c : UInt16) (period : UInt32)
    (cb : Option F) (args : List P) :
    zcrtTimerconAddArgn (some mng) mem c period cb args =
      if ¬ztimerIsValidContainerId c then .ok (.invalidCrtModule, some mng)
      else if cb.isNone ∨ args.length = 0 ∨ args.length > ZCRT_CB_MAX_ARGS then
        .ok (.paramErr, some mng)
      else if c ≠ ZTIMER_CONTAINER_CONSTID ∧ mng.container c = 0 then .ok (.badObject, some mng)
      else timerPut mng mem period cb fun d =>
        { d with argn := UInt32.ofNat args.length, args := args } := rfl

section Delete

variable [DecidableEq F] [DecidableEq P]

/-- The test of `zcrt_timer_delete`; an argument not given is `null`. -/
def ZTimerCB.isOf (null : P) (d : ZTimerCB F P) (cb : F) (p1 p2 : P) : Bool :=
  d.fn = some cb ∧ d.args.getD 0 null = p1 ∧ d.args.getD 1 null = p2

/-- The loop of `zcrt_timer_delete` at `job`: the timer found, and the one before it. -/
def timerFind (null : P) (nodes : List (Node (ZTimerCB F P))) (cb : F) (p1 p2 : P) :
    Nat → Option Nat → Nat → Except Fault (Option Nat × Nat)
  | _, none, prev => .ok (none, prev)
  | 0, some _, _ => .error .endless
  | fuel + 1, some job, prev => do
      let (job, n) ← Nodes.load nodes (some job)
      if n.data.isOf null cb p1 p2 then pure (some job, prev)
      else timerFind null nodes cb p1 p2 fuel n.next job

/-- The region of `zcrt_timer_delete` under the mutex: the timer it takes out of the list. -/
def timerTake (null : P) (mng : ZTimer F P) (cb : F) (p1 p2 : P) :
    Except Fault (Option Nat × ZTimer F P) :=
  match mng.job with
  | none => .ok (none, mng)
  | some job => do
      let (job, n) ← Nodes.load mng.nodes (some job)
      if n.data.isOf null cb p1 p2 then
        pure (some job, { mng with job := n.next
                                   tail := if n.next = none then none else mng.tail })
      else do
        let (found, prev) ←
          timerFind null mng.nodes cb p1 p2 (mng.nodes.length + 1) (some job) job
        match found with
        -- `job` is `NULL` then: with a `tail` that is `NULL` too, the assertion goes through it
        | none => if mng.tail = none then .error .pointer else pure (none, mng)
        | some job => do
            let (job, n) ← Nodes.load mng.nodes (some job)
            let (prev, p) ← Nodes.load mng.nodes (some prev)
            let mng ← timerFixTail (mng.store prev { p with next := n.next }) job (some prev)
            pure (some job, mng)

/-- `zcrt_timer_delete`. -/
def zcrtTimerDelete (null : P) (timerMng : Option (ZTimer F P)) (cb : Option F) (p1 p2 : P) :
    Except Fault (EZCRTErr × Option (ZTimer F P)) :=
  match timerMng, cb with
  | none, _ => .ok (.invalidCrtModule, none)
  | some mng, none => .ok (.paramErr, some mng)
  | some mng, some cb => do
      let (job, mng) ← timerTake null mng cb p1 p2
      match job with
      | none => pure (.success, some mng)
      | some job => do
          let mng ← zcrtTimerFreeCb mng job
          pure (.success, some mng)

end Delete

/-! ## The steps -/

/-- A callback called: in which pass, if it is the one of the timer looked at, and with what. -/
structure TimerCall (F P : Type) where
  pass : Nat
  own : Bool
  fn : Option F
  args : List P
deriving DecidableEq

/-- The timers from the moment a timer is added. `own` is the node of that timer, until it is given
    back; `pass` counts the passes begun since. -/
structure TimerRun (F P : Type) where
  mng : ZTimer F P
  pos : TimerPos
  pass : Nat
  own : Option Nat
  calls : List (TimerCall F P)

inductive TimerOp (F P : Type)
  | containerNew
  | containerDelete (containerId : UInt16)
  | add (mem : Bool) (containerId : UInt16) (period : UInt32) (cb : Option F) (p1 p2 : P)
  | addArgn (mem : Bool) (containerId : UInt16) (period : UInt32) (cb : Option F) (args : List P)
  | delete (cb : Option F) (p1 p2 : P)
  | begin
  | turn
  | back
  | finish

/-- The node of the timer looked at, once `job` is given back. -/
def lapse (own job : Option Nat) : Option Nat := if own = job then none else own

namespace TimerRun

variable (st : TimerRun F P)

/-- The calls of the timer looked at. -/
def ownCalls : List (TimerCall F P) := st.calls.filter (·.own)

def containerNewStep : Option (TimerRun F P) :=
  match zcrtTimerContainerNew (some st.mng) with
  | .ok (_, some mng) => some { st with mng := mng }
  | _ => none

def containerDeleteStep (c : UInt16) : Option (TimerRun F P) :=
  (zcrtTimerContainerDelete (some st.mng) c).map fun mng => { st with mng := mng }

/-- After an adding call, whose timer is the last one. -/
def added : Except Fault (EZCRTErr × Option (ZTimer F P)) → Option (TimerRun F P)
  | .ok (ret, some mng) =>
      some { st with mng := mng, own := if ret = .success then lapse st.own mng.tail else st.own }
  | _ => none

def deleteStep [DecidableEq F] [DecidableEq P] (null : P) (cb : Option F) (p1 p2 : P) :
    Option (TimerRun F P) :=
  match zcrtTimerDelete null (some st.mng) cb p1 p2 with
  | .ok (_, some mng) =>
      let taken := cb.bind fun cb =>
        match timerTake null st.mng cb p1 p2 with
        | .ok (job, _) => job
        | .error _ => none
      some { st with mng := mng, own := lapse st.own taken }
  | _ => none

def beginStep : Option (TimerRun F P) :=
  match st.pos with
  | .sleep => some { st with pos := .loop st.mng.job st.mng.job, pass := st.pass + 1 }
  | _ => none

/-- The callback of `job` called. -/
def callOf (mng : ZTimer F P) (job : Nat) : Option (TimerCall F P) :=
  (Nodes.dataOf mng.nodes job).map fun d =>
    { pass := st.pass, own := st.own = some job, fn := d.fn, args := d.args }

def turnStep : Option (TimerRun F P) :=
  match st.pos with
  | .loop (some job) prev =>
      match timerTurn st.mng job prev with
      | .ok (.passed mng job prev) => some { st with mng := mng, pos := .loop job prev }
      | .ok (.expired mng prev called) =>
          some { st with
                 mng := mng
                 pos := .calling job prev
                 calls := if called then st.calls ++ (st.callOf mng job).toList else st.calls }
      | .error _ => none
  | _ => none

def backStep : Option (TimerRun F P) :=
  match st.pos with
  | .calling job prev =>
      match zcrtTimerFreeCb st.mng job with
      | .ok mng =>
          some { st with mng := mng, pos := .loop mng.job prev, own := lapse st.own (some job) }
      | .error _ => none
  | _ => none

def finishStep : Option (TimerRun F P) :=
  match st.pos with
  | .loop none _ => some { st with pos := .sleep }
  | _ => none

def step [DecidableEq F] [DecidableEq P] (null : P) : TimerOp F P → Option (TimerRun F P)
  | .containerNew => st.containerNewStep
  | .containerDelete c => st.containerDeleteStep c
  | .add mem c period cb p1 p2 => st.added (zcrtTimerconAdd (some st.mng) mem c period cb p1 p2)
  | .addArgn mem c period cb args =>
      st.added (zcrtTimerconAddArgn (some st.mng) mem c period cb args)
  | .delete cb p1 p2 => st.deleteStep null cb p1 p2
  | .begin => st.beginStep
  | .turn => st.turnStep
  | .back => st.backStep
  | .finish => st.finishStep

/-- A turn at the timer looked at, which is due, while its container is in use. -/
def due : TimerOp F P → Bool
  | .turn =>
      match st.pos with
      | .loop (some job) _ =>
          st.own = some job ∧ (Nodes.dataOf st.mng.nodes job).any fun d =>
            d.left < TIMER_TICK ∧ st.mng.isLive d.timecon
      | _ => false
  | _ => false

end TimerRun

/-- The run after a timer has been added, the last one of `mng`. -/
def TimerRun.start (mng : ZTimer F P) (pos : TimerPos) : TimerRun F P :=
  { mng := mng, pos := pos, pass := 0, own := mng.tail, calls := [] }

def timerRunSys [DecidableEq F] [DecidableEq P] (null : P) :
    Sys (TimerRun F P) (TimerOp F P) where
  init st := ∃ mng pos, st = TimerRun.start mng pos
  next st op := st.step null op

end Zcrt
