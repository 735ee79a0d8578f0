/-
  The scheduler of `zcrtlib/zschedule.c`: threads with one job queue for each priority, and the
  schedules that put jobs into them. Several schedules may share a thread and a priority.

  Jobs, schedules and threads are nodes of a heap and known by their address; a pointer is `none`
  when it is `NULL`. What `zcrt_malloc` returns is an argument of each function that calls it.
  A call either returns or ends in a `SchFault`. `F` is the type of job callbacks, `P` of their
  arguments. The reference counts are those `zcrt_os.h` documents.

  Each function runs under the thread's mutex, or one after another of such regions.
-/
import Zcrt.Core.Types
import Zcrt.Lib.Seg

namespace Zcrt

open Lib

/-- `EZCRTPriority`. -/
inductive EZCRTPriority
  | priHigh
  | priNormal
  | priLow
  | num
deriving DecidableEq

/-- `EZCRTSchType`. -/
inductive EZCRTSchType
  | zcrtThread
  | selfThread
  | shareThread
deriving DecidableEq

/-- `_zstScheduleJob`. `args` are the arguments given; the others are `NULL`. -/
structure ScheduleJob (F P : Type) where
  fn : Option F
  argn : UInt32
  args : List P
  sch : Option Nat
  next : Option Nat

/-- `_zstSchPriList`. -/
structure SchPriList where
  jobs : Option Nat
  tail : Option Nat
deriving DecidableEq

/-- `_zstSchedule`. -/
structure ZSchedule where
  thr : Option Nat
  maxsize : Int
  pri : EZCRTPriority
  type : EZCRTSchType
  cursize : Int
  maxhold : Int
  next : Option Nat

/-- `_zstSchThr`. -/
structure SchThr where
  que : EZCRTPriority → SchPriList
  freejobs : Option Nat
  run : Bool
  refCnt : Int
  schList : Option Nat
  next : Option Nat
  joballoced : UInt32
  jobfreed : UInt32
  jobadded : UInt32

/-- The nodes alive, and the two fields of the module that are the scheduler's. -/
structure SchHeap (F P : Type) where
  jobs : Nat → Option (ScheduleJob F P)
  schs : Nat → Option ZSchedule
  thrs : Nat → Option SchThr
  zcrtthr : Option Nat
  schthrList : Option Nat

/-- How a call can end other than by returning: a failed `ZCRT_ASSERT`, a pointer followed that is
    `NULL` or freed, a loop not at its end after the number of rounds allowed. -/
inductive SchFault
  | assert
  | pointer
  | loop
deriving DecidableEq

variable {F P : Type}

namespace SchHeap

def setJob (w : SchHeap F P) (a : Nat) (job : ScheduleJob F P) : SchHeap F P :=
  { w with jobs := Function.update w.jobs a (some job) }

def setSch (w : SchHeap F P) (a : Nat) (sch : ZSchedule) : SchHeap F P :=
  { w with schs := Function.update w.schs a (some sch) }

def setThr (w : SchHeap F P) (a : Nat) (thr : SchThr) : SchHeap F P :=
  { w with thrs := Function.update w.thrs a (some thr) }

/-- The links between jobs. -/
def links (w : SchHeap F P) (a : Nat) : Option (Option Nat) := (w.jobs a).map ScheduleJob.next

end SchHeap

/-- The thread with the queue of `pri` replaced. -/
def SchThr.setQue (thr : SchThr) (pri : EZCRTPriority) (que : SchPriList) : SchThr :=
  { thr with que := Function.update thr.que pri que }

/-- Following a pointer: the address and the node at it. -/
def deref {α : Type} (heap : Nat → Option α) : Option Nat → Except SchFault (Nat × α)
  | none => .error .pointer
  | some a =>
      match heap a with
      | none => .error .pointer
      | some n => .ok (a, n)

/-- `_zcrt_s_thr_getjob`. -/
def zcrtSThrGetjob (w : SchHeap F P) (schpri : SchPriList) :
    Except SchFault (Option Nat × SchPriList) :=
  match schpri.jobs with
  | none => .ok (none, schpri)
  | some job => do
      let (_, j) ← deref w.jobs (some job)
      pure (some job,
        { jobs := j.next, tail := if schpri.tail = some job then none else schpri.tail })

/-- `_zcrt_s_job_new`. -/
def zcrtSJobNew (w : SchHeap F P) (thr : Option Nat) (cb : F) (mem : Option Nat) :
    Except SchFault (Option Nat × SchHeap F P) :=
  let new : ScheduleJob F P := { fn := some cb, argn := 0, args := [], sch := none, next := none }
  match thr with
  | none => .error .assert
  | some thr => do
      let (_, t) ← deref w.thrs (some thr)
      let t := { t with jobadded := t.jobadded + 1 }
      match t.freejobs with
      | some job => do
          let (_, j) ← deref w.jobs (some job)
          pure (some job, (w.setThr thr { t with freejobs := j.next }).setJob job new)
      | none =>
          let w := w.setThr thr { t with joballoced := t.joballoced + 1 }
          match mem with
          | none => pure (none, w)
          | some job => pure (some job, w.setJob job new)

/-- `_zcrt_s_job_delete_has_mutex`. -/
def zcrtSJobDeleteHasMutex (w : SchHeap F P) (thr job : Nat) : Except SchFault (SchHeap F P) := do
  let (_, j) ← deref w.jobs (some job)
  let (_, t) ← deref w.thrs (some thr)
  let w := (w.setJob job { j with next := t.freejobs, fn := none, sch := none }).setThr thr
    { t with freejobs := some job, jobfreed := t.jobfreed + 1 }
  match j.sch with
  | none => pure w
  | some sch => do
      let (_, s) ← deref w.schs (some sch)
      pure (w.setSch sch { s with cursize := s.cursize - 1 })

/-! ## The worker -/

/-- The loop over the queues in `_zcrt_schedule_thread_proc`, up to the first job. -/
def getjobLoop (w : SchHeap F P) (que : EZCRTPriority → SchPriList) :
    List EZCRTPriority → Except SchFault (Option Nat × (EZCRTPriority → SchPriList))
  | [] => .ok (none, que)
  | i :: is => do
      let (job, schpri) ← zcrtSThrGetjob w (que i)
      let que := Function.update que i schpri
      match job with
      | some job => pure (some job, que)
      | none => getjobLoop w que is

/-- The region of `_zcrt_schedule_thread_proc` under the mutex: the job, if there is one, and what
    it held, of which the callback is called with the arguments afterwards. -/
def zcrtScheduleThreadProc (w : SchHeap F P) (thr : Nat) :
    Except SchFault (Option (Nat × ScheduleJob F P) × SchHeap F P) := do
  let (_, t) ← deref w.thrs (some thr)
  let (job, que) ← getjobLoop w t.que [.priHigh, .priNormal, .priLow]
  let w := w.setThr thr { t with que := que }
  match job with
  | none => pure (none, w)
  | some job => do
      let (_, j) ← deref w.jobs (some job)
      let w ← zcrtSJobDeleteHasMutex w thr job
      pure (some (job, j), w)

/-! ## Threads and their schedules -/

/-- `_zcrt_s_thr_new`; `module` is `false` for the thread made with the module. -/
def zcrtSThrNew (w : SchHeap F P) (module : Bool) (mem : Option Nat) :
    Except SchFault (Nat × SchHeap F P) :=
  match mem with
  | none => .error .pointer
  | some thr =>
      let w1 := w.setThr thr
        { que := fun _ => { jobs := none, tail := none }, freejobs := none, run := true,
          refCnt := 0,
          schList := none, next := if module then w.schthrList else none, joballoced := 0,
          jobfreed := 0, jobadded := 0 }
      .ok (thr, { w1 with schthrList := if module then some thr else w.schthrList })

/-- `_zcrt_s_thr_add_sch`. -/
def zcrtSThrAddSch (w : SchHeap F P) (thr sch : Nat) : Except SchFault (SchHeap F P) := do
  let (_, t) ← deref w.thrs (some thr)
  let (_, s) ← deref w.schs (some sch)
  let w := if t.schList.isSome then w.setSch sch { s with next := t.schList } else w
  pure (w.setThr thr { t with schList := some sch })

/-- The loop of `_zcrt_s_thr_remove_sch` over the queue, from `job` on, `prev` before it. -/
def removeLoop (thr sch : Nat) (pri : EZCRTPriority) :
    Nat → SchHeap F P → (prev job : Option Nat) → Except SchFault (SchHeap F P)
  | 0, _, _, _ => .error .loop
  | fuel + 1, w, prev, job =>
      match job with
      | none => pure w
      | some a => do
          let (_, s) ← deref w.schs (some sch)
          if s.cursize = 0 then pure w
          else do
            let (_, j) ← deref w.jobs (some a)
            if j.sch = some sch then do
              let w ← zcrtSJobDeleteHasMutex w thr a
              let (_, t) ← deref w.thrs (some thr)
              let que := t.que pri
              let (w, prev, que) ←
                if prev = some a then pure (w, j.next, { que with jobs := j.next })
                else do
                  let (p, jp) ← deref w.jobs prev
                  pure (w.setJob p { jp with next := j.next }, prev, que)
              let que := { que with tail := if que.tail = some a then none else que.tail }
              removeLoop thr sch pri fuel (w.setThr thr (t.setQue pri que)) prev j.next
            else removeLoop thr sch pri fuel w (some a) j.next

/-- `while (prev && prev->next != sch) prev = prev->next;`. -/
def findPrevSch (w : SchHeap F P) (sch : Nat) : Nat → Option Nat → Except SchFault (Option Nat)
  | 0, _ => .error .loop
  | fuel + 1, prev =>
      match prev with
      | none => pure none
      | some a => do
          let (_, s) ← deref w.schs (some a)
          if s.next ≠ some sch then findPrevSch w sch fuel s.next else pure (some a)

/-- The first half of `_zcrt_s_thr_remove_sch`: its jobs out of the queue. -/
def removeJobs (w : SchHeap F P) (thr sch fuel : Nat) : Except SchFault (SchHeap F P) := do
  let (_, s) ← deref w.schs (some sch)
  let (_, t) ← deref w.thrs (some thr)
  if s.cursize > 0 then
    removeLoop thr sch s.pri fuel w (t.que s.pri).jobs (t.que s.pri).jobs
  else pure w

/-- The second half: the schedule out of the thread's list. -/
def unlinkSch (w : SchHeap F P) (thr sch fuel : Nat) : Except SchFault (SchHeap F P) := do
  let (_, s) ← deref w.schs (some sch)
  let (_, t) ← deref w.thrs (some thr)
  if t.schList = some sch then pure (w.setThr thr { t with schList := s.next })
  else do
    match ← findPrevSch w sch fuel t.schList with
    | none => pure w
    | some prev => do
        let (_, p) ← deref w.schs (some prev)
        pure (w.setSch prev { p with next := s.next })

/-- `_zcrt_s_thr_remove_sch`, each of its loops given `fuel` rounds. -/
def zcrtSThrRemoveSch (w : SchHeap F P) (thr sch fuel : Nat) : Except SchFault (SchHeap F P) := do
  let w ← removeJobs w thr sch fuel
  unlinkSch w thr sch fuel

/-! ## The interface -/

/-- The thread `zcrt_schedule_create` takes: one of its own or that of the module. -/
def createThr (w : SchHeap F P) (type : EZCRTSchType) (memThr : Option Nat) :
    Except SchFault (Option Nat × SchHeap F P) :=
  if type = .selfThread then do
    let (thr, w) ← zcrtSThrNew w true memThr
    pure (some thr, w)
  else pure (w.zcrtthr, w)

/-- `zcrt_schedule_create`. -/
def zcrtScheduleCreate (w : SchHeap F P) (type : EZCRTSchType) (pri : EZCRTPriority)
    (maxsize : UInt16) (mem memThr : Option Nat) : Except SchFault (Option Nat × SchHeap F P) :=
  match mem with
  | none => .ok (none, w)
  | some sch => do
      let (thr, w) ← createThr w type memThr
      let w := w.setSch sch
        { thr := thr, maxsize := maxsize.toNat, pri := pri, type := type, cursize := 0,
          maxhold := 0,
          next := none }
      let (thr, t) ← deref w.thrs thr
      let w ← zcrtSThrAddSch (w.setThr thr { t with refCnt := t.refCnt + 1 }) thr sch
      pure (some sch, w)

/-- `zcrt_schedule_create_share`. -/
def zcrtScheduleCreateShare (w : SchHeap F P) (sch1 : Option Nat) (pri : EZCRTPriority)
    (maxsize : UInt16) (mem : Option Nat) : Except SchFault (Option Nat × SchHeap F P) :=
  match mem, sch1 with
  | some sch, some sch1 => do
      let (_, shareSch) ← deref w.schs (some sch1)
      let (type, thr) := if shareSch.type = .selfThread
        then (EZCRTSchType.shareThread, shareSch.thr) else (EZCRTSchType.zcrtThread, w.zcrtthr)
      let (thr, t) ← deref w.thrs thr
      let w := w.setThr thr { t with refCnt := t.refCnt + 1 }
      let w := w.setSch sch
        { thr := some thr, maxsize := maxsize.toNat, pri := pri, type := type, cursize := 0,
          maxhold := 0, next := none }
      let w ← zcrtSThrAddSch w thr sch
      pure (some sch, w)
  | _, _ => .ok (none, w)

/-- `zcrt_schedule_delete` up to the end of its region under the mutex. -/
def deleteRegion (w : SchHeap F P) (sch fuel : Nat) : Except SchFault (SchHeap F P) := do
  let (_, s) ← deref w.schs (some sch)
  if s.pri = .num then .error .assert
  else do
    let (thr, _) ← deref w.thrs s.thr
    zcrtSThrRemoveSch w thr sch fuel

/-- The rest of `zcrt_schedule_delete`: the count, the stop and the memory. -/
def deleteEnd (w : SchHeap F P) (sch : Nat) : Except SchFault (SchHeap F P) := do
  let (_, s) ← deref w.schs (some sch)
  let (thr, t) ← deref w.thrs s.thr
  let cnt := t.refCnt - 1
  let w := w.setThr thr
    { t with refCnt := cnt, run := if s.type = .selfThread ∧ cnt = 0 then false else t.run }
  pure { w with schs := Function.update w.schs sch none }

/-- `zcrt_schedule_delete`. -/
def zcrtScheduleDelete (w : SchHeap F P) (h : Option Nat) (fuel : Nat) :
    Except SchFault (SchHeap F P) :=
  match h with
  | none => .ok w
  | some sch => do
      let w ← deleteRegion w sch fuel
      deleteEnd w sch

/-- `_zcrt_s_insert_job`. -/
def zcrtSInsertJob (w : SchHeap F P) (sch job : Nat) : Except SchFault (SchHeap F P) := do
  let (_, s) ← deref w.schs (some sch)
  let (thr, t) ← deref w.thrs s.thr
  let que := t.que s.pri
  let w ← match que.jobs, que.tail with
    | some _, none => .error .assert
    | some _, some tail => do
        let (_, j) ← deref w.jobs (some tail)
        pure ((w.setJob tail { j with next := some job }).setThr thr
          (t.setQue s.pri { que with tail := some job }))
    | none, some _ => .error .assert
    | none, none => pure (w.setThr thr (t.setQue s.pri { jobs := some job, tail := some job }))
  let cursize := s.cursize + 1
  pure (w.setSch sch
    { s with cursize := cursize, maxhold := if s.maxhold < cursize then cursize else s.maxhold })

/-- The common end of the two senders: a job node, filled and put into its queue. -/
def sendNewJob (w : SchHeap F P) (sch : Nat) (s : ZSchedule) (cb : F) (argn : UInt32)
    (args : List P) (mem : Option Nat) : Except SchFault (EZCRTErr × SchHeap F P) := do
  let (job, w) ← zcrtSJobNew w s.thr cb mem
  match job with
  | none => pure (.noMem, w)
  | some job => do
      let (_, j) ← deref w.jobs (some job)
      let w ← zcrtSInsertJob (w.setJob job { j with argn := argn, args := args, sch := some sch })
        sch job
      pure (.success, w)

/-- `zcrt_schedule_sendjob`. -/
def zcrtScheduleSendjob (w : SchHeap F P) (h : Option Nat) (cb : Option F) (p1 p2 : P)
    (mem : Option Nat) : Except SchFault (EZCRTErr × SchHeap F P) :=
  match h, cb with
  | some sch, some cb => do
      let (_, s) ← deref w.schs (some sch)
      if s.pri = .num then pure (.paramErr, w)
      else if s.cursize ≥ s.maxsize then pure (.full, w)
      else if s.thr = none then .error .assert
      else sendNewJob w sch s cb 2 [p1, p2] mem
  | _, _ => .ok (.paramErr, w)

/-- `zcrt_schedule_sendjob_argn`; the arguments after `argn` are as many as it says. -/
def zcrtScheduleSendjobArgn (w : SchHeap F P) (h : Option Nat) (cb : Option F) (args : List P)
    (mem : Option Nat) : Except SchFault (EZCRTErr × SchHeap F P) :=
  match h, cb with
  | some sch, some cb => do
      let (_, s) ← deref w.schs (some sch)
      if s.pri = .num ∨ args.length = 0 ∨ args.length > ZCRT_CB_MAX_ARGS then pure (.paramErr, w)
      else if s.cursize ≥ s.maxsize then pure (.full, w)
      else sendNewJob w sch s cb (UInt32.ofNat args.length) args mem
  | _, _ => .ok (.paramErr, w)

end Zcrt
