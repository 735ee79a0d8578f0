/-
  The scheduler's threads side by side: senders, the worker of each thread, and deletions. Each step
  is a region under a thread's mutex or what is done between two such regions.

  * `Sender`, `Worker`: where a call of a sender and the loop of `_zcrt_schedule_thread_proc` stand.
  * `SchState`: the heap, the semaphores, all senders and workers, and what was sent and called.
  * `threadSys`: the steps.
  * `sendjob_steps`: a sender alone does what `zcrt_schedule_sendjob` does.

  A semaphore is a number of tokens; `zcrt_sem_take` takes one or times out.
-/
import Zcrt.Core.SchRun

namespace Zcrt

open Lib

variable {F P : Type}

/-! ## Sending, step by step -/

/-- A call of one of the two senders. -/
inductive SendCall (F P : Type)
  | sendjob (h : Option Nat) (cb : Option F) (p1 p2 : P)
  | sendjobArgn (h : Option Nat) (cb : Option F) (args : List P)

/-- The handle a sender was called with. -/
def SendCall.handle : SendCall F P → Option Nat
  | sendjob h _ _ _ => h
  | sendjobArgn h _ _ => h

/-- A job to be sent. -/
structure Send (F P : Type) where
  sch : Nat
  cb : F
  argn : UInt32
  args : List P

/-- What a sender does before it asks for a node: an error, or the job it goes on with. -/
def sendTests (w : SchHeap F P) : SendCall F P → Except SchFault (Except EZCRTErr (Send F P))
  | .sendjob h cb p1 p2 =>
      match h, cb with
      | some sch, some cb => do
          let (_, s) ← deref w.schs (some sch)
          if s.pri = .num then pure (.error .paramErr)
          else if s.cursize ≥ s.maxsize then pure (.error .full)
          else if s.thr = none then .error .assert
          else pure (.ok { sch := sch, cb := cb, argn := 2, args := [p1, p2] })
      | _, _ => .ok (.error .paramErr)
  | .sendjobArgn h cb args =>
      match h, cb with
      | some sch, some cb => do
          let (_, s) ← deref w.schs (some sch)
          if s.pri = .num ∨ args.length = 0 ∨ args.length > ZCRT_CB_MAX_ARGS then
            pure (.error .paramErr)
          else if s.cursize ≥ s.maxsize then pure (.error .full)
          else pure (.ok { sch := sch, cb := cb, argn := UInt32.ofNat args.length, args := args })
      | _, _ => .ok (.error .paramErr)

/-- The node it asks for. -/
def sendNode (w : SchHeap F P) (x : Send F P) (mem : Option Nat) :
    Except SchFault (Option Nat × SchHeap F P) := do
  let (_, s) ← deref w.schs (some x.sch)
  zcrtSJobNew w s.thr x.cb mem

/-- The node filled. -/
def sendFill (w : SchHeap F P) (x : Send F P) (job : Nat) : Except SchFault (SchHeap F P) := do
  let (_, j) ← deref w.jobs (some job)
  pure (w.setJob job { j with argn := x.argn, args := x.args, sch := some x.sch })

/-- The thread of a schedule, and its priority. -/
def schPlace (w : SchHeap F P) (sch : Nat) : Except SchFault (Nat × EZCRTPriority) := do
  let (_, s) ← deref w.schs (some sch)
  let (thr, _) ← deref w.thrs s.thr
  pure (thr, s.pri)

/-- The steps after the tests. -/
def sendRest (w : SchHeap F P) (x : Send F P) (mem : Option Nat) :
    Except SchFault (EZCRTErr × SchHeap F P) := do
  let (job, w) ← sendNode w x mem
  match job with
  | none => pure (.noMem, w)
  | some job => do
      let w ← sendFill w x job
      let w ← zcrtSInsertJob w x.sch job
      pure (.success, w)

/-- All steps of a sender, one after the other. -/
def sendSteps (w : SchHeap F P) (call : SendCall F P) (mem : Option Nat) :
    Except SchFault (EZCRTErr × SchHeap F P) := do
  match ← sendTests w call with
  | .error e => pure (e, w)
  | .ok x => sendRest w x mem

theorem sendNewJob_steps {w : SchHeap F P} {x : Send F P} {sc : ZSchedule} (mem : Option Nat)
    (hs : w.schs x.sch = some sc) :
    sendNewJob w x.sch sc x.cb x.argn x.args mem = sendRest w x mem := by
  have hnode : sendNode w x mem = zcrtSJobNew w sc.thr x.cb mem := by
    unfold sendNode
    rw [deref_some hs, except_ok_bind]
  unfold sendNewJob sendRest
  rw [hnode]
  cases hnew : zcrtSJobNew w sc.thr x.cb mem with
  | error e => rfl
  | ok r =>
      obtain ⟨job, w1⟩ := r
      cases job with
      | none => rfl
      | some a =>
          rw [except_ok_bind, except_ok_bind]
          dsimp only
          unfold sendFill
          cases hd : deref w1.jobs (some a) with
          | error e => rfl
          | ok r => rfl

/-- A sender that is not disturbed does what the function does. -/
theorem sendjob_steps (w : SchHeap F P) (h : Option Nat) (cb : Option F) (p1 p2 : P)
    (mem : Option Nat) :
    zcrtScheduleSendjob w h cb p1 p2 mem = sendSteps w (.sendjob h cb p1 p2) mem := by
  unfold zcrtScheduleSendjob sendSteps sendTests
  split
  · rename_i sch cb
    dsimp only
    cases hd : deref w.schs (some sch) with
    | error e => rfl
    | ok r =>
        obtain ⟨s0, sc⟩ := r
        obtain ⟨hs0, hs⟩ := deref_eq_ok hd
        obtain rfl := Option.some.inj hs0
        rw [except_ok_bind, except_ok_bind]
        dsimp only
        split
        · rfl
        · split
          · rfl
          · split
            · rfl
            · exact sendNewJob_steps (x := { sch := sch, cb := cb, argn := 2, args := [p1, p2] })
                mem hs
  · rename_i hno
    cases h with
    | none => rfl
    | some sch =>
        cases cb with
        | none => rfl
        | some cb => exact absurd rfl (hno sch cb rfl)

theorem sendjobArgn_steps (w : SchHeap F P) (h : Option Nat) (cb : Option F) (args : List P)
    (mem : Option Nat) :
    zcrtScheduleSendjobArgn w h cb args mem = sendSteps w (.sendjobArgn h cb args) mem := by
  unfold zcrtScheduleSendjobArgn sendSteps sendTests
  split
  · rename_i sch cb
    dsimp only
    cases hd : deref w.schs (some sch) with
    | error e => rfl
    | ok r =>
        obtain ⟨s0, sc⟩ := r
        obtain ⟨hs0, hs⟩ := deref_eq_ok hd
        obtain rfl := Option.some.inj hs0
        rw [except_ok_bind, except_ok_bind]
        dsimp only
        split
        · rfl
        · split
          · rfl
          · exact sendNewJob_steps
              (x := { sch := sch, cb := cb, argn := UInt32.ofNat args.length, args := args }) mem hs
  · rename_i hno
    cases h with
    | none => rfl
    | some sch =>
        cases cb with
        | none => rfl
        | some cb => exact absurd rfl (hno sch cb rfl)

/-- The tests of a sender that goes on found its schedule. -/
theorem sendTests_ok {w : SchHeap F P} {call : SendCall F P} {x : Send F P}
    (h : sendTests w call = .ok (.ok x)) :
    call.handle = some x.sch ∧ ∃ sc, w.schs x.sch = some sc ∧ sc.pri ≠ .num := by
  cases call with
  | sendjob hd cb p1 p2 =>
      cases hd with
      | none => exact nomatch h
      | some sch =>
          cases cb with
          | none => exact nomatch h
          | some cb =>
              obtain ⟨⟨s0, sc⟩, hs, h⟩ := except_bind_eq_ok h
              obtain ⟨hs0, hs⟩ := deref_eq_ok hs
              obtain rfl := Option.some.inj hs0
              dsimp only at hs h
              split at h
              · exact nomatch h
              · rename_i hp
                split at h
                · exact nomatch h
                · split at h
                  · exact nomatch h
                  · obtain rfl := Except.ok.inj (Except.ok.inj h)
                    exact ⟨rfl, sc, hs, hp⟩
  | sendjobArgn hd cb args =>
      cases hd with
      | none => exact nomatch h
      | some sch =>
          cases cb with
          | none => exact nomatch h
          | some cb =>
              obtain ⟨⟨s0, sc⟩, hs, h⟩ := except_bind_eq_ok h
              obtain ⟨hs0, hs⟩ := deref_eq_ok hs
              obtain rfl := Option.some.inj hs0
              dsimp only at hs h
              split at h
              · exact nomatch h
              · rename_i hp
                split at h
                · exact nomatch h
                · obtain rfl := Except.ok.inj (Except.ok.inj h)
                  exact ⟨rfl, sc, hs, fun he => hp (Or.inl he)⟩

/-! ## The state -/

/-- Where a call of a sender stands: not begun, tests passed, node got, node filled, or job inserted
    and the semaphore still to be given. -/
inductive Sender (F P : Type)
  | idle
  | begun (x : Send F P)
  | node (x : Send F P) (job : Nat)
  | filled (x : Send F P) (job : Nat)
  | give (sch thr : Nat)

/-- The job a sender is still to insert. -/
def Sender.sending : Sender F P → Option (Send F P)
  | begun x => some x
  | node x _ => some x
  | filled x _ => some x
  | _ => none

/-- The sender was called with schedule `s` and has not returned. -/
def Sender.Uses (s : Nat) : Sender F P → Prop
  | give sch _ => sch = s
  | pc => ∃ x, pc.sending = some x ∧ x.sch = s

theorem Sender.uses_of_sending {pc : Sender F P} {x : Send F P} (h : pc.sending = some x) :
    pc.Uses x.sch := by
  cases pc with
  | idle => exact nomatch h
  | give sch thr => exact nomatch h
  | begun y => exact ⟨x, h, rfl⟩
  | node y a => exact ⟨x, h, rfl⟩
  | filled y a => exact ⟨x, h, rfl⟩

/-- Where the loop of `_zcrt_schedule_thread_proc` stands: before its test, in `zcrt_sem_take`,
    before the mutex, with a callback copied out but not called, in the callback, or at its end.
    `sch` is the schedule the job was sent to, and `late` that this was deleted since. -/
inductive Worker (F P : Type)
  | head
  | wait
  | scan
  | call (fn : F) (args : List P) (sch : Option Nat) (late : Bool)
  | running
  | exited

/-- A callback copied out is late from now on if its job was sent to `s`. -/
def Worker.mark (s : Nat) : Worker F P → Worker F P
  | .call fn args sch late => .call fn args sch (late || sch == some s)
  | pc => pc

/-- The threads and what they share. `dying` are the schedules whose deletion is past its region.
    The last four record what happened: `late`, the jobs whose schedule was deleted; `inserted`, the
    jobs that came into each queue; `taken`, those a worker took; `calls`, the callbacks started. -/
structure SchState (F P : Type) where
  heap : SchHeap F P
  sem : Nat → Nat
  snd : Nat → Sender F P
  wrk : Nat → Worker F P
  dying : Nat → Bool
  late : Nat → Bool
  inserted : Nat → EZCRTPriority → List (Option F × List P)
  taken : Nat → List (EZCRTPriority × Option F × List P)
  calls : Nat → List (F × List P × Bool)

namespace SchState

def setHeap (st : SchState F P) (w : SchHeap F P) : SchState F P := { st with heap := w }

def setSnd (st : SchState F P) (i : Nat) (pc : Sender F P) : SchState F P :=
  { st with snd := Function.update st.snd i pc }

def setWrk (st : SchState F P) (t : Nat) (pc : Worker F P) : SchState F P :=
  { st with wrk := Function.update st.wrk t pc }

end SchState

/-! ## The steps -/

/-- A step: a creation, a step of sender `i`, of the worker of thread `t`, or of a deletion. `stop`
    is what `zcrt_thread_should_stop` returned. -/
inductive SchAct (F P : Type)
  | create (type : EZCRTSchType) (pri : EZCRTPriority) (maxsize : UInt16) (mem memThr : Option Nat)
  | createShare (sch1 : Option Nat) (pri : EZCRTPriority) (maxsize : UInt16) (mem : Option Nat)
  | start (i : Nat) (call : SendCall F P)
  | getNode (i : Nat) (mem : Option Nat)
  | fill (i : Nat)
  | insert (i : Nat)
  | give (i : Nat)
  | check (t : Nat) (stop : Bool)
  | token (t : Nat)
  | timeout (t : Nat)
  | remove (t : Nat)
  | call (t : Nat)
  | back (t : Nat)
  | delRegion (s fuel : Nat)
  | delEnd (s : Nat)

namespace SchState

variable (st : SchState F P)

/-- A creation, as in `schSys`. -/
def creation (op : SchOp F P) : Option (SchState F P) :=
  (schSys.next st.heap op).map st.setHeap

def startStep (i : Nat) (call : SendCall F P) : Option (SchState F P) :=
  match st.snd i, sendTests st.heap call with
  | .idle, .ok (.ok x) => some (st.setSnd i (.begun x))
  | .idle, .ok (.error _) => some st
  | _, _ => none

def getNodeStep (i : Nat) (mem : Option Nat) : Option (SchState F P) :=
  match st.snd i with
  | .begun x =>
      if SchOp.fresh st.heap.jobs mem then
        match sendNode st.heap x mem with
        | .ok (some job, w) => some ((st.setHeap w).setSnd i (.node x job))
        | .ok (none, w) => some ((st.setHeap w).setSnd i .idle)
        | .error _ => none
      else none
  | _ => none

def fillStep (i : Nat) : Option (SchState F P) :=
  match st.snd i with
  | .node x job =>
      match sendFill st.heap x job with
      | .ok w => some { (st.setHeap w).setSnd i (.filled x job) with
          late := Function.update st.late job false }
      | .error _ => none
  | _ => none

def insertStep (i : Nat) : Option (SchState F P) :=
  match st.snd i with
  | .filled x job =>
      match schPlace st.heap x.sch, zcrtSInsertJob st.heap x.sch job with
      | .ok (thr, pri), .ok w => some { (st.setHeap w).setSnd i (.give x.sch thr) with
          inserted := Function.update st.inserted thr (Function.update (st.inserted thr) pri
            (st.inserted thr pri ++ [(some x.cb, x.args)])) }
      | _, _ => none
  | _ => none

def giveStep (i : Nat) : Option (SchState F P) :=
  match st.snd i with
  | .give _ thr => some { st.setSnd i .idle with
      sem := Function.update st.sem thr (st.sem thr + 1) }
  | _ => none

def checkStep (t : Nat) (stop : Bool) : Option (SchState F P) :=
  match st.wrk t, st.heap.thrs t with
  | .head, some thr => some (st.setWrk t (if thr.run ∧ ¬stop then .wait else .exited))
  | _, _ => none

def tokenStep (t : Nat) : Option (SchState F P) :=
  match st.wrk t, st.sem t with
  | .wait, n + 1 => some { st.setWrk t .scan with sem := Function.update st.sem t n }
  | _, _ => none

def timeoutStep (t : Nat) : Option (SchState F P) :=
  match st.wrk t with
  | .wait => some (st.setWrk t .scan)
  | _ => none

/-- The priority of a job's schedule. -/
def levelOf (w : SchHeap F P) (j : ScheduleJob F P) : EZCRTPriority :=
  ((j.sch.bind w.schs).map ZSchedule.pri).getD .num

def removeStep (t : Nat) : Option (SchState F P) :=
  match st.wrk t with
  | .scan =>
      match zcrtScheduleThreadProc st.heap t with
      | .ok (none, w) => some ((st.setHeap w).setWrk t .head)
      | .ok (some (job, j), w) =>
          let pc := match j.fn with
            | some fn => .call fn j.args j.sch (st.late job)
            | none => .scan
          some { (st.setHeap w).setWrk t pc with
            taken := Function.update st.taken t
              (st.taken t ++ [(levelOf st.heap j, j.fn, j.args)]) }
      | .error _ => none
  | _ => none

def callStep (t : Nat) : Option (SchState F P) :=
  match st.wrk t with
  | .call fn args _ late => some { st.setWrk t .running with
      calls := Function.update st.calls t (st.calls t ++ [(fn, args, late)]) }
  | _ => none

def backStep (t : Nat) : Option (SchState F P) :=
  match st.wrk t with
  | .running => some (st.setWrk t .scan)
  | _ => none

def delRegionStep (s fuel : Nat) : Option (SchState F P) :=
  if st.dying s then none
  else match deleteRegion st.heap s fuel with
    | .ok w => some { st.setHeap w with dying := Function.update st.dying s true }
    | .error _ => none

def delEndStep (s : Nat) : Option (SchState F P) :=
  if st.dying s then
    match deleteEnd st.heap s with
    | .ok w => some { st.setHeap w with
        dying := Function.update st.dying s false
        late := fun a => if st.heap.owner a = some s then true else st.late a
        wrk := fun t => Worker.mark s (st.wrk t) }
    | .error _ => none
  else none

def step : SchAct F P → Option (SchState F P)
  | .create type pri maxsize mem memThr => st.creation (.create type pri maxsize mem memThr)
  | .createShare sch1 pri maxsize mem => st.creation (.createShare sch1 pri maxsize mem)
  | .start i call => st.startStep i call
  | .getNode i mem => st.getNodeStep i mem
  | .fill i => st.fillStep i
  | .insert i => st.insertStep i
  | .give i => st.giveStep i
  | .check t stop => st.checkStep t stop
  | .token t => st.tokenStep t
  | .timeout t => st.timeoutStep t
  | .remove t => st.removeStep t
  | .call t => st.callStep t
  | .back t => st.backStep t
  | .delRegion s fuel => st.delRegionStep s fuel
  | .delEnd s => st.delEndStep s

end SchState

/-- The threads of a module: first its own alone, nobody sending. -/
def threadSys : Sys (SchState F P) (SchAct F P) where
  init st := schSys.init st.heap ∧
    st = { heap := st.heap, sem := fun _ => 0, snd := fun _ => .idle, wrk := fun _ => .head,
           dying := fun _ => false, late := fun _ => false, inserted := fun _ _ => [],
           taken := fun _ => [], calls := fun _ => [] }
  next st act := st.step act

/-- A step at which no sender uses a schedule while it is deleted. -/
def Quiet (st : SchState F P) : SchAct F P → Prop
  | .start _ call => ∀ s, call.handle = some s → st.dying s = false
  | .delRegion s _ => ∀ i, ¬(st.snd i).Uses s
  | _ => True

/-- A step that is not one of a deletion. -/
def NoDelete (_ : SchState F P) : SchAct F P → Prop
  | .delRegion _ _ => False
  | _ => True

def SchAct.isDelete : SchAct F P → Bool
  | .delRegion _ _ => true
  | _ => false

theorem noDelete_sound (st : SchState F P) (act : SchAct F P) (h : (!act.isDelete) = true) :
    NoDelete st act := by
  cases act with
  | delRegion s fuel => exact nomatch h
  | _ => trivial

/-! ## Runs of few senders and workers -/

/-- The schedule a sender is to insert a job for, or inserted one for. -/
def Sender.handle : Sender F P → Option Nat
  | .give sch _ => some sch
  | pc => pc.sending.map Send.sch

theorem Sender.handle_of_uses {pc : Sender F P} {s : Nat} (h : pc.Uses s) :
    pc.handle = some s := by
  cases pc with
  | give sch thr => exact congrArg some h
  | _ =>
      obtain ⟨x, hx, rfl⟩ := h
      exact congrArg (Option.map Send.sch) hx

/-- The schedule of the callback a worker holds. -/
def Worker.holds : Worker F P → Option Nat
  | .call _ _ sch _ => sch
  | _ => none

/-- A step that begins, if anything, one of the first `n` senders or workers. -/
def Few (n : Nat) : SchAct F P → Prop
  | .start i _ => i < n
  | .check t _ => t < n
  | _ => True

/-- The other senders are idle and the other workers before their first test. -/
def FewBusy (n : Nat) (st : SchState F P) : Prop :=
  ∀ i, n ≤ i → st.snd i = .idle ∧ st.wrk i = .head

theorem FewBusy.snd_step {n : Nat} {st : SchState F P} (h : FewBusy n st) {i : Nat}
    {pc : Sender F P} (hi : i < n ∨ st.snd i ≠ .idle) : ∀ j, n ≤ j →
      Function.update st.snd i pc j = .idle := by
  intro j hj
  rw [Function.update_of_ne]
  · exact (h j hj).1
  · rintro rfl
    exact hi.elim (fun hlt => by omega) fun hne => hne (h j hj).1

theorem FewBusy.wrk_step {n : Nat} {st : SchState F P} (h : FewBusy n st) {t : Nat}
    {pc : Worker F P} (ht : t < n ∨ st.wrk t ≠ .head) : ∀ j, n ≤ j →
      Function.update st.wrk t pc j = .head := by
  intro j hj
  rw [Function.update_of_ne]
  · exact (h j hj).2
  · rintro rfl
    exact ht.elim (fun hlt => by omega) fun hne => hne (h j hj).2

theorem FewBusy.step {n : Nat} {st st' : SchState F P} (h : FewBusy n st) {act : SchAct F P}
    (hact : Few n act) (hs : st.step act = some st') : FewBusy n st' := by
  have hsnd : ∀ {i : Nat} (pc : Sender F P), i < n ∨ st.snd i ≠ .idle → ∀ j, n ≤ j →
      Function.update st.snd i pc j = .idle ∧ st.wrk j = .head :=
    fun pc hi j hj => ⟨h.snd_step hi j hj, (h j hj).2⟩
  have hwrk : ∀ {t : Nat} (pc : Worker F P), t < n ∨ st.wrk t ≠ .head → ∀ j, n ≤ j →
      st.snd j = .idle ∧ Function.update st.wrk t pc j = .head :=
    fun pc ht j hj => ⟨(h j hj).1, h.wrk_step ht j hj⟩
  cases act with
  | create type pri maxsize mem memThr =>
      obtain ⟨w, -, rfl⟩ := Option.map_eq_some_iff.mp hs
      exact h
  | createShare sch1 pri maxsize mem =>
      obtain ⟨w, -, rfl⟩ := Option.map_eq_some_iff.mp hs
      exact h
  | start i call =>
      simp only [SchState.step, SchState.startStep] at hs
      split at hs
      · obtain rfl := Option.some.inj hs
        exact hsnd _ (Or.inl hact)
      · obtain rfl := Option.some.inj hs
        exact h
      · exact nomatch hs
  | getNode i mem =>
      simp only [SchState.step, SchState.getNodeStep] at hs
      split at hs
      · rename_i hi
        have hi : st.snd i ≠ .idle := by rw [hi]; simp
        split at hs
        · split at hs
          · obtain rfl := Option.some.inj hs
            exact hsnd _ (Or.inr hi)
          · obtain rfl := Option.some.inj hs
            exact hsnd _ (Or.inr hi)
          · exact nomatch hs
        · exact nomatch hs
      · exact nomatch hs
  | fill i =>
      simp only [SchState.step, SchState.fillStep] at hs
      split at hs
      · rename_i hi
        have hi : st.snd i ≠ .idle := by rw [hi]; simp
        split at hs
        · obtain rfl := Option.some.inj hs
          exact hsnd _ (Or.inr hi)
        · exact nomatch hs
      · exact nomatch hs
  | insert i =>
      simp only [SchState.step, SchState.insertStep] at hs
      split at hs
      · rename_i hi
        have hi : st.snd i ≠ .idle := by rw [hi]; simp
        split at hs
        · obtain rfl := Option.some.inj hs
          exact hsnd _ (Or.inr hi)
        · exact nomatch hs
      · exact nomatch hs
  | give i =>
      simp only [SchState.step, SchState.giveStep] at hs
      split at hs
      · rename_i hi
        have hi : st.snd i ≠ .idle := by rw [hi]; simp
        obtain rfl := Option.some.inj hs
        exact hsnd _ (Or.inr hi)
      · exact nomatch hs
  | check t stop =>
      simp only [SchState.step, SchState.checkStep] at hs
      split at hs
      · obtain rfl := Option.some.inj hs
        exact hwrk _ (Or.inl hact)
      · exact nomatch hs
  | token t =>
      simp only [SchState.step, SchState.tokenStep] at hs
      split at hs
      · rename_i ht _
        obtain rfl := Option.some.inj hs
        exact hwrk _ (Or.inr (by rw [ht]; simp))
      · exact nomatch hs
  | timeout t =>
      simp only [SchState.step, SchState.timeoutStep] at hs
      split at hs
      · rename_i ht
        obtain rfl := Option.some.inj hs
        exact hwrk _ (Or.inr (by rw [ht]; simp))
      · exact nomatch hs
  | remove t =>
      simp only [SchState.step, SchState.removeStep] at hs
      split at hs
      · rename_i ht
        have ht : st.wrk t ≠ .head := by rw [ht]; simp
        split at hs
        · obtain rfl := Option.some.inj hs
          exact hwrk _ (Or.inr ht)
        · obtain rfl := Option.some.inj hs
          exact hwrk _ (Or.inr ht)
        · exact nomatch hs
      · exact nomatch hs
  | call t =>
      simp only [SchState.step, SchState.callStep] at hs
      split at hs
      · rename_i ht
        obtain rfl := Option.some.inj hs
        exact hwrk _ (Or.inr (by rw [ht]; simp))
      · exact nomatch hs
  | back t =>
      simp only [SchState.step, SchState.backStep] at hs
      split at hs
      · rename_i ht
        obtain rfl := Option.some.inj hs
        exact hwrk _ (Or.inr (by rw [ht]; simp))
      · exact nomatch hs
  | delRegion s fuel =>
      simp only [SchState.step, SchState.delRegionStep] at hs
      split at hs
      · exact nomatch hs
      · split at hs
        · obtain rfl := Option.some.inj hs
          exact h
        · exact nomatch hs
  | delEnd s =>
      simp only [SchState.step, SchState.delEndStep] at hs
      split at hs
      · split at hs
        · obtain rfl := Option.some.inj hs
          intro j hj
          refine ⟨(h j hj).1, ?_⟩
          change Worker.mark s (st.wrk j) = .head
          rw [(h j hj).2]
          rfl
        · exact nomatch hs
      · exact nomatch hs

theorem fewBusy_of_reach {n : Nat} {C : SchState F P → SchAct F P → Prop}
    (hC : ∀ st act, C st act → Few n act) {st : SchState F P} (h : threadSys.Reach C st) :
    FewBusy n st := by
  refine h.invariant (fun st hst => ?_) fun st act st' hbusy hc hn => hbusy.step (hC st act hc) hn
  rw [hst.2]
  exact fun _ _ => ⟨rfl, rfl⟩

/-- A run of a few, each of whose steps is found to satisfy `C`. -/
theorem reach_of_few {n : Nat} {C : SchState F P → SchAct F P → Prop}
    {c : SchState F P → SchAct F P → Bool}
    (hC : ∀ st act, FewBusy n st → c st act = true → C st act ∧ Few n act) {st : SchState F P}
    (hinit : threadSys.init st) (acts : List (SchAct F P)) {p : SchState F P → Bool}
    (hr : (threadSys.run c st acts).map p = some true) :
    ∃ st', threadSys.Reach C st' ∧ FewBusy n st' ∧ p st' = true := by
  have hreach : threadSys.Reach (fun st act => C st act ∧ Few n act) st := Sys.Reach.init hinit
  have hbusy : ∀ st, threadSys.Reach (fun st act => C st act ∧ Few n act) st → FewBusy n st :=
    fun _ => fewBusy_of_reach fun _ _ hc => hc.2
  obtain ⟨st', hst, hp⟩ := Sys.reach_of_run_inv hbusy hC hreach acts hr
  exact ⟨st', hst.mono fun _ _ hc => hc.1, hbusy st' hst, hp⟩

/-- `Quiet` and `Few`, checked. -/
def quietCheck (n : Nat) (st : SchState F P) : SchAct F P → Bool
  | .start i call => decide (i < n) && call.handle.all fun s => !st.dying s
  | .check t _ => decide (t < n)
  | .delRegion s _ => (List.range n).all fun i => (st.snd i).handle != some s
  | _ => true

theorem quiet_of_check {n : Nat} {st : SchState F P} (hbusy : FewBusy n st) {act : SchAct F P}
    (h : quietCheck n st act = true) : Quiet st act ∧ Few n act := by
  cases act with
  | start i call =>
      obtain ⟨hi, hcall⟩ := Bool.and_eq_true_iff.mp h
      refine ⟨fun s hs => ?_, show i < n from of_decide_eq_true hi⟩
      rw [hs] at hcall
      exact Bool.not_eq_true' _ ▸ hcall
  | check t stop => exact ⟨trivial, show t < n from of_decide_eq_true h⟩
  | delRegion s fuel =>
      refine ⟨fun i hu => ?_, trivial⟩
      have hhandle := Sender.handle_of_uses hu
      by_cases hi : i < n
      · have := List.all_eq_true.mp h i (List.mem_range.mpr hi)
        rw [hhandle] at this
        simp at this
      · rw [(hbusy i (by omega)).1] at hhandle
        exact nomatch hhandle
  | _ => exact ⟨trivial, trivial⟩

end Zcrt
