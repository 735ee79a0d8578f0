/-
  `zipc_server_delete` of the netlink server: it takes out one subscription for each event id, that
  of the process which sent the last packet.

  * `TearState`, `tearSys`: packets, their jobs, calls of the module's own code, and the steps of
    the deletion.
  * `LastPidOnly`: the deletion starts with at most one subscription for each event, made for the
    pid of the last packet, and no packet or job comes later.
  * `subsGone_of_lastPidOnly`: then none is left.
  * `twoPids_left`: of two processes that hooked an event one stays.
-/
import Zcrt.Ipc.CbSubs
import Zcrt.Server.Kernal

namespace Zcrt

namespace Kernal

open Lib

/-- Where `zipc_server_delete` is: not called, before the removal for event `i`, or back. -/
inductive DeletePos
  | serving
  | clearing (i : UInt32)
  | deleted
deriving DecidableEq

/-- The buffers, the event manager, `s_pid`, the jobs of `sch`, and where the deletion is. -/
structure TearState (G P : Type) where
  pool : BufPool
  mng : ZEvent G P
  sPid : UInt32
  sch : List MsgJob
  pos : DeletePos

/-- `kipc` is what `nl_data_recv` found in `s_kipc`, which may be before it was cleared. -/
inductive TearAct (G P : Type)
  | recv (kipc : Bool) (skb : SkBuff) (full : Bool)
  | proc (heap full : Bool)
  | call (op : EvtOp G P)
  | delete
  | unregister
  | done

section Steps

variable {F E G P : Type} [DecidableEq G] [DecidableEq P]
  (call : F → ZIPCComp F → ZBuf → ZBuf → Option (EZCRTErr × ZBuf × ZBuf)) (module : ZIPCModule F E)
  (cb : G) (ipc : P) (ptr : UInt32 → P)

namespace TearState

variable (st : TearState G P)

/-- A packet. -/
def recvStep (kipc : Bool) (skb : SkBuff) (full : Bool) : Option (TearState G P) := do
  let res ← nlDataRecv kipc st.pool st.sPid skb full
  pure { st with pool := res.pool, sPid := res.sPid, sch := st.sch ++ res.job.toList }

/-- The next job of `sch`, which is there until the server is deleted. -/
def procStep (heap full : Bool) : Option (TearState G P) :=
  match st.pos, st.sch with
  | .deleted, _ => none
  | _, [] => none
  | _, job :: sch => do
      let res ← zipcMsgProcJob call module cb ipc ptr st.pool (some st.mng) heap job full
      let mng ← res.evtMng
      pure { st with pool := res.pool, mng := mng, sch := sch }

/-- A call of the module's own code, which does not have the callback. -/
def callStep (op : EvtOp G P) : Option (TearState G P) :=
  if op.registers cb then none
  else do
    let some mng ← op.execList (some (kernalMng st.mng)) | none
    pure { st with mng := mng }

/-- `s_kipc=NULL` -/
def deleteStep : Option (TearState G P) :=
  if st.pos = .serving then some { st with pos := .clearing 1 } else none

/-- The body of the loop. -/
def unregisterStep : Option (TearState G P) :=
  match st.pos with
  | .clearing i =>
      if i < ZCRT_MAX_EVT then do
        let some mng ← zcrtEventUnregister (some (kernalMng st.mng)) i (some cb) ipc (ptr st.sPid)
          | none
        pure { st with mng := mng, pos := .clearing (i + 1) }
      else none
  | _ => none

/-- What comes after the loop. -/
def doneStep : Option (TearState G P) :=
  match st.pos with
  | .clearing i => if i < ZCRT_MAX_EVT then none else some { st with sch := [], pos := .deleted }
  | _ => none

def step : TearAct G P → Option (TearState G P)
  | .recv kipc skb full => st.recvStep kipc skb full
  | .proc heap full => st.procStep call module cb ipc ptr heap full
  | .call op => st.callStep cb op
  | .delete => st.deleteStep
  | .unregister => st.unregisterStep cb ipc ptr
  | .done => st.doneStep

end TearState

/-- The server has been created and no packet has come yet. -/
def tearSys : Sys (TearState G P) (TearAct G P) where
  init st := (∀ e, ∀ x ∈ st.mng.evtlist e, x.fn ≠ some cb) ∧ st.sch = [] ∧ st.pos = .serving
  next st act := st.step call module cb ipc ptr act

/-- The deletion starts with at most one subscription of the server for each event, made for the pid
    of the last packet; packets and jobs come before that. -/
def LastPidOnly (st : TearState G P) : TearAct G P → Prop
  | .delete => ∀ e, Removable (ptr st.sPid) (cbSubs cb ipc (st.mng.evtlist e))
  | .recv kipc _ _ => kipc = true → st.pos = .serving
  | .proc .. => st.pos = .serving
  | _ => True

/-! ## One step -/

variable {call module cb ipc ptr} {st st' : TearState G P}

/-- What a job does to the lists. -/
theorem zipcMsgProcJob_op {pool : BufPool} {mng : ZEvent G P} {heap full : Bool} {job : MsgJob}
    {res : MsgProc G P}
    (h : zipcMsgProcJob call module cb ipc ptr pool (some mng) heap job full = some res) :
    ∃ (mng' : ZEvent G P) (op : LinkOp), res.evtMng = some mng' ∧ op.Valid ∧
      ∀ e, mng'.evtlist e = op.on cb ipc (ptr job.pid) e (mng.evtlist e) := by
  obtain ⟨v, hclear⟩ := pool.malloc_cleared
  unfold zipcMsgProcJob at h
  dsimp only at h
  obtain ⟨⟨iv, ov, evtMng'⟩, hparse, h⟩ := Option.bind_eq_some_iff.mp h
  have hres : res.evtMng = evtMng' := by
    dsimp only at h
    split at h
    · split at h
      · exact Option.some.inj h ▸ rfl
      · exact Option.some.inj h ▸ rfl
    · exact Option.some.inj h ▸ rfl
  rw [hres]
  rw [hclear] at hparse
  obtain ⟨mng', op, he, hop, hdoes, -⟩ := appParse_op hparse
  exact ⟨mng', op, he, hop, hdoes.2⟩

omit [DecidableEq G] [DecidableEq P] in
theorem TearState.recv_cases {kipc : Bool} {skb : SkBuff} {full : Bool}
    (h : st.recvStep kipc skb full = some st') :
    st'.mng = st.mng ∧ st'.pos = st.pos ∧ (kipc = false → st'.sPid = st.sPid) := by
  unfold recvStep at h
  obtain ⟨res, hrecv, h⟩ := Option.bind_eq_some_iff.mp h
  obtain rfl := Option.some.inj h
  refine ⟨rfl, rfl, fun hk => ?_⟩
  subst hk
  obtain rfl := Option.some.inj hrecv
  rfl

theorem TearState.proc_cases {heap full : Bool}
    (h : st.procStep call module cb ipc ptr heap full = some st') :
    ∃ (mng' : ZEvent G P) (op : LinkOp) (pid : UInt32), op.Valid ∧
      (∀ e, mng'.evtlist e = op.on cb ipc (ptr pid) e (st.mng.evtlist e)) ∧
      st'.mng = mng' ∧ st'.pos = st.pos := by
  unfold procStep at h
  split at h
  · exact nomatch h
  · exact nomatch h
  · rename_i job sch _ _
    obtain ⟨res, hjob, h⟩ := Option.bind_eq_some_iff.mp h
    obtain ⟨mng, hmng, h⟩ := Option.bind_eq_some_iff.mp h
    obtain ⟨mng', op, he, hop, hlists⟩ := zipcMsgProcJob_op hjob
    obtain rfl := Option.some.inj (hmng.symm.trans he)
    obtain rfl := Option.some.inj h
    exact ⟨mng, op, job.pid, hop, hlists, rfl, rfl⟩

theorem TearState.call_cases {op : EvtOp G P} (h : st.callStep cb op = some st') :
    ∃ mng', NoNew cb ipc st.mng mng' ∧ st' = { st with mng := mng' } := by
  unfold callStep at h
  split at h
  · exact nomatch h
  · rename_i hop
    obtain ⟨evtMng', hexec, h⟩ := Option.bind_eq_some_iff.mp h
    obtain ⟨mng', rfl, -, hno⟩ := execList_noNew (c := ipc) (Bool.eq_false_iff.mpr hop) hexec
    exact ⟨mng', hno, (Option.some.inj h).symm⟩

theorem TearState.loop_cases (h : st.unregisterStep cb ipc ptr = some st') :
    ∃ i mng', st.pos = .clearing i ∧ i < ZCRT_MAX_EVT ∧
      zcrtEventUnregister (some (kernalMng st.mng)) i (some cb) ipc (ptr st.sPid) =
        some (some mng') ∧
      st' = { st with mng := mng', pos := .clearing (i + 1) } := by
  unfold unregisterStep at h
  split at h
  · rename_i i hpos
    split at h
    · rename_i hi
      obtain ⟨evtMng', hun, h⟩ := Option.bind_eq_some_iff.mp h
      obtain ⟨mng', rfl, -, -⟩ := unregister_cases hun
      exact ⟨i, mng', hpos, hi, hun, (Option.some.inj h).symm⟩
    · exact nomatch h
  · exact nomatch h

omit [DecidableEq G] [DecidableEq P] in
theorem TearState.done_cases (h : st.doneStep = some st') :
    ∃ i, st.pos = .clearing i ∧ ¬i < ZCRT_MAX_EVT ∧
      st' = { st with sch := [], pos := .deleted } := by
  unfold doneStep at h
  split at h
  · rename_i i hpos
    split at h
    · exact nomatch h
    · rename_i hi
      exact ⟨i, hpos, hi, (Option.some.inj h).symm⟩
  · exact nomatch h

end Steps

/-! ## The deletion -/

section Run

variable {F E G P : Type} [DecidableEq G] [DecidableEq P]
  {call : F → ZIPCComp F → ZBuf → ZBuf → Option (EZCRTErr × ZBuf × ZBuf)} {module : ZIPCModule F E}
  {cb : G} {ipc : P} {ptr : UInt32 → P} {st st' : TearState G P} {act : TearAct G P}

/-- The subscriptions of the server while the deletion is at `pos`. -/
def TearAt (cb : G) (ipc p2 : P) (mng : ZEvent G P) : DeletePos → Prop
  | .serving => ∀ e, ∀ x ∈ cbSubs cb ipc (mng.evtlist e), e ≠ 0 ∧ e < ZCRT_MAX_EVT
  | .clearing i => Clearing cb ipc p2 i mng
  | .deleted => ∀ e, cbSubs cb ipc (mng.evtlist e) = []

theorem TearAt.noNew {p2 : P} {mng mng' : ZEvent G P} {pos : DeletePos}
    (h : TearAt cb ipc p2 mng pos) (hn : NoNew cb ipc mng mng') : TearAt cb ipc p2 mng' pos := by
  cases pos with
  | serving => exact fun e x hx => h e x ((hn e).subset hx)
  | clearing i => exact Clearing.noNew h hn
  | deleted => exact fun e => List.sublist_nil.mp (h e ▸ hn e)

theorem tearAt_step (h : TearAt cb ipc (ptr st.sPid) st.mng st.pos)
    (hc : LastPidOnly cb ipc ptr st act) (hn : st.step call module cb ipc ptr act = some st') :
    TearAt cb ipc (ptr st'.sPid) st'.mng st'.pos := by
  cases act with
  | recv kipc skb full =>
      obtain ⟨hmng, hpos, hpid⟩ := TearState.recv_cases hn
      rw [hmng, hpos]
      cases kipc with
      | false =>
          rw [hpid rfl]
          exact h
      | true =>
          -- a packet may change `s_pid`, of which nothing depends yet
          rw [hc rfl] at h ⊢
          exact h
  | proc heap full =>
      obtain ⟨mng', op, pid, hop, hlists, hmng, hpos⟩ := TearState.proc_cases hn
      rw [hc] at h
      rw [hmng, hpos, hc]
      intro e x hx
      rcases op.mem_on_cbSubs (hlists e ▸ hx) with hx | ⟨rfl, -, -⟩
      · exact h e x hx
      · exact hop
  | call op =>
      obtain ⟨mng', hno, rfl⟩ := TearState.call_cases hn
      exact h.noNew hno
  | delete =>
      unfold TearState.step TearState.deleteStep at hn
      dsimp only at hn
      split at hn
      · rename_i hpos
        obtain rfl := Option.some.inj hn
        rw [hpos] at h
        refine fun e => ⟨hc e, fun hout => ?_⟩
        refine List.eq_nil_iff_forall_not_mem.mpr fun x hx => hout ?_
        obtain ⟨hzero, hlt⟩ := h e x hx
        exact ⟨one_le_of_ne_zero hzero, hlt⟩
      · exact nomatch hn
  | unregister =>
      obtain ⟨i, mng', hpos, hi, hun, rfl⟩ := TearState.loop_cases hn
      rw [hpos] at h
      have h : Clearing cb ipc (ptr st.sPid) i (kernalMng st.mng) := h
      obtain ⟨mng1, he, -, hclear⟩ := clearing_unregister h hi hun
      exact Option.some.inj he ▸ hclear
  | done =>
      obtain ⟨i, hpos, hi, rfl⟩ := TearState.done_cases hn
      rw [hpos] at h
      exact fun e => Clearing.all h hi e

theorem tearAt_of_reach (h : (tearSys call module cb ipc ptr).Reach (LastPidOnly cb ipc ptr) st) :
    TearAt cb ipc (ptr st.sPid) st.mng st.pos := by
  refine h.invariant (I := fun st => TearAt cb ipc (ptr st.sPid) st.mng st.pos) (fun st hinit => ?_)
    fun st act st' hinv hc hn => tearAt_step hinv hc hn
  obtain ⟨hno, -, hpos⟩ := hinit
  rw [hpos]
  intro e x hx
  exact absurd (mem_cbSubs.mp hx).2.1 (hno e x (mem_cbSubs.mp hx).1)

/-- A server whose deletion finds at most one of its subscriptions for each event, made for the pid
    of the last packet, with no packet or job to come, leaves none behind. -/
theorem subsGone_of_lastPidOnly
    (h : (tearSys call module cb ipc ptr).Reach (LastPidOnly cb ipc ptr) st)
    (hdeleted : st.pos = .deleted) :
    ∀ e, ∀ x ∈ st.mng.evtlist e, ¬(x.fn = some cb ∧ x.p1 = ipc) := by
  have hinv := tearAt_of_reach h
  rw [hdeleted] at hinv
  exact fun e => cbSubs_eq_nil.mp (hinv e)

end Run

/-! ## Processes that hook an event -/

/-- A packet of the process `pid` that hooks event 7. -/
def hookPacket (pid : UInt32) : SkBuff :=
  { len := 28 + hookSeven.len, nlmsgLen := 26 + hookSeven.len, nlmsgPid := pid
    data := fun i =>
      (zipcHdrBytes ZEIPC_TYPE_LINK hookSeven.len ++ hookSeven.bytes).getD i 0 }

def noPackets : TearState Unit Nat :=
  { pool := noBuffers, mng := zcrtEventManageInit, sPid := 0, sch := [], pos := .serving }

abbrev byteSys : Sys (TearState Unit Nat) (TearAct Unit Nat) :=
  tearSys nilHandler byteModule () 0 UInt32.toNat

theorem noPackets_init : byteSys.init noPackets :=
  ⟨fun _ _ hx => absurd hx List.not_mem_nil, rfl, rfl⟩

/-- The loop and what comes after it. -/
def deleteLoop : List (TearAct Unit Nat) := List.replicate 255 .unregister ++ [.done]

/-- The steps before the deletion, and those of its loop. -/
def beforeDelete (st : TearState Unit Nat) : TearAct Unit Nat → Bool
  | .recv .. => st.pos = .serving
  | .proc .. => st.pos = .serving
  | _ => false

def inLoop (_ : TearState Unit Nat) : TearAct Unit Nat → Bool
  | .unregister => true
  | .done => true
  | _ => false

/-- The deletion may start, and comes to its end. -/
def DeletesAt (st : TearState Unit Nat) : Prop :=
  st.pos = .serving ∧
    (∀ e ∈ List.range 256, (cbSubs () 0 (st.mng.evtlist (UInt32.ofNat e))).length ≤ 1 ∧
      ∀ x ∈ cbSubs () 0 (st.mng.evtlist (UInt32.ofNat e)), x.p2 = st.sPid.toNat) ∧
    (byteSys.run inLoop { st with pos := .clearing 1 } deleteLoop).map
      (fun st => decide (st.pos = .deleted)) = some true

instance (st : TearState Unit Nat) : Decidable (DeletesAt st) :=
  inferInstanceAs (Decidable (_ ∧ _ ∧ _))

/-- One process, which hooks event 7 once. -/
theorem subsGone_of_lastPidOnly_one : ∃ st,
    byteSys.Reach (LastPidOnly () 0 UInt32.toNat) st ∧ st.pos = .deleted ∧
    ∀ e, ∀ x ∈ st.mng.evtlist e, ¬(x.fn = some () ∧ x.p1 = 0) := by
  have hserving : ∀ st act, beforeDelete st act = true → LastPidOnly () 0 UInt32.toNat st act := by
    intro st act hact
    cases act with
    | recv kipc skb full =>
        have hpos : st.pos = .serving := of_decide_eq_true hact
        exact fun _ => hpos
    | proc heap full =>
        have hpos : st.pos = .serving := of_decide_eq_true hact
        exact hpos
    | _ => exact nomatch hact
  have hloop : ∀ st act, inLoop st act = true → LastPidOnly () 0 UInt32.toNat st act := by
    intro st act hact
    cases act with
    | unregister => trivial
    | done => trivial
    | _ => exact nomatch hact
  have hinit : byteSys.Reach (LastPidOnly () 0 UInt32.toNat) noPackets :=
    Sys.Reach.init noPackets_init
  -- up to the deletion
  obtain ⟨st, hreach, hp⟩ := Sys.reach_of_run hserving hinit
    [.recv true (hookPacket 1000) false, .proc true false]
    (p := fun st => decide (DeletesAt st)) (by decide +kernel)
  obtain ⟨hpos, hone, hrun⟩ := of_decide_eq_true hp
  have hremovable : ∀ e, Removable st.sPid.toNat (cbSubs () 0 (st.mng.evtlist e)) := by
    intro e
    by_cases he : e < ZCRT_MAX_EVT
    · have hlt : e.toNat < 256 := UInt32.lt_iff_toNat_lt.mp he
      have h := hone e.toNat (List.mem_range.mpr hlt)
      rw [UInt32.ofNat_toNat] at h
      exact h
    · have hat := tearAt_of_reach hreach
      rw [hpos] at hat
      have hnil : cbSubs () 0 (st.mng.evtlist e) = [] :=
        List.eq_nil_iff_forall_not_mem.mpr fun x hx => he (hat e x hx).2
      rw [hnil]
      exact Removable.nil
  -- and from there on
  have hstart : byteSys.Reach (LastPidOnly () 0 UInt32.toNat) { st with pos := .clearing 1 } := by
    refine hreach.step (l := .delete) hremovable ?_
    change st.deleteStep = _
    unfold TearState.deleteStep
    rw [if_pos hpos]
  obtain ⟨st', hreach', hdeleted⟩ := Sys.reach_of_run hloop hstart deleteLoop hrun
  have hdeleted := of_decide_eq_true hdeleted
  exact ⟨st', hreach', hdeleted, subsGone_of_lastPidOnly hreach' hdeleted⟩

/-- Two processes that hook event 7: the first one's subscription stays. -/
theorem twoPids_left : ¬∀ st, byteSys.Reachable st → st.pos = .deleted →
    ∀ e, ∀ x ∈ st.mng.evtlist e, ¬(x.fn = some () ∧ x.p1 = 0) := by
  intro hall
  have hinit : byteSys.Reachable noPackets := Sys.Reach.init noPackets_init
  obtain ⟨st, hreach, hp⟩ := Sys.reach_of_run (c := fun _ _ => true) (fun _ _ _ => trivial) hinit
    (.recv true (hookPacket 1000) false :: .proc true false ::
      .recv true (hookPacket 1001) false :: .proc true false :: .delete :: deleteLoop)
    (p := fun st => st.pos = .deleted ∧ (st.mng.evtlist 7).any fun x => x.fn = some () ∧ x.p1 = 0)
    (by decide +kernel)
  obtain ⟨hdeleted, hany⟩ := of_decide_eq_true hp
  obtain ⟨x, hx, hq⟩ := List.any_eq_true.mp hany
  exact hall st hreach hdeleted 7 x hx (of_decide_eq_true hq)

end Kernal

end Zcrt
