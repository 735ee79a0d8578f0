/-
  The netlink server (`zipc/zipc_server_kernal.c`): from the packet to the reply and the event
  message, and what becomes of the buffers on the way.

  Each function returns what it did with the buffers, in order. In the kernel `ZCRT_ASSERT` only
  prints, so that a removal goes on whatever `lastEvtid` is.

  * `nlDataRecv`, `zipcMsgProcJob`, `zipcHookeventCb`, `zipcNetlinkSend`: the four functions.
  * `Answered`: the messages that are answered.
  * `balanced_iff`: when each buffer is given back or handed on, once.
-/
import Zcrt.Ipc.BufPool
import Zcrt.Ipc.LinkOps
import Zcrt.Server.DefaultReply
import Zcrt.Server.EvtMsg

namespace Zcrt

namespace Kernal

open Lib

/-! ## The functions -/

/-- What a function does with a buffer: it gets it, gives it back, or queues a job with it. -/
inductive BufEvt
  | malloc (buf : Nat)
  | free (buf : Nat)
  | queue (buf : Nat)
deriving DecidableEq

/-- A socket buffer: its length, what its `nlmsghdr` says, and what there is at `NLMSG_DATA`. -/
structure SkBuff where
  len : UInt32
  nlmsgLen : UInt32
  nlmsgPid : UInt32
  data : Mem

/-- `NLMSG_LENGTH`: the length with the 16 bytes of the `nlmsghdr`. -/
def NLMSG_LENGTH (len : UInt32) : UInt32 := len + 16

/-- `NLMSG_SPACE`: this rounded up to a multiple of 4. -/
def NLMSG_SPACE (len : UInt32) : UInt32 := (NLMSG_LENGTH len + 3) / 4 * 4

/-- `_zipc_client_recv_hdr`: `appType` and `payloadSize`, if the header is accepted. `datalen` is
    compared as a `size_t`, which a negative one is large as. -/
def zipcClientRecvHdr (data : Mem) (datalen : Int32) : Option (UInt16 × UInt32) :=
  if !zipcParseCheckHdr data then none
  else if hdrPayloadSize data ≥ ZIPC_BUF_LEN then none
  else if datalen.toInt64.toUInt64 ≥ (hdrPayloadSize data).toUInt64 + ZIPC_HEAD_LEN.toUInt64 then
    some (hdrAppType data, hdrPayloadSize data)
  else none

/-- The arguments of a `_zipc_msg_proc_job` that is queued, the module aside. -/
structure MsgJob where
  ibuf : Nat
  appType : UInt16
  pid : UInt32

/-- The globals after `nl_data_recv`, the job it queued, and what it did. -/
structure NlRecv where
  pool : BufPool
  sPid : UInt32
  job : Option MsgJob
  done : List BufEvt

/-- `nl_data_recv`. `kipc` is whether `s_kipc` is set, `full` the answer of
    `zcrt_schedule_sendjob_argn`. -/
def nlDataRecv (kipc : Bool) (pool : BufPool) (sPid : UInt32) (skb : SkBuff) (full : Bool) :
    Option NlRecv :=
  if !kipc then some { pool := pool, sPid := sPid, job := none, done := [] }
  else
    let (buf, pool) := pool.malloc
    if skb.len < NLMSG_SPACE ZIPC_HEAD_LEN then
      some { pool := pool, sPid := sPid, job := none, done := [.malloc buf] }
    else
      let datalen := (skb.nlmsgLen - NLMSG_LENGTH 0).toInt32
      let pid := skb.nlmsgPid
      match zipcClientRecvHdr skb.data datalen with
      | none => some { pool := pool, sPid := pid, job := none, done := [.malloc buf] }
      | some (appType, payloadSize) => do
          let v ← zcrtBufAppend { pool.bufs buf with len := 0, offset := 0 }
            (skb.data.slice ZIPC_HEAD_LEN.toNat payloadSize.toNat)
          let pool := pool.store buf v
          if full then
            pure { pool := pool.free buf, sPid := pid, job := none, done :=
              [.malloc buf, .free buf] }
          else
            pure { pool := pool, sPid := pid, job := some ⟨buf, appType, pid⟩,
                   done := [.malloc buf, .queue buf] }

/-- `_zipc_netlink_send`: what is sent to the pid, if there is an `sk_buff` for it. -/
def zipcNetlinkSend (pool : BufPool) (buf : Nat) (pid : UInt32) (skb : Bool) :
    Option (UInt32 × List UInt8) × BufPool × List BufEvt :=
  if !skb then (none, pool.free buf, [.free buf])
  else (some (pid, (pool.bufs buf).bytes), pool.free buf, [.free buf])

section Functions

variable {F E D G P : Type} [DecidableEq G] [DecidableEq P]
  (call : F → ZIPCComp F → ZBuf → ZBuf → Option (EZCRTErr × ZBuf × ZBuf))
  (encode : E → UInt32 → D → ZBuf → Option (EZCRTErr × ZBuf)) (module : ZIPCModule F E)

/-- `_zipc_hookevent_cb`, `sn` the serial number the event gets. -/
def zipcHookeventCb (pool : BufPool) (sn evtid : UInt32) (evtdata : D) (full : Bool) :
    Option (BufPool × List BufEvt) :=
  let (buf, pool) := pool.malloc
  do
    let (ret, v) ← zipcEncodeEvent encode (some module) sn evtid evtdata (pool.bufs buf)
    let pool := pool.store buf v
    if ret = .success then
      if full then pure (pool.free buf, [.malloc buf, .free buf])
      else pure (pool, [.malloc buf, .queue buf])
    else pure (pool, [.malloc buf])

/-- The event manager as a call of the kernel finds it: `lastEvtid`, which only the assertion of
    `zcrt_event_unregister` reads, stops none. -/
def kernalMng (mng : ZEvent G P) : ZEvent G P := { mng with lastEvtid := ZCRT_MAX_EVT }

/-- What `_zipc_msg_proc_job` leaves behind. -/
structure MsgProc (G P : Type) where
  pool : BufPool
  evtMng : Option (ZEvent G P)
  done : List BufEvt

/-- `_zipc_msg_proc_job`. `cb` is `_zipc_hookevent_cb`, `ptr` the cast of a pid to a pointer. -/
def zipcMsgProcJob (cb : G) (ipc : P) (ptr : UInt32 → P) (pool : BufPool)
    (evtMng : Option (ZEvent G P)) (heap : Bool) (job : MsgJob) (full : Bool) :
    Option (MsgProc G P) :=
  let (obuf, pool) := pool.malloc
  do
    let (iv, ov, evtMng) ← appParse call module (evtMng.map kernalMng) heap job.appType
      (pool.bufs job.ibuf) (pool.bufs obuf) cb ipc (ptr job.pid)
    let pool := pool.store job.ibuf iv
    if ov.len ≠ 0 then
      let pool := pool.store obuf (patchPayloadSize ov)
      if full then
        pure { pool := (pool.free obuf).free job.ibuf, evtMng := evtMng,
               done := [.malloc obuf, .free obuf, .free job.ibuf] }
      else
        pure { pool := pool.free job.ibuf, evtMng := evtMng,
               done := [.malloc obuf, .queue obuf, .free job.ibuf] }
    else
      pure { pool := (pool.store obuf ov).free job.ibuf, evtMng := evtMng,
             done := [.malloc obuf, .free job.ibuf] }

end Functions

/-! ## What becomes of the buffers -/

/-- A call of one of the four functions, with what it finds. -/
inductive Call (D : Type)
  | nlDataRecv (kipc : Bool) (sPid : UInt32) (skb : SkBuff) (full : Bool)
  | msgProcJob (heap : Bool) (job : MsgJob) (full : Bool)
  | hookeventCb (sn evtid : UInt32) (evtdata : D) (full : Bool)
  | netlinkSend (buf : Nat) (pid : UInt32) (skb : Bool)

/-- The buffers it is called with. -/
def Call.args {D : Type} : Call D → List Nat
  | .msgProcJob _ job _ => [job.ibuf]
  | .netlinkSend buf _ _ => [buf]
  | _ => []

def BufEvt.got : BufEvt → Option Nat
  | .malloc buf => some buf
  | _ => none

def BufEvt.given : BufEvt → Option Nat
  | .malloc _ => none
  | .free buf => some buf
  | .queue buf => some buf

/-- Each buffer that was an argument or was got is given back or handed on, once. -/
def Balanced (args : List Nat) (done : List BufEvt) : Prop :=
  (args ++ done.filterMap BufEvt.got).Perm (done.filterMap BufEvt.given)

instance (args : List Nat) (done : List BufEvt) : Decidable (Balanced args done) :=
  inferInstanceAs (Decidable (List.Perm _ _))

/-- The messages that are answered: link requests, and requests to the default application, whose
    common header is accepted. -/
def Answered (appType : UInt16) (ibuf : ZBuf) : Prop :=
  ∃ ch, (zipcParseCommonHdr.run ibuf).1 = some ch ∧
    (appType = ZEIPC_TYPE_LINK ∨ appType = ZEIPC_TYPE_DEFAULT ∧ ch.req = true)

section Balance

variable {F E D G P : Type} [DecidableEq G] [DecidableEq P]
  (call : F → ZIPCComp F → ZBuf → ZBuf → Option (EZCRTErr × ZBuf × ZBuf))
  (encode : E → UInt32 → D → ZBuf → Option (EZCRTErr × ZBuf)) (module : ZIPCModule F E)

/-- There is an encoder, and it takes the event. -/
def Encodable (sn evtid : UInt32) (evtdata : D) (buf : ZBuf) : Prop :=
  ∃ fn w v, module.evtEncode = some fn ∧ evtHead sn evtid buf = some w ∧
    encode fn evtid evtdata w = some (.success, v)

/-- What the call does with buffers, if it comes to an end. -/
def Call.done (cb : G) (ipc : P) (ptr : UInt32 → P) (pool : BufPool) (evtMng : Option (ZEvent G P))
    :
    Call D → Option (List BufEvt)
  | .nlDataRecv kipc sPid skb full => (Kernal.nlDataRecv kipc pool sPid skb full).map NlRecv.done
  | .msgProcJob heap job full =>
      (zipcMsgProcJob call module cb ipc ptr pool evtMng heap job full).map MsgProc.done
  | .hookeventCb sn evtid evtdata full =>
      (zipcHookeventCb encode module pool sn evtid evtdata full).map Prod.snd
  | .netlinkSend buf pid skb => some (zipcNetlinkSend pool buf pid skb).2.2

/-- The packet is long enough and its header accepted; the message is answered; the event is
    encoded. -/
def Call.Regular (pool : BufPool) : Call D → Prop
  | .nlDataRecv kipc _ skb _ => kipc = true → NLMSG_SPACE ZIPC_HEAD_LEN ≤ skb.len ∧
      (zipcClientRecvHdr skb.data (skb.nlmsgLen - NLMSG_LENGTH 0).toInt32).isSome
  | .msgProcJob _ job _ => Answered job.appType (pool.malloc.2.bufs job.ibuf)
  | .hookeventCb sn evtid evtdata _ =>
      Encodable encode module sn evtid evtdata (pool.malloc.2.bufs pool.malloc.1)
  | .netlinkSend .. => True

variable {call encode module}

/-- A link request is answered if its common header is accepted. -/
theorem appLink_answered {evtMng evtMng' : Option (ZEvent G P)} {heap : Bool}
    {ibuf obuf iv ov : ZBuf}
    {cb : Option G} {p1 p2 : P} {ret : EZCRTErr}
    (h : zipcParseAppLink module evtMng heap ibuf (zcrtBufClear obuf) cb p1 p2 =
      some (ret, iv, ov, evtMng')) :
    ov.len ≠ 0 ↔ Answered ZEIPC_TYPE_LINK ibuf := by
  rcases hch : zipcParseCommonHdr.run ibuf with ⟨_ | ch, ibuf1⟩
  · rw [zipcParseAppLink_noHdr module evtMng heap ibuf _ cb p1 p2 hch] at h
    obtain ⟨-, h⟩ := Prod.mk.inj (Option.some.inj h)
    obtain ⟨-, h⟩ := Prod.mk.inj h
    obtain ⟨rfl, -⟩ := Prod.mk.inj h
    refine iff_of_false (fun hne => hne rfl) ?_
    rintro ⟨ch, he, -⟩
    rw [hch] at he
    exact nomatch he
  have hans : Answered ZEIPC_TYPE_LINK ibuf := ⟨ch, by rw [hch], Or.inl rfl⟩
  refine iff_of_true ?_ hans
  rcases hbody : zipcParseBodyInfo.run ibuf1 with ⟨ret' | ⟨compname, action⟩, ibuf2⟩
  · obtain ⟨v, hv, ha⟩ :=
      zipcParseAppLink_noBody module evtMng heap ibuf obuf cb p1 p2 hch hbody
    rw [hv] at h
    obtain ⟨-, h⟩ := Prod.mk.inj (Option.some.inj h)
    obtain ⟨-, h⟩ := Prod.mk.inj h
    obtain ⟨rfl, -⟩ := Prod.mk.inj h
    exact ha.len_ne_zero (by decide +kernel)
  · obtain ⟨reply, hreply, hlink⟩ :=
      zipcParseAppLink_action module evtMng heap ibuf obuf cb p1 p2 hch hbody
    rw [hlink] at h
    obtain ⟨r, -, h⟩ := Option.map_eq_some_iff.mp h
    obtain ⟨-, h⟩ := Prod.mk.inj h
    obtain ⟨-, h⟩ := Prod.mk.inj h
    obtain ⟨rfl, -⟩ := Prod.mk.inj h
    exact (hreply r.1).len_ne_zero (List.cons_ne_nil _ _)

theorem appDefault_answered (hcall : AppendsOnly call) {ibuf obuf iv ov : ZBuf} {ret : EZCRTErr}
    (h : zipcParseAppDefault call module ibuf (zcrtBufClear obuf) = some (ret, iv, ov)) :
    ov.len ≠ 0 ↔ Answered ZEIPC_TYPE_DEFAULT ibuf := by
  have heq := zipcParseAppDefault_eq call module ibuf (zcrtBufClear obuf)
  rw [h] at heq
  rcases hch : (zipcParseCommonHdr.run ibuf).1 with _ | ch
  · rw [hch] at heq
    obtain ⟨-, heq⟩ := Prod.mk.inj (Option.some.inj heq)
    obtain ⟨-, rfl⟩ := Prod.mk.inj heq
    refine iff_of_false (fun hne => hne rfl) ?_
    rintro ⟨ch, he, -⟩
    rw [hch] at he
    exact nomatch he
  by_cases hreq : ch.req = true
  · refine iff_of_true ?_ ⟨ch, hch, Or.inr ⟨rfl, hreq⟩⟩
    obtain ⟨begun, v, ret', ibuf', obuf', bs, -, -, -, hv, ha, -⟩ :=
      zipcParseAppDefault_appends hcall module obuf hch hreq
    obtain ⟨-, heq⟩ := Prod.mk.inj (Option.some.inj (h.symm.trans hv))
    obtain ⟨-, rfl⟩ := Prod.mk.inj heq
    exact ha.len_ne_zero (List.cons_ne_nil _ _)
  · rw [hch] at heq
    dsimp only at heq
    rw [if_neg hreq] at heq
    obtain ⟨-, heq⟩ := Prod.mk.inj (Option.some.inj heq)
    obtain ⟨-, rfl⟩ := Prod.mk.inj heq
    refine iff_of_false (fun hne => hne rfl) ?_
    rintro ⟨ch', he, hty⟩
    obtain rfl := Option.some.inj (hch.symm.trans he)
    rcases hty with hty | ⟨-, hty⟩
    · exact absurd hty (by decide)
    · exact hreq hty

/-- No other application is answered. -/
theorem appOther_answered {appType : UInt16} (hlink : appType ≠ ZEIPC_TYPE_LINK)
    (hdefault : appType ≠ ZEIPC_TYPE_DEFAULT) (ibuf : ZBuf) : ¬Answered appType ibuf := by
  rintro ⟨ch, -, hty | ⟨hty, -⟩⟩
  · exact hlink hty
  · exact hdefault hty

/-- Whether there is a reply, by the application. -/
theorem appParse_answered (hcall : AppendsOnly call) {evtMng evtMng' : Option (ZEvent G P)}
    {heap : Bool} {appType : UInt16} {ibuf obuf iv ov : ZBuf} {cb : G} {p1 p2 : P}
    (h : appParse call module evtMng heap appType ibuf (zcrtBufClear obuf) cb p1 p2 =
      some (iv, ov, evtMng')) :
    ov.len ≠ 0 ↔ Answered appType ibuf := by
  unfold appParse at h
  split at h
  · rename_i hlink
    obtain ⟨⟨ret, iv', ov', evtMng1⟩, happ, h⟩ := Option.bind_eq_some_iff.mp h
    obtain ⟨-, h⟩ := Prod.mk.inj (Option.some.inj h)
    obtain ⟨rfl, -⟩ := Prod.mk.inj h
    rw [hlink]
    exact appLink_answered happ
  · rename_i hlink
    obtain ⟨⟨ret, iv', ov'⟩, happ, h⟩ := Option.bind_eq_some_iff.mp h
    obtain ⟨-, h⟩ := Prod.mk.inj (Option.some.inj h)
    obtain ⟨rfl, -⟩ := Prod.mk.inj h
    unfold zipcParsePayload at happ
    split at happ
    · rename_i hdefault
      rw [hdefault]
      exact appDefault_answered hcall happ
    · rename_i hdefault
      obtain ⟨-, happ⟩ := Prod.mk.inj (Option.some.inj happ)
      obtain ⟨-, rfl⟩ := Prod.mk.inj happ
      exact iff_of_false (fun hne => hne rfl) (appOther_answered hlink hdefault _)

/-- What the job does: the reply, if there is one, is queued or given back. -/
theorem zipcMsgProcJob_done (hcall : AppendsOnly call) {cb : G} {ipc : P} {ptr : UInt32 → P}
    {pool : BufPool} {evtMng : Option (ZEvent G P)} {heap full : Bool} {job : MsgJob}
    {res : MsgProc G P}
    (h : zipcMsgProcJob call module cb ipc ptr pool evtMng heap job full = some res) :
    (Answered job.appType (pool.malloc.2.bufs job.ibuf) ∧
      res.done = [.malloc pool.malloc.1,
        if full then .free pool.malloc.1 else .queue pool.malloc.1, .free job.ibuf]) ∨
    (¬Answered job.appType (pool.malloc.2.bufs job.ibuf) ∧
      res.done = [.malloc pool.malloc.1, .free job.ibuf]) := by
  obtain ⟨v, hclear⟩ := pool.malloc_cleared
  unfold zipcMsgProcJob at h
  dsimp only at h
  obtain ⟨⟨iv, ov, evtMng'⟩, hparse, h⟩ := Option.bind_eq_some_iff.mp h
  rw [hclear] at hparse
  have hans := appParse_answered hcall hparse
  dsimp only at h
  split at h
  · rename_i hne
    refine Or.inl ⟨hans.mp hne, ?_⟩
    split at h
    · rename_i hfull
      obtain rfl := Option.some.inj h
      rw [if_pos hfull]
    · rename_i hfull
      obtain rfl := Option.some.inj h
      rw [if_neg hfull]
  · rename_i heq
    refine Or.inr ⟨fun ha => heq (hans.mpr ha), ?_⟩
    obtain rfl := Option.some.inj h
    rfl

theorem nlDataRecv_done {kipc : Bool} {pool : BufPool} {sPid : UInt32} {skb : SkBuff} {full : Bool}
    {res : NlRecv} (h : nlDataRecv kipc pool sPid skb full = some res) :
    (kipc = false ∧ res.done = []) ∨
    (kipc = true ∧ (NLMSG_SPACE ZIPC_HEAD_LEN ≤ skb.len ∧
        (zipcClientRecvHdr skb.data (skb.nlmsgLen - NLMSG_LENGTH 0).toInt32).isSome) ∧
      res.done = [.malloc pool.malloc.1,
        if full then .free pool.malloc.1 else .queue pool.malloc.1]) ∨
    (kipc = true ∧ ¬(NLMSG_SPACE ZIPC_HEAD_LEN ≤ skb.len ∧
        (zipcClientRecvHdr skb.data (skb.nlmsgLen - NLMSG_LENGTH 0).toInt32).isSome) ∧
      res.done = [.malloc pool.malloc.1]) := by
  unfold nlDataRecv at h
  cases kipc with
  | false =>
      obtain rfl := Option.some.inj h
      exact Or.inl ⟨rfl, rfl⟩
  | true =>
      rw [if_neg (by decide)] at h
      dsimp only at h
      refine Or.inr ?_
      by_cases hshort : skb.len < NLMSG_SPACE ZIPC_HEAD_LEN
      · rw [if_pos hshort] at h
        obtain rfl := Option.some.inj h
        exact Or.inr ⟨rfl, fun hreg => UInt32.not_le.mpr hshort hreg.1, rfl⟩
      rw [if_neg hshort] at h
      rcases hhdr : zipcClientRecvHdr skb.data (skb.nlmsgLen - NLMSG_LENGTH 0).toInt32
        with _ | ⟨appType, payloadSize⟩
      · rw [hhdr] at h
        obtain rfl := Option.some.inj h
        exact Or.inr ⟨rfl, fun hreg => Bool.false_ne_true hreg.2, rfl⟩
      · rw [hhdr] at h
        dsimp only at h
        obtain ⟨v, -, h⟩ := Option.bind_eq_some_iff.mp h
        refine Or.inl ⟨rfl, ⟨UInt32.not_lt.mp hshort, rfl⟩, ?_⟩
        split at h
        · rename_i hfull
          obtain rfl := Option.some.inj h
          rw [if_pos hfull]
        · rename_i hfull
          obtain rfl := Option.some.inj h
          rw [if_neg hfull]

theorem zipcHookeventCb_done {pool : BufPool} {sn evtid : UInt32} {evtdata : D} {full : Bool}
    {res : BufPool × List BufEvt}
    (h : zipcHookeventCb encode module pool sn evtid evtdata full = some res) :
    (Encodable encode module sn evtid evtdata (pool.malloc.2.bufs pool.malloc.1) ∧
      res.2 = [.malloc pool.malloc.1,
        if full then .free pool.malloc.1 else .queue pool.malloc.1]) ∨
    (¬Encodable encode module sn evtid evtdata (pool.malloc.2.bufs pool.malloc.1) ∧
      res.2 = [.malloc pool.malloc.1]) := by
  unfold zipcHookeventCb at h
  dsimp only at h
  obtain ⟨⟨ret, v⟩, henc, h⟩ := Option.bind_eq_some_iff.mp h
  have hret : ret = .success ↔
      Encodable encode module sn evtid evtdata (pool.malloc.2.bufs pool.malloc.1) := by
    unfold zipcEncodeEvent zipcServerGetEventEncode at henc
    rw [Option.bind_some] at henc
    unfold Encodable
    cases hfn : module.evtEncode with
    | none =>
        rw [hfn] at henc
        obtain ⟨rfl, -⟩ := Prod.mk.inj (Option.some.inj henc)
        exact iff_of_false (by decide) fun ⟨fn, w, v, he, _⟩ => nomatch he
    | some fn =>
        rw [hfn] at henc
        obtain ⟨w, hw, henc⟩ := Option.bind_eq_some_iff.mp henc
        obtain ⟨⟨code, w'⟩, hcode, henc⟩ := Option.bind_eq_some_iff.mp henc
        dsimp only at henc
        by_cases hs : code = .success
        · rw [if_pos hs] at henc
          obtain ⟨rfl, -⟩ := Prod.mk.inj (Option.some.inj henc)
          exact iff_of_true rfl ⟨fn, w, w', rfl, hw, hs ▸ hcode⟩
        · rw [if_neg hs] at henc
          obtain ⟨rfl, -⟩ := Prod.mk.inj (Option.some.inj henc)
          refine iff_of_false (by decide) ?_
          rintro ⟨fn', w1, v1, hfn', hw1, hcode1⟩
          obtain rfl := Option.some.inj hfn'
          obtain rfl := Option.some.inj (hw.symm.trans hw1)
          exact hs (Prod.mk.inj (Option.some.inj (hcode.symm.trans hcode1))).1
  dsimp only at h
  split at h
  · rename_i hs
    refine Or.inl ⟨hret.mp hs, ?_⟩
    split at h
    · rename_i hfull
      obtain rfl := Option.some.inj h
      rw [if_pos hfull]
    · rename_i hfull
      obtain rfl := Option.some.inj h
      rw [if_neg hfull]
  · rename_i hs
    obtain rfl := Option.some.inj h
    exact Or.inr ⟨fun he => hs (hret.mpr he), rfl⟩

/-- One buffer that was got, given back or queued. -/
theorem balanced_one (buf : Nat) (full : Bool) :
    Balanced [] [.malloc buf, if full then .free buf else .queue buf] := by
  cases full with
  | false => exact List.Perm.refl [buf]
  | true => exact List.Perm.refl [buf]

/-- A call that comes to an end keeps the balance exactly if it is regular: every packet that is too
    short or not accepted, every message that is not answered and every event that is not encoded
    costs a buffer. -/
theorem balanced_iff (hcall : AppendsOnly call) (cb : G) (ipc : P) (ptr : UInt32 → P)
    (pool : BufPool) (evtMng : Option (ZEvent G P)) (c : Call D) {done : List BufEvt}
    (h : c.done call encode module cb ipc ptr pool evtMng = some done) :
    Balanced c.args done ↔ c.Regular encode module pool := by
  cases c with
  | nlDataRecv kipc sPid skb full =>
      obtain ⟨res, hres, rfl⟩ := Option.map_eq_some_iff.mp h
      rcases nlDataRecv_done hres with ⟨hk, hd⟩ | ⟨hk, hreg, hd⟩ | ⟨hk, hreg, hd⟩
      · rw [hd]
        refine iff_of_true (List.Perm.refl _) fun ht => ?_
        rw [hk] at ht
        exact nomatch ht
      · rw [hd]
        exact iff_of_true (balanced_one _ full) fun _ => hreg
      · rw [hd]
        exact iff_of_false (fun hp => nomatch hp.length_eq) fun ht => hreg (ht hk)
  | msgProcJob heap job full =>
      obtain ⟨res, hres, rfl⟩ := Option.map_eq_some_iff.mp h
      rcases zipcMsgProcJob_done hcall hres with ⟨hans, hd⟩ | ⟨hans, hd⟩
      · rw [hd]
        refine iff_of_true ?_ hans
        cases full with
        | false => exact List.Perm.swap _ _ _
        | true => exact List.Perm.swap _ _ _
      · rw [hd]
        exact iff_of_false (fun hp => nomatch hp.length_eq) hans
  | hookeventCb sn evtid evtdata full =>
      obtain ⟨res, hres, rfl⟩ := Option.map_eq_some_iff.mp h
      rcases zipcHookeventCb_done hres with ⟨henc, hd⟩ | ⟨henc, hd⟩
      · rw [hd]
        exact iff_of_true (balanced_one _ full) henc
      · rw [hd]
        exact iff_of_false (fun hp => nomatch hp.length_eq) henc
  | netlinkSend buf pid skb =>
      refine iff_of_true ?_ trivial
      obtain rfl := Option.some.inj h
      cases skb with
      | false => exact List.Perm.refl [buf]
      | true => exact List.Perm.refl [buf]

end Balance

/-! ## Packets -/

/-- A packet of a process, with a message whose payload is empty. -/
def emptyMessage : SkBuff :=
  { len := 28, nlmsgLen := 26, nlmsgPid := 1000, data := fun i => (zipcHdrBytes 0 0).getD i 0 }

/-- A packet without room for a header. -/
def shortPacket : SkBuff := { emptyMessage with len := 27 }

theorem balanced_iff_emptyMessage :
    Balanced [] [.malloc 0, .queue 0] ↔
      (Call.nlDataRecv true 0 emptyMessage false).Regular encodeByte byteModule noBuffers := by
  have hdone : (Call.nlDataRecv true 0 emptyMessage false).done nilHandler encodeByte byteModule ()
      0 UInt32.toNat noBuffers (none : Option (ZEvent Unit Nat)) = some [.malloc 0, .queue 0] := by
    decide +kernel
  exact balanced_iff nilHandler_appendsOnly () 0 UInt32.toNat noBuffers none _ hdone

/-- The buffer got for a short packet is not given back. -/
theorem shortPacket_leaks : ¬∀ (c : Call UInt8) (done : List BufEvt),
    c.done nilHandler encodeByte byteModule () 0 UInt32.toNat noBuffers
      (none : Option (ZEvent Unit Nat)) = some done → Balanced c.args done := by
  intro hall
  have hshort := hall (.nlDataRecv true 0 shortPacket false) [.malloc 0] (by decide +kernel)
  exact nomatch hshort.length_eq

end Kernal

end Zcrt
