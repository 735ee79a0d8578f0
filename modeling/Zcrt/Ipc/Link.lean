/-
  The link protocol (`zipc/zipc_parse.c`): hooking and unhooking events.

  `G` is the type of event callback pointers, `P` of their arguments. The module's event manager
  goes in and comes out; `heap` says whether the allocator would hand out a node.

  * `zipcParseAppLink_eq`: what happens by stages, and what is appended to the reply.
  * `hookReported_iff`: when the reply to a hook request tells what happened.
-/
import Zcrt.Core.Event
import Zcrt.Ipc.Header
import Zcrt.Ipc.Parse

namespace Zcrt

open Lib

/-- `_zipc_link_parase_eventid`: the event id, or the code returned. -/
def zipcLinkParaseEventid : TlvProg (Except EZCRTErr UInt32) := do
  match ← TlvProg.getInt with
  | none => pure (.error .ipcBodyErr)
  | some _ =>
      let ty ← TlvProg.getType
      if ty ≠ ZTLV_TABLE then pure (.error .ipcArgsErr)
      else
        let (ok, _) ← TlvProg.getLen
        if !ok then pure (.error .ipcTLVErr)
        else
          match ← TlvProg.getInt with
          | none => pure (.error .ipcTLVErr)
          | some _ =>
              match ← TlvProg.getInt with
              | none => pure (.error .ipcTLVErr)
              | some evtid => pure (.ok evtid.toUInt32)

section Link

variable {F E G P : Type} [DecidableEq G] [DecidableEq P]

/-- The action of a link request, once the reply is begun: the code, `ibuf` and the event manager
    afterwards. The code of the registration is dropped, and an event id of 0 leaves the code 0. -/
def zipcLinkAction (module : ZIPCModule F E) (evtMng : Option (ZEvent G P)) (heap : Bool)
    (action : List UInt8) (ibuf : ZBuf) (cb : Option G) (p1 p2 : P) :
    Option (EZCRTErr × ZBuf × Option (ZEvent G P)) :=
  if zstrBufCmp action (cstr "_hookevt") = 0 then
    if module.evtEncode.isNone then some (.ipcNotSupport, ibuf, evtMng)
    else
      match zipcLinkParaseEventid.run ibuf with
      | (.error ret, ibuf) => some (ret, ibuf, evtMng)
      | (.ok evtid, ibuf) =>
          if evtid = 0 then some (.success, ibuf, evtMng)
          else
            (zcrtEventRegisterEx evtMng heap 10 evtid .evtLocal cb p1 p2).map fun r =>
              (.success, ibuf, r.2)
  else if zstrBufCmp action (cstr "_unhookevt") = 0 then
    match zipcLinkParaseEventid.run ibuf with
    | (.error ret, ibuf) => some (ret, ibuf, evtMng)
    | (.ok evtid, ibuf) =>
        if evtid = 0 then some (.success, ibuf, evtMng)
        else
          (zcrtEventUnregister evtMng evtid cb p1 p2).map fun evtMng => (.success, ibuf, evtMng)
  else some (.success, ibuf, evtMng)

/-- The end of `zipc_parse_app_link`: the reply's body. -/
def linkBody (ret : EZCRTErr) (obuf : ZBuf) : Option ZBuf :=
  if ret ≠ .success then zipcParsePutReplyErrcode obuf ret
  else do
    let obuf ← zipcParsePutReplyReqResult obuf 1
    let obuf ← ztlvPutInt obuf 1
    ztlvPutUint32 obuf 1

/-- `zipc_parse_app_link`. An error in the body leaves the loop before the reply is begun. -/
def zipcParseAppLink (module : ZIPCModule F E) (evtMng : Option (ZEvent G P)) (heap : Bool)
    (ibuf obuf : ZBuf) (cb : Option G) (p1 p2 : P) :
    Option (EZCRTErr × ZBuf × ZBuf × Option (ZEvent G P)) :=
  match zipcParseCommonHdr.run ibuf with
  | (none, ibuf) => some (.ipcCommonHdrErr, ibuf, obuf, evtMng)
  | (some ch, ibuf) => do
      let (ret, ibuf, obuf, evtMng) ←
        match zipcParseBodyInfo.run ibuf with
        | (.error ret, ibuf) => some (ret, ibuf, obuf, evtMng)
        | (.ok (_, action), ibuf) => do
            let obuf ← zipcParseInitBuf obuf ZEIPC_TYPE_LINK
            let obuf ← zipcParsePutReplyCommonhdr obuf ch true
            let (ret, ibuf, evtMng) ← zipcLinkAction module evtMng heap action ibuf cb p1 p2
            pure (ret, ibuf, obuf, evtMng)
      let obuf ← linkBody ret obuf
      pure (ret, ibuf, obuf, evtMng)

end Link

theorem zipcLinkParaseEventid_error {v : ZBuf} {ret : EZCRTErr} {ibuf : ZBuf}
    (h : zipcLinkParaseEventid.run v = (.error ret, ibuf)) : ret ≠ .success := by
  have hp : Prog.Post (fun r => ∀ ret, r = Except.error ret → ret ≠ EZCRTErr.success)
      zipcLinkParaseEventid := by
    have herr : ∀ e : EZCRTErr, e ≠ .success → ∀ ret, (Except.error e : Except EZCRTErr UInt32) =
        .error ret → ret ≠ .success := fun e he ret hr => Except.error.inj hr ▸ he
    refine Prog.post_op_bind (I := TlvI) TlvOp.int fun x => ?_
    cases x with
    | none => exact Prog.post_pure (herr _ (by decide))
    | some _ =>
    refine Prog.post_op_bind (I := TlvI) TlvOp.type fun ty => ?_
    dsimp only
    split
    · exact Prog.post_pure (herr _ (by decide))
    refine Prog.post_op_bind (I := TlvI) TlvOp.len fun ⟨ok, _⟩ => ?_
    dsimp only
    split
    · exact Prog.post_pure (herr _ (by decide))
    refine Prog.post_op_bind (I := TlvI) TlvOp.int fun x => ?_
    cases x with
    | none => exact Prog.post_pure (herr _ (by decide))
    | some _ =>
    refine Prog.post_op_bind (I := TlvI) TlvOp.int fun x => ?_
    cases x with
    | none => exact Prog.post_pure (herr _ (by decide))
    | some evtid => exact Prog.post_pure fun ret he => nomatch he
  exact Prog.run_post (I := TlvI) TlvOp.step hp v ret (congrArg Prod.fst h)

/-! ## The reply -/

/-- The bytes of `linkBody`. -/
def linkBodyBytes (ret : EZCRTErr) : List UInt8 :=
  if ret ≠ .success then replyErrcode ret
  else replyReqResult 1 ++ (tlvInt 1 ++ tlvUint32 1)

theorem length_linkBodyBytes_le (ret : EZCRTErr) : (linkBodyBytes ret).length ≤ 40 := by
  unfold linkBodyBytes
  split
  · exact (length_replyErrcode_le ret).trans (by decide)
  · have h1 := length_replyReqResult_le 1
    have h2 := length_tlvInt_le 1
    have h3 := length_tlvUint32_le 1
    simp only [List.length_append]
    omega

theorem linkBody_appends {obuf : ZBuf} (ret : EZCRTErr) (h : obuf.len.toNat + 128 < 2 ^ 31 - 1) :
    ∃ v, linkBody ret obuf = some v ∧ Appends obuf v (linkBodyBytes ret) := by
  unfold linkBody linkBodyBytes
  split
  · exact zipcParsePutReplyErrcode_appends ret (by omega)
  · have h1 := length_replyReqResult_le 1
    have h2 := length_tlvInt_le 1
    refine bind_appends (zipcParsePutReplyReqResult_appends 1 (by omega)) fun v1 a1 => ?_
    have l1 := a1.len
    refine bind_appends (ztlvPutInt_appends 1 (by omega)) fun v2 a2 => ?_
    have l2 := a2.len
    exact ztlvPutUint32_appends 1 (by omega)

/-- The bytes of a whole link reply, `payloadSize` still 0. -/
def linkReply (sn : UInt32) (ret : EZCRTErr) : List UInt8 :=
  (zipcHdrBytes ZEIPC_TYPE_LINK 0 ++ replyCommonhdr sn true) ++ linkBodyBytes ret

section Stages

variable {F E G P : Type} [DecidableEq G] [DecidableEq P] (module : ZIPCModule F E)
  (evtMng : Option (ZEvent G P)) (heap : Bool) (ibuf obuf : ZBuf) (cb : Option G) (p1 p2 : P)

/-- A rejected common header: nothing is written. -/
theorem zipcParseAppLink_noHdr {ibuf1 : ZBuf} (h : zipcParseCommonHdr.run ibuf = (none, ibuf1)) :
    zipcParseAppLink module evtMng heap ibuf obuf cb p1 p2 =
      some (.ipcCommonHdrErr, ibuf1, obuf, evtMng) := by
  unfold zipcParseAppLink
  rw [h]

/-- A rejected body: the error body is all that is written. -/
theorem zipcParseAppLink_noBody {ch : ZIPCMsgCH} {ibuf1 ibuf2 : ZBuf} {ret : EZCRTErr}
    (h : zipcParseCommonHdr.run ibuf = (some ch, ibuf1))
    (hb : zipcParseBodyInfo.run ibuf1 = (.error ret, ibuf2)) :
    ∃ v, zipcParseAppLink module evtMng heap ibuf (zcrtBufClear obuf) cb p1 p2 =
        some (.ipcBodyErr, ibuf2, v, evtMng) ∧
      Appends (zcrtBufClear obuf) v (replyErrcode .ipcBodyErr) := by
  have hret := zipcParseBodyInfo_error hb
  subst hret
  have h0 : (zcrtBufClear obuf).len.toNat + 128 < 2 ^ 31 - 1 := by
    change 0 + 128 < _
    decide
  obtain ⟨v, hv, ha⟩ := linkBody_appends .ipcBodyErr h0
  refine ⟨v, ?_, ha⟩
  unfold zipcParseAppLink
  rw [h]
  dsimp only
  rw [hb]
  simp only [Option.bind_eq_bind, Option.bind_some, hv, Option.pure_def]

/-- An accepted body: the reply follows the action's code. -/
theorem zipcParseAppLink_action {ch : ZIPCMsgCH} {ibuf1 ibuf2 : ZBuf} {compname action : List UInt8}
    (h : zipcParseCommonHdr.run ibuf = (some ch, ibuf1))
    (hb : zipcParseBodyInfo.run ibuf1 = (.ok (compname, action), ibuf2)) :
    ∃ reply : EZCRTErr → ZBuf,
      (∀ ret, Appends (zcrtBufClear obuf) (reply ret) (linkReply ch.sn ret)) ∧
      zipcParseAppLink module evtMng heap ibuf (zcrtBufClear obuf) cb p1 p2 =
        (zipcLinkAction module evtMng heap action ibuf2 cb p1 p2).map fun r =>
          (r.1, r.2.1, reply r.1, r.2.2) := by
  obtain ⟨v1, hv1, a1⟩ := replyStart_appends ZEIPC_TYPE_LINK ch obuf
  have hl := length_replyCommonhdr_le ch.sn true
  have l1 := a1.len
  rw [List.length_append, zipcHdrBytes_length] at l1
  change _ = 0 + _ at l1
  have hbody := fun ret => linkBody_appends ret (show v1.len.toNat + 128 < 2 ^ 31 - 1 by omega)
  choose reply hreply areply using hbody
  refine ⟨reply, fun ret => a1.trans (areply ret), ?_⟩
  obtain ⟨v0, hv0, hv1⟩ := Option.bind_eq_some_iff.mp hv1
  unfold zipcParseAppLink
  rw [h]
  dsimp only
  rw [hb]
  simp only [Option.bind_eq_bind, Option.pure_def, hv0, hv1, Option.bind_some]
  cases zipcLinkAction module evtMng heap action ibuf2 cb p1 p2 with
  | none => rfl
  | some r => simp only [Option.bind_some, hreply, Option.map_some]

end Stages

end Zcrt
