/-
  Requests to components (`zipc/zipc_parse.c`): the body `{1=component, 2=action, 3={…}}`, the
  dispatch to the handler and the default-application exchange.

  A handler is known by its pointer; `call` says what calling it does: `none` when it never
  returns, else its code and both buffers afterwards.
-/
import Zcrt.Ipc.Comp
import Zcrt.Ipc.Format

namespace Zcrt

open Lib

/-- `ZIPCModule`, as far as parsing reads it. `E` is the type of event encoder pointers. -/
structure ZIPCModule (F E : Type) where
  evtEncode : Option E
  modlist : Option (ZHash (ZIPCComp F))

/-- `zipc_parse_body_info`: the component and action names, or the code returned. -/
def zipcParseBodyInfo : TlvProg (Except EZCRTErr (List UInt8 × List UInt8)) := do
  let (ok, idx) ← TlvProg.getLen
  if !ok then pure (.error .ipcBodyErr)
  else if idx < 3 then pure (.error .ipcBodyErr)
  else
    match ← TlvProg.getInt with
    | none => pure (.error .ipcBodyErr)
    | some _ =>
        match ← TlvProg.getString with
        | none => pure (.error .ipcBodyErr)
        | some compname =>
            if compname.length ≥ ZCRT_NAME_LEN.toNat then pure (.error .ipcBodyErr)
            else
              match ← TlvProg.getInt with
              | none => pure (.error .ipcBodyErr)
              | some _ =>
                  match ← TlvProg.getString with
                  | none => pure (.error .ipcBodyErr)
                  | some action =>
                      if action.length ≥ ZCRT_NAME_LEN.toNat then pure (.error .ipcBodyErr)
                      else pure (.ok (compname, action))

/-- The third entry's key and type, the last things `zipc_parse_request` reads itself. -/
def zipcParseArgsType : TlvProg (Except EZCRTErr Unit) := do
  match ← TlvProg.getInt with
  | none => pure (.error .ipcBodyErr)
  | some _ =>
      let ty ← TlvProg.getType
      if ty ≠ ZTLV_TABLE then pure (.error .ipcArgsErr) else pure (.ok ())

/-! ## The codes of the two parsers -/

theorem zipcParseBodyInfo_error {v : ZBuf} {ret : EZCRTErr} {ibuf : ZBuf}
    (h : zipcParseBodyInfo.run v = (.error ret, ibuf)) : ret = .ipcBodyErr := by
  have hp : Prog.Post (fun r => ∀ ret, r = Except.error ret → ret = EZCRTErr.ipcBodyErr)
      zipcParseBodyInfo := by
    have herr : ∀ ret,
        (Except.error EZCRTErr.ipcBodyErr : Except EZCRTErr (List UInt8 × List UInt8)) =
        .error ret → ret = .ipcBodyErr := fun ret he => (Except.error.inj he).symm
    refine Prog.post_op_bind (I := TlvI) TlvOp.len fun ⟨ok, idx⟩ => ?_
    dsimp only
    split
    · exact Prog.post_pure herr
    split
    · exact Prog.post_pure herr
    refine Prog.post_op_bind (I := TlvI) TlvOp.int fun x => ?_
    cases x with
    | none => exact Prog.post_pure herr
    | some _ =>
    refine Prog.post_op_bind (I := TlvI) TlvOp.string fun x => ?_
    cases x with
    | none => exact Prog.post_pure herr
    | some compname =>
    dsimp only
    split
    · exact Prog.post_pure herr
    refine Prog.post_op_bind (I := TlvI) TlvOp.int fun x => ?_
    cases x with
    | none => exact Prog.post_pure herr
    | some _ =>
    refine Prog.post_op_bind (I := TlvI) TlvOp.string fun x => ?_
    cases x with
    | none => exact Prog.post_pure herr
    | some action =>
    dsimp only
    split
    · exact Prog.post_pure herr
    · exact Prog.post_pure fun ret he => nomatch he
  exact Prog.run_post (I := TlvI) TlvOp.step hp v ret (congrArg Prod.fst h)

theorem zipcParseArgsType_error {v : ZBuf} {ret : EZCRTErr} {ibuf : ZBuf}
    (h : zipcParseArgsType.run v = (.error ret, ibuf)) : ret ≠ .success := by
  have hp : Prog.Post (fun r => ∀ ret, r = Except.error ret → ret ≠ EZCRTErr.success)
      zipcParseArgsType := by
    refine Prog.post_op_bind (I := TlvI) TlvOp.int fun x => ?_
    cases x with
    | none => exact Prog.post_pure fun ret he => Except.error.inj he ▸ by decide
    | some _ =>
    refine Prog.post_op_bind (I := TlvI) TlvOp.type fun ty => ?_
    split
    · exact Prog.post_pure fun ret he => Except.error.inj he ▸ by decide
    · exact Prog.post_pure fun ret he => nomatch he
  exact Prog.run_post (I := TlvI) TlvOp.step hp v ret (congrArg Prod.fst h)

section Handlers

variable {F E : Type} (call : F → ZIPCComp F → ZBuf → ZBuf → Option (EZCRTErr × ZBuf × ZBuf))

/-- `zipc_comp_call`. -/
def zipcCompCall (comp : ZIPCComp F) (action : List UInt8) (ibuf obuf : ZBuf) :
    Option (EZCRTErr × ZBuf × ZBuf) :=
  match zipcParaseLookupComp comp.apilist action with
  | none => some (.ipcNoAct, ibuf, obuf)
  | some api =>
      match api.call with
      | none => some (.ipcNoAct, ibuf, obuf)
      | some fn => call fn comp ibuf obuf

/-- `zipc_parse_request`. -/
def zipcParseRequest (module : ZIPCModule F E) (ibuf obuf : ZBuf) :
    Option (EZCRTErr × ZBuf × ZBuf) :=
  match zipcParseBodyInfo.run ibuf with
  | (.error ret, ibuf) => some (ret, ibuf, obuf)
  | (.ok (compname, action), ibuf) =>
      match zipcParaseLookupComp module.modlist compname with
      | none => some (.ipcNoModule, ibuf, obuf)
      | some comp =>
          match zipcParseArgsType.run ibuf with
          | (.error ret, ibuf) => some (ret, ibuf, obuf)
          | (.ok (), ibuf) => zipcCompCall call comp action ibuf obuf

/-- `zipc_parse_app_default`. -/
def zipcParseAppDefault (module : ZIPCModule F E) (ibuf obuf : ZBuf) :
    Option (EZCRTErr × ZBuf × ZBuf) :=
  match zipcParseCommonHdr.run ibuf with
  | (none, ibuf) => some (.ipcCommonHdrErr, ibuf, obuf)
  | (some ch, ibuf) =>
      if ch.req then do
        let obuf ← zipcParseInitBuf obuf ZEIPC_TYPE_DEFAULT
        let obuf ← zipcParsePutReplyCommonhdr obuf ch true
        let (ret, ibuf, obuf) ← zipcParseRequest call module ibuf obuf
        if ret ≠ .success then
          let obuf ← zipcParsePutReplyErrcode obuf ret
          pure (ret, ibuf, obuf)
        else pure (ret, ibuf, obuf)
      else some (.ipcNotSupport, ibuf, obuf)

/-- The end of a reply: a code other than success becomes the body. -/
def putError (ret : EZCRTErr) (obuf : ZBuf) : Option ZBuf :=
  if ret ≠ .success then zipcParsePutReplyErrcode obuf ret else some obuf

/-- The exchange by what the common header says. -/
theorem zipcParseAppDefault_eq (module : ZIPCModule F E) (ibuf obuf : ZBuf) :
    zipcParseAppDefault call module ibuf obuf =
      match (zipcParseCommonHdr.run ibuf).1 with
      | none => some (.ipcCommonHdrErr, (zipcParseCommonHdr.run ibuf).2, obuf)
      | some ch =>
          if ch.req then
            (replyStart ZEIPC_TYPE_DEFAULT ch obuf).bind fun obuf =>
              (zipcParseRequest call module (zipcParseCommonHdr.run ibuf).2 obuf).bind fun r =>
                (putError r.1 r.2.2).map fun obuf => (r.1, r.2.1, obuf)
          else some (.ipcNotSupport, (zipcParseCommonHdr.run ibuf).2, obuf) := by
  unfold zipcParseAppDefault
  rcases zipcParseCommonHdr.run ibuf with ⟨_ | ch, ibuf1⟩
  · rfl
  dsimp only
  split
  · unfold replyStart
    rw [Option.bind_assoc]
    refine congrArg (Option.bind _) (funext fun obuf1 => congrArg (Option.bind _) ?_)
    refine funext fun obuf2 => congrArg (Option.bind _) (funext fun r => ?_)
    unfold putError
    split
    · rw [Option.map_eq_bind]
      rfl
    · rfl
  · rfl

/-- `zipc_parse_payload`. -/
def zipcParsePayload (module : ZIPCModule F E) (appType : UInt16) (ibuf obuf : ZBuf) :
    Option (EZCRTErr × ZBuf × ZBuf) :=
  if appType = ZEIPC_TYPE_DEFAULT then zipcParseAppDefault call module ibuf obuf
  else some (.ipcNotSupport, ibuf, obuf)

end Handlers

end Zcrt
