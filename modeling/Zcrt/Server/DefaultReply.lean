/-
  The request/reply contract of the default application: which payloads are answered, and by what.

  * `AppendsOnly`: handlers that return, having appended to `obuf` and, with an error, not even
    that.
  * `zipcParseRequest_appends`: so does the dispatcher, whatever the stage at which it gives up.
  * `defaultReplied`: the contract, for every payload and module.
-/
import Zcrt.Ipc.Dispatch
import Zcrt.Server.Msg

namespace Zcrt

open Lib

section Handlers

variable {F E : Type} (call : F → ZIPCComp F → ZBuf → ZBuf → Option (EZCRTErr × ZBuf × ZBuf))

/-- Every handler, given a reply that has begun, returns; it has only appended to the reply, and
    nothing when it returns an error. The length is one that `zcrt_buf_append` can reach
    (`zcrtBufAppend_lt`). -/
def AppendsOnly : Prop :=
  ∀ fn comp ibuf (obuf : ZBuf), obuf.len.toNat ≤ 64 →
    ∃ ret ibuf' obuf' bs, call fn comp ibuf obuf = some (ret, ibuf', obuf') ∧
      Appends obuf obuf' bs ∧ obuf'.len.toNat < 2 ^ 31 - 1 ∧ (ret ≠ .success → bs = [])

/-- The request ends with `ret`, having appended to the reply, and nothing with an error. -/
structure RequestAppends (obuf : ZBuf) (ret : EZCRTErr) (ibuf' obuf' : ZBuf) (bs : List UInt8) :
    Prop where
  appends : Appends obuf obuf' bs
  lt : obuf'.len.toNat < 2 ^ 31 - 1
  failed : ret ≠ .success → bs = []

variable {call}

/-- A stage that gives up writes nothing. -/
theorem requestAppends_error {obuf ibuf : ZBuf} {ret : EZCRTErr} (hl : obuf.len.toNat ≤ 64) :
    RequestAppends obuf ret ibuf obuf [] where
  appends := Appends.refl obuf
  lt := by omega
  failed := fun _ => rfl

theorem zipcCompCall_appends (hcall : AppendsOnly call) (comp : ZIPCComp F) (action : List UInt8)
    (ibuf : ZBuf) {obuf : ZBuf} (hl : obuf.len.toNat ≤ 64) :
    ∃ ret ibuf' obuf' bs, zipcCompCall call comp action ibuf obuf = some (ret, ibuf', obuf') ∧
      RequestAppends obuf ret ibuf' obuf' bs := by
  unfold zipcCompCall
  cases zipcParaseLookupComp comp.apilist action with
  | none => exact ⟨_, _, _, _, rfl, requestAppends_error hl⟩
  | some api =>
      dsimp only
      cases api.call with
      | none => exact ⟨_, _, _, _, rfl, requestAppends_error hl⟩
      | some fn =>
          obtain ⟨ret, ibuf', obuf', bs, hr, ha, hlt, hfail⟩ := hcall fn comp ibuf obuf hl
          exact ⟨ret, ibuf', obuf', bs, hr, ha, hlt, hfail⟩

theorem zipcParseRequest_appends (hcall : AppendsOnly call) (module : ZIPCModule F E) (ibuf : ZBuf)
    {obuf : ZBuf} (hl : obuf.len.toNat ≤ 64) :
    ∃ ret ibuf' obuf' bs, zipcParseRequest call module ibuf obuf = some (ret, ibuf', obuf') ∧
      RequestAppends obuf ret ibuf' obuf' bs := by
  unfold zipcParseRequest
  rcases zipcParseBodyInfo.run ibuf with ⟨ret | ⟨compname, action⟩, ibuf1⟩
  · exact ⟨_, _, _, _, rfl, requestAppends_error hl⟩
  dsimp only
  cases zipcParaseLookupComp module.modlist compname with
  | none => exact ⟨_, _, _, _, rfl, requestAppends_error hl⟩
  | some comp =>
      dsimp only
      rcases zipcParseArgsType.run ibuf1 with ⟨ret | u, ibuf2⟩
      · exact ⟨_, _, _, _, rfl, requestAppends_error hl⟩
      · exact zipcCompCall_appends hcall comp action ibuf2 hl

/-- A request that succeeds is that of the handler of its target. -/
theorem zipcParseRequest_success {module : ZIPCModule F E} {ibuf obuf ibuf' obuf' : ZBuf}
    {ret : EZCRTErr} (h : zipcParseRequest call module ibuf obuf = some (ret, ibuf', obuf'))
    (hret : ret = .success) : ∃ comp api fn args,
      zipcRequestTarget module ibuf = (.ok (comp, api, fn), args) ∧
        call fn comp args obuf = some (ret, ibuf', obuf') := by
  rw [zipcParseRequest_eq_target] at h
  rcases ht : zipcRequestTarget module ibuf with ⟨code | ⟨comp, api, fn⟩, args⟩
  · rw [ht] at h
    exact absurd ((Prod.mk.inj (Option.some.inj h)).1.trans hret) (zipcRequestTarget_error ht)
  · rw [ht] at h
    exact ⟨comp, api, fn, args, rfl, h⟩

end Handlers

/-! ## Reading `{err=code}` -/

/-- The one entry of a body that maps a key to an integer. -/
def readErrcode : TlvProg (Option (List UInt8 × EZCRTErr)) := do
  let (ok, cnt) ← TlvProg.getLen
  if !ok || cnt ≠ 1 then pure none
  else
    match ← TlvProg.getString with
    | none => pure none
    | some key =>
        match ← TlvProg.getInt with
        | none => pure none
        | some code => pure (some (key, code))

/-- The error body is read back to its code, and nothing else was in it. -/
theorem readErrcode_of_rest {v : ZBuf} {code : EZCRTErr} (h : v.rest = replyErrcode code) :
    (readErrcode.run v).1 = some (cstr "err", code) := by
  have h20 := length_replyErrcode_le code
  have hv : v.rest.length < 2 ^ 31 := by
    rw [h]
    omega
  rw [replyErrcode, ← List.append_nil (tlvInt code)] at h
  have h1 := ZBuf.rest_skip h
  have h2 := ZBuf.rest_skip h1
  have hv1 : (v.skip (Leb128.encode 1).length).rest.length < 2 ^ 31 := by
    rw [h, List.length_append, ← h1] at hv
    omega
  have hv2 : ((v.skip (Leb128.encode 1).length).skip (tlvStr (cstr "err")).length).rest.length <
      2 ^ 31 := by
    rw [h1, List.length_append, ← h2] at hv1
    omega
  obtain ⟨s, hs, hbytes⟩ := ztlvGetString_of_rest h1 hv1
  have hlen : ztlvGetLen v = ((true, 1), v.skip (Leb128.encode 1).length) :=
    ztlvGetLen_of_rest h hv
  unfold readErrcode
  rw [TlvProg.run_bind, TlvProg.run_getLen, hlen]
  dsimp only
  rw [if_neg (by decide), TlvProg.run_bind, TlvProg.run_getString, hs, Option.map_some, hbytes]
  dsimp only
  rw [TlvProg.run_bind, TlvProg.run_getInt, ztlvGetInt_of_rest h2 hv2]
  rfl

/-! ## The contract -/

section Contract

variable {F E G P : Type} [DecidableEq G] [DecidableEq P]
  (call : F → ZIPCComp F → ZBuf → ZBuf → Option (EZCRTErr × ZBuf × ZBuf))

/-- The reply in `out` to the request with serial number `sn` whose body is at the cursor of
    `ibuf`; `obuf` is the reply when it had begun. -/
structure DefaultReply (module : ZIPCModule F E) (ibuf obuf : ZBuf) (sn : UInt32) (out : ZBuf)
    (ret : EZCRTErr) (ibuf' obuf' : ZBuf) (bs : List UInt8) : Prop where
  request : zipcParseRequest call module ibuf obuf = some (ret, ibuf', obuf')
  message : WellFormedReply ZEIPC_TYPE_DEFAULT sn (if ret ≠ .success then replyErrcode ret else bs)
    out
  failed : ret ≠ .success →
    (readErrcode.run (zipcParseCommonHdr.run { out with offset := ZIPC_HEAD_LEN }).2).1 =
      some (cstr "err", ret)
  handled : ret = .success → ∃ comp api fn args,
    zipcRequestTarget module ibuf = (.ok (comp, api, fn), args) ∧
      call fn comp args obuf = some (ret, ibuf', obuf') ∧ Appends obuf obuf' bs

variable {call}

/-- The end of a reply is one of the two bodies. -/
theorem putError_appends {obuf obuf' ibuf' : ZBuf} {ret : EZCRTErr} {bs : List UInt8}
    (hl : obuf.len.toNat ≤ 64) (h : RequestAppends obuf ret ibuf' obuf' bs) :
    ∃ v, putError ret obuf' = some v ∧
      Appends obuf v (if ret ≠ .success then replyErrcode ret else bs) ∧
      v.len.toNat < 2 ^ 31 - 1 := by
  unfold putError
  by_cases hret : ret ≠ .success
  · rw [if_pos hret, if_pos hret]
    have hbs := h.failed hret
    subst hbs
    have hl' := h.appends.len
    rw [List.length_nil, Nat.add_zero] at hl'
    obtain ⟨v, hv, ha⟩ := zipcParsePutReplyErrcode_appends ret
      (show obuf'.len.toNat + 64 < 2 ^ 31 - 1 by omega)
    have h20 := length_replyErrcode_le ret
    have hv' := ha.len
    exact ⟨v, hv, h.appends.trans ha, by omega⟩
  · rw [if_neg hret, if_neg hret]
    exact ⟨obuf', rfl, h.appends, h.lt⟩

/-- What is in the buffer for the reply after a request that asks for one. -/
theorem zipcParseAppDefault_appends (hcall : AppendsOnly call) (module : ZIPCModule F E)
    {ibuf : ZBuf} (obuf : ZBuf) {ch : ZIPCMsgCH} (hch : (zipcParseCommonHdr.run ibuf).1 = some ch)
    (hreq : ch.req = true) :
    ∃ begun v ret ibuf' obuf' bs,
      replyStart ZEIPC_TYPE_DEFAULT ch (zcrtBufClear obuf) = some begun ∧
      zipcParseRequest call module (zipcParseCommonHdr.run ibuf).2 begun =
        some (ret, ibuf', obuf') ∧
      RequestAppends begun ret ibuf' obuf' bs ∧
      zipcParseAppDefault call module ibuf (zcrtBufClear obuf) = some (ret, ibuf', v) ∧
      Appends (zcrtBufClear obuf) v ((zipcHdrBytes ZEIPC_TYPE_DEFAULT 0 ++
        replyCommonhdr ch.sn true) ++ if ret ≠ .success then replyErrcode ret else bs) ∧
      v.len.toNat < 2 ^ 31 - 1 := by
  have heq := zipcParseAppDefault_eq call module ibuf (zcrtBufClear obuf)
  rw [hch] at heq
  dsimp only at heq
  obtain ⟨begun, hbegun, hstart⟩ := replyStart_appends ZEIPC_TYPE_DEFAULT ch obuf
  have h40 := length_replyCommonhdr_le ch.sn true
  have hl := hstart.len
  rw [List.length_append, zipcHdrBytes_length] at hl
  change _ = 0 + _ at hl
  obtain ⟨ret, ibuf', obuf', bs, hr, hra⟩ := zipcParseRequest_appends hcall module
    (zipcParseCommonHdr.run ibuf).2 (show begun.len.toNat ≤ 64 by omega)
  obtain ⟨v, hv, ha, hlt⟩ := putError_appends (by omega) hra
  rw [if_pos hreq, hbegun, Option.bind_some, hr, Option.bind_some, hv, Option.map_some] at heq
  exact ⟨begun, v, ret, ibuf', obuf', bs, hbegun, hr, hra, heq, hstart.trans ha, hlt⟩

/-- The job after the default application left `v` in `obuf`. -/
theorem zipcMsgProcJob_default (module : ZIPCModule F E) (evtMng : Option (ZEvent G P))
    (heap isEventHooked : Bool) {ibuf obuf : ZBuf} (full : Bool) (cb : Option G) (client null : P)
    {r : EZCRTErr × ZBuf × ZBuf}
    (h : zipcParseAppDefault call module ibuf (zcrtBufClear obuf) = some r) :
    zipcMsgProcJob call module evtMng heap isEventHooked ZEIPC_TYPE_DEFAULT ibuf (some obuf) full cb
        client null =
      if r.2.2.len ≠ 0 then
        some { obuf := some (patchPayloadSize r.2.2), queued := !full, evtMng := evtMng,
               isEventHooked := isEventHooked, jobDone := true }
      else
        some { obuf := some r.2.2, queued := false, evtMng := evtMng,
               isEventHooked := isEventHooked, jobDone := true } := by
  unfold zipcMsgProcJob
  dsimp only
  rw [if_neg (by decide)]
  unfold zipcParsePayload
  rw [if_pos rfl, h]
  simp only [Option.bind_eq_bind, Option.bind_some, Option.pure_def]

/-- A payload is answered exactly when its common header is accepted and asks for it, and then by
    the outcome of the request. -/
theorem defaultReplied (hcall : AppendsOnly call) (module : ZIPCModule F E)
    (evtMng : Option (ZEvent G P)) (heap isEventHooked : Bool) (ibuf obuf : ZBuf) (cb : Option G)
    (client null : P) :
    ∃ res, zipcMsgProcJob call module evtMng heap isEventHooked ZEIPC_TYPE_DEFAULT ibuf (some obuf)
        false cb client null = some res ∧
      (res.queued = false ↔ ∀ ch, (zipcParseCommonHdr.run ibuf).1 = some ch → ch.req = false) ∧
      ∀ ch, (zipcParseCommonHdr.run ibuf).1 = some ch → ch.req = true →
        ∃ begun out ret ibuf' obuf' bs,
          replyStart ZEIPC_TYPE_DEFAULT ch (zcrtBufClear obuf) = some begun ∧ res.obuf = some out ∧
          DefaultReply call module (zipcParseCommonHdr.run ibuf).2 begun ch.sn out ret ibuf' obuf'
            bs := by
  have heq := zipcParseAppDefault_eq call module ibuf (zcrtBufClear obuf)
  cases hch : (zipcParseCommonHdr.run ibuf).1 with
  | none =>
      rw [hch] at heq
      refine ⟨_, zipcMsgProcJob_default module evtMng heap isEventHooked false cb client null heq,
        ?_, fun ch he => nomatch he⟩
      exact iff_of_true rfl fun ch he => nomatch he
  | some ch =>
      by_cases hreq : ch.req = true
      · obtain ⟨begun, v, ret, ibuf', obuf', bs, hbegun, hr, hra, hv, ha, hlt⟩ :=
          zipcParseAppDefault_appends hcall module obuf hch hreq
        have hne : v.len ≠ 0 := ha.len_ne_zero (List.cons_ne_nil _ _)
        have hwf := wellFormedReply_of_bytes ha.bytes (by omega)
        have hjob := zipcMsgProcJob_default module evtMng heap isEventHooked false cb client null hv
        rw [if_pos hne] at hjob
        refine ⟨_, hjob, iff_of_false (fun he => nomatch he) ?_, ?_⟩
        · intro hno
          rw [hno ch rfl] at hreq
          exact nomatch hreq
        · intro ch' he _
          obtain rfl := Option.some.inj he
          refine ⟨begun, _, ret, ibuf', obuf', bs, hbegun, rfl, hr, hwf, fun hret => ?_,
            fun hret => ?_⟩
          · have hbody := hwf.body
            rw [if_pos hret] at hbody
            exact readErrcode_of_rest hbody
          · obtain ⟨comp, api, fn, args, htarget, hfn⟩ := zipcParseRequest_success hr hret
            exact ⟨comp, api, fn, args, htarget, hfn, hra.appends⟩
      · rw [hch] at heq
        dsimp only at heq
        rw [if_neg hreq] at heq
        refine ⟨_, zipcMsgProcJob_default module evtMng heap isEventHooked false cb client null heq,
          ?_, fun ch' he h => ?_⟩
        · refine iff_of_true rfl fun ch' he => ?_
          obtain rfl := Option.some.inj he
          exact Bool.eq_false_iff.mpr hreq
        · obtain rfl := Option.some.inj he
          exact absurd h hreq

end Contract

/-- A handler that answers with one `NIL`. -/
def nilHandler (_ : Unit) (_ : ZIPCComp Unit) (ibuf obuf : ZBuf) :
    Option (EZCRTErr × ZBuf × ZBuf) :=
  (ztlvPutType obuf ZTLV_NIL).map fun obuf => (.success, ibuf, obuf)

theorem nilHandler_appendsOnly : AppendsOnly nilHandler := by
  intro fn comp ibuf obuf hl
  obtain ⟨v, hv, ha⟩ := ztlvPutType_appends (v := obuf) ZTLV_NIL (by omega)
  have hlen : v.len.toNat = obuf.len.toNat + 1 := ha.len
  refine ⟨.success, ibuf, v, [ZTLV_NIL], ?_, ha, by omega, fun hne => absurd rfl hne⟩
  unfold nilHandler
  rw [hv]
  rfl

/-- A component "a" with the one action "b". -/
def nilModule : ZIPCModule Unit Unit where
  evtEncode := none
  modlist := some {
    size := 128, count := 1
    index := fun _ => [{
      addr := 1, name := zipcComponentSetlname (cstr "a"), call := none
      apilist := some {
        size := 32, count := 1
        index := fun _ => [{ addr := 2, name := zipcComponentSetlname (cstr "b"), call := some (),
                             apilist := none }] } }] }

/-- `{sn=5, req=true}{1="a", 2="b", 3={}}`. -/
def nilRequest : ZBuf :=
  recycled [2, 0x11, 2, 0x73, 0x6E, 4, 10, 0x11, 3, 0x72, 0x65, 0x71, 3,
    3, 4, 2, 0x11, 1, 0x61, 4, 4, 0x11, 1, 0x62, 4, 6, 0x12, 0] 0

/-- The request that is answered by its handler, with the one byte this appends. -/
theorem defaultReplied_nilRequest :
    ∃ res out ibuf' obuf' begun,
      zipcMsgProcJob nilHandler nilModule (none : Option (ZEvent Unit Unit)) false false
          ZEIPC_TYPE_DEFAULT nilRequest (some (recycled [] 0)) false none () () = some res ∧
        res.obuf = some out ∧
        DefaultReply nilHandler nilModule (zipcParseCommonHdr.run nilRequest).2 begun 5 out .success
          ibuf' obuf' [ZTLV_NIL] := by
  obtain ⟨res, hres, -, hreply⟩ := defaultReplied nilHandler_appendsOnly nilModule
    (none : Option (ZEvent Unit Unit)) false false nilRequest (recycled [] 0) none () ()
  obtain ⟨begun, out, ret, ibuf', obuf', bs, hbegun, hout, hdef⟩ :=
    hreply { sn := 5, req := true, noti := false } (by decide +kernel) rfl
  have hok : (zipcRequestTarget nilModule (zipcParseCommonHdr.run nilRequest).2).1.toBool = true :=
    by decide +kernel
  have hreq := hdef.request
  rw [zipcParseRequest_eq_target] at hreq
  rcases ht : zipcRequestTarget nilModule (zipcParseCommonHdr.run nilRequest).2 with
    ⟨code | ⟨comp, api, fn⟩, args⟩
  · rw [ht] at hok
    exact nomatch hok
  rw [ht] at hreq
  obtain ⟨v, hv, he⟩ := Option.map_eq_some_iff.mp hreq
  obtain ⟨rfl, hbufs⟩ := Prod.mk.inj he
  obtain ⟨-, rfl⟩ := Prod.mk.inj hbufs
  obtain ⟨-, -, -, -, -, -, happ⟩ := hdef.handled rfl
  have hlen : ((replyStart ZEIPC_TYPE_DEFAULT { sn := 5, req := true, noti := false }
      (zcrtBufClear (recycled [] 0))).all fun v => decide (v.len.toNat < 64)) = true := by decide
  rw [hbegun] at hlen
  have hlt : begun.len.toNat < 64 := of_decide_eq_true hlen
  obtain ⟨w, hw, hnil⟩ := ztlvPutType_appends (v := begun) ZTLV_NIL (by omega)
  obtain rfl := Option.some.inj (hv.symm.trans hw)
  have hbs : bs = [ZTLV_NIL] := List.append_cancel_left (happ.bytes.symm.trans hnil.bytes)
  subst hbs
  exact ⟨res, out, ibuf', _, begun, hres, hout, hdef⟩

end Zcrt
