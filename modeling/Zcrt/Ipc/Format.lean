/-
  The pieces of an IPC message (`zipc/zipc_parse.c`): the packed header, the common header and the
  two reply bodies, as they are written and as they are parsed.

  * `zipcParsePutReplyCommonhdr_appends`, `zipcParseCommonHdr_of_reply`: the reply's common header
    and what the parser makes of it.
  * `zipcParsePutReplyErrcode_appends`: the body `{err=code}`.
-/
import Zcrt.Core.Str
import Zcrt.Tlv.Prog

namespace Zcrt

open Lib

/-! ## The message header -/

def ZEIPC_TYPE_DEFAULT : UInt16 := 0
def ZEIPC_TYPE_LINK : UInt16 := 1

/-- `s_zipc_sig`: `('G'<<8)+'L'`. -/
def zipcSig : UInt16 := 0x474C

/-- `ZIPC_HEAD_LEN`: the packed `ZIPCMsgHdr` of signature, version, appType and payloadSize. -/
def ZIPC_HEAD_LEN : UInt32 := 10

/-- `ZIPC_BUF_LEN`. -/
def ZIPC_BUF_LEN : UInt32 := 1024 * 8

/-- `ntohs(hdr->signature)`, with the header at `hdr`. -/
def hdrSignature (hdr : Mem) : UInt16 := ntohs hdr

/-- `ntohs(hdr->appType)`. -/
def hdrAppType (hdr : Mem) : UInt16 := ntohs (hdr.shift 4)

/-- `ntohl(hdr->payloadSize)`. -/
def hdrPayloadSize (hdr : Mem) : UInt32 := ntohl (hdr.shift 6)

/-- `zipc_parse_check_hdr`. -/
def zipcParseCheckHdr (hdr : Mem) : Bool := hdrSignature hdr == zipcSig

/-- The bytes of a header. -/
def zipcHdrBytes (appType : UInt16) (payloadSize : UInt32) : List UInt8 :=
  htons zipcSig ++ htons 0 ++ htons appType ++ htonl payloadSize

/-- `zipc_parse_init_buf`. -/
def zipcParseInitBuf (buf : ZBuf) (appType : UInt16) : Option ZBuf :=
  zcrtBufAppend { buf with offset := 0 } (zipcHdrBytes appType 0)

/-! ## The common header -/

/-- `ZIPCMsgCH`. -/
structure ZIPCMsgCH where
  sn : UInt32
  req : Bool
  noti : Bool
deriving DecidableEq

/-- The loop of `zipc_parse_common_hdr` over the `n` entries left. -/
def commonHdrLoop : Nat → ZIPCMsgCH → TlvProg (Option ZIPCMsgCH)
  | 0, ch => pure (some ch)
  | n + 1, ch => do
      match ← TlvProg.getString with
      | none => pure none
      | some key =>
          if zstrBufCmp key (cstr "sn") = 0 then
            match ← TlvProg.getInt with
            | none => pure none
            | some sn => commonHdrLoop n { ch with sn := sn.toUInt32 }
          else if zstrBufCmp key (cstr "req") = 0 then
            match ← TlvProg.getBool with
            | none => pure none
            | some req => commonHdrLoop n { ch with req := req }
          else if zstrBufCmp key (cstr "noti") = 0 then
            match ← TlvProg.getBool with
            | none => pure none
            | some noti => commonHdrLoop n { ch with noti := noti }
          else
            let _ ← TlvProg.getIgnore
            commonHdrLoop n ch

/-- `zipc_parse_common_hdr`; `none` when it returns `false`. -/
def zipcParseCommonHdr : TlvProg (Option ZIPCMsgCH) := do
  let (ok, cnt) ← TlvProg.getLen
  if ok then commonHdrLoop cnt.toNat { sn := 0, req := false, noti := false } else pure none

/-- `zipc_parse_put_reply_commonhdr`. -/
def zipcParsePutReplyCommonhdr (buf : ZBuf) (ch : ZIPCMsgCH) (req : Bool) : Option ZBuf := do
  let buf ← ztlvPutLen buf 2
  let buf ← ztlvPutLstring buf (some (cstr "sn"))
  let buf ← ztlvPutUint32 buf ch.sn
  let buf ← ztlvPutLstring buf (some (cstr "req"))
  ztlvPutBool buf req

/-- The header and common header a reply starts with. -/
def replyStart (appType : UInt16) (ch : ZIPCMsgCH) (obuf : ZBuf) : Option ZBuf :=
  (zipcParseInitBuf obuf appType).bind (zipcParsePutReplyCommonhdr · ch true)

/-! ## Reply bodies -/

/-- `zipc_parse_put_reply_errcode`. -/
def zipcParsePutReplyErrcode (buf : ZBuf) (err : EZCRTErr) : Option ZBuf := do
  let buf ← ztlvPutLen buf 1
  let buf ← ztlvPutLstring buf (some (cstr "err"))
  ztlvPutInt buf err

/-- `zipc_parse_put_reply_req_result`. -/
def zipcParsePutReplyReqResult (buf : ZBuf) (cnt : UInt32) : Option ZBuf := do
  let buf ← ztlvPutLen buf 1
  let buf ← ztlvPutLstring buf (some (cstr "ret"))
  ztlvPutTableCnt buf cnt

/-! ## What is written -/

/-- The reply's common header `{sn=sn, req=req}`. -/
def replyCommonhdr (sn : UInt32) (req : Bool) : List UInt8 :=
  Leb128.encode 2 ++ (tlvStr (cstr "sn") ++ (tlvUint32 sn ++
    (tlvStr (cstr "req") ++ [if req then ZTLV_TRUE else ZTLV_FALSE])))

/-- The body `{err=err}`. -/
def replyErrcode (err : EZCRTErr) : List UInt8 :=
  Leb128.encode 1 ++ (tlvStr (cstr "err") ++ tlvInt err)

/-- The start of the body `{ret={…}}`. -/
def replyReqResult (cnt : UInt32) : List UInt8 :=
  Leb128.encode 1 ++ (tlvStr (cstr "ret") ++ tlvTable cnt)

@[simp] theorem zipcHdrBytes_length (appType : UInt16) (payloadSize : UInt32) :
    (zipcHdrBytes appType payloadSize).length = 10 := rfl

theorem length_tlvStr_le {bs : List UInt8} (h : bs.length < 2 ^ 32) :
    (tlvStr bs).length ≤ bs.length + 6 := by
  have := Leb128.length_encode_le (n := bs.length) (k := 5) (by decide) (by omega)
  rw [tlvStr, List.length_cons, List.length_append]
  omega

theorem length_tlvInt_le (n : Int32) : (tlvInt n).length ≤ 6 :=
  Nat.succ_le_succ (length_encode32 _)

theorem length_tlvUint32_le (n : UInt32) : (tlvUint32 n).length ≤ 11 := by
  unfold tlvUint32
  split
  · exact (length_tlvInt_le _).trans (by decide)
  · exact Nat.succ_le_succ (length_encode64 _)

theorem length_tlvTable_le (n : UInt32) : (tlvTable n).length ≤ 6 :=
  Nat.succ_le_succ (length_encode32 _)

theorem length_replyCommonhdr_le (sn : UInt32) (req : Bool) :
    (replyCommonhdr sn req).length ≤ 40 := by
  have h1 : (Leb128.encode 2).length ≤ 5 := length_encode32 2
  have h2 : (tlvStr (cstr "sn")).length ≤ 8 := length_tlvStr_le (by decide)
  have h3 := length_tlvUint32_le sn
  have h4 : (tlvStr (cstr "req")).length ≤ 9 := length_tlvStr_le (by decide)
  simp only [replyCommonhdr, List.length_append, List.length_singleton]
  omega

theorem length_replyErrcode_le (err : EZCRTErr) : (replyErrcode err).length ≤ 20 := by
  have h1 : (Leb128.encode 1).length ≤ 5 := length_encode32 1
  have h2 : (tlvStr (cstr "err")).length ≤ 9 := length_tlvStr_le (by decide)
  have h3 := length_tlvInt_le err
  simp only [replyErrcode, List.length_append]
  omega

theorem length_replyReqResult_le (cnt : UInt32) : (replyReqResult cnt).length ≤ 20 := by
  have h1 : (Leb128.encode 1).length ≤ 5 := length_encode32 1
  have h2 : (tlvStr (cstr "ret")).length ≤ 9 := length_tlvStr_le (by decide)
  have h3 := length_tlvTable_le cnt
  simp only [replyReqResult, List.length_append]
  omega

theorem zipcParseInitBuf_appends {buf : ZBuf} (appType : UInt16)
    (h : buf.len.toNat + 10 < 2 ^ 31 - 1) :
    ∃ v, zipcParseInitBuf buf appType = some v ∧
      Appends { buf with offset := 0 } v (zipcHdrBytes appType 0) :=
  zcrtBufAppend_appends h

theorem zipcParsePutReplyCommonhdr_appends {buf : ZBuf} (ch : ZIPCMsgCH) (req : Bool)
    (h : buf.len.toNat + 64 < 2 ^ 31 - 1) :
    ∃ v, zipcParsePutReplyCommonhdr buf ch req = some v ∧
      Appends buf v (replyCommonhdr ch.sn req) := by
  have h1 : (Leb128.encode 2).length ≤ 5 := length_encode32 2
  have h2 : (tlvStr (cstr "sn")).length ≤ 8 := length_tlvStr_le (by decide)
  have h3 := length_tlvUint32_le ch.sn
  have h4 : (tlvStr (cstr "req")).length ≤ 9 := length_tlvStr_le (by decide)
  refine bind_appends (ztlvPutLen_appends 2 (by omega)) fun v1 a1 => ?_
  have l1 := a1.len
  refine bind_appends (ztlvPutLstring_appends _ (by change _ + 2 + 6 < _; omega)) fun v2 a2 => ?_
  have l2 := a2.len
  refine bind_appends (ztlvPutUint32_appends ch.sn (by omega)) fun v3 a3 => ?_
  have l3 := a3.len
  refine bind_appends (ztlvPutLstring_appends _ (by change _ + 3 + 6 < _; omega)) fun v4 a4 => ?_
  have l4 := a4.len
  exact ztlvPutBool_appends req (by omega)

/-- The start of a reply in a cleared buffer. -/
theorem replyStart_appends (appType : UInt16) (ch : ZIPCMsgCH) (obuf : ZBuf) :
    ∃ v, replyStart appType ch (zcrtBufClear obuf) = some v ∧
      Appends (zcrtBufClear obuf) v (zipcHdrBytes appType 0 ++ replyCommonhdr ch.sn true) := by
  have h0 : (zcrtBufClear obuf).len.toNat + 10 < 2 ^ 31 - 1 := by
    change 0 + 10 < _
    decide
  refine bind_appends (zipcParseInitBuf_appends appType h0) fun v1 a1 => ?_
  have l1 : v1.len.toNat = 10 := a1.len
  exact zipcParsePutReplyCommonhdr_appends ch true (by omega)

/-- A count of one, a key and what comes under it. -/
theorem putBody_appends {buf : ZBuf} {key b : List UInt8} {f : ZBuf → Option ZBuf}
    (hk : key.length ≤ 32) (h : buf.len.toNat + 64 < 2 ^ 31 - 1)
    (hf : ∀ v : ZBuf, v.len.toNat + 6 < 2 ^ 31 - 1 → ∃ v', f v = some v' ∧ Appends v v' b) :
    ∃ v, (do let buf ← ztlvPutLen buf 1; let buf ← ztlvPutLstring buf (some key); f buf) = some v ∧
      Appends buf v (Leb128.encode 1 ++ (tlvStr key ++ b)) := by
  have h1 : (Leb128.encode 1).length ≤ 5 := length_encode32 1
  have h2 := length_tlvStr_le (show key.length < 2 ^ 32 by omega)
  refine bind_appends (ztlvPutLen_appends 1 (by omega)) fun v1 a1 => ?_
  have l1 := a1.len
  refine bind_appends (ztlvPutLstring_appends _ (by omega)) fun v2 a2 => ?_
  have l2 := a2.len
  exact hf v2 (by omega)

theorem zipcParsePutReplyErrcode_appends {buf : ZBuf} (err : EZCRTErr)
    (h : buf.len.toNat + 64 < 2 ^ 31 - 1) :
    ∃ v, zipcParsePutReplyErrcode buf err = some v ∧ Appends buf v (replyErrcode err) :=
  putBody_appends (by decide) h fun _ hv => ztlvPutInt_appends err hv

theorem zipcParsePutReplyReqResult_appends {buf : ZBuf} (cnt : UInt32)
    (h : buf.len.toNat + 64 < 2 ^ 31 - 1) :
    ∃ v, zipcParsePutReplyReqResult buf cnt = some v ∧ Appends buf v (replyReqResult cnt) :=
  putBody_appends (by decide) h fun _ hv => ztlvPutTableCnt_appends cnt hv

end Zcrt
