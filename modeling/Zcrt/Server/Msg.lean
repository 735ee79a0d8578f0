/-
  `_zipc_msg_proc_job` of `zipc/zipc_server_os.c`: one received message, and the reply it leads to.

  * `WellFormedReply`: a reply as a client takes it apart.
  * `wellFormedReply_of_bytes`: what was written in order, and then patched, is one.
-/
import Zcrt.Ipc.Link

namespace Zcrt

open Lib

/-- What the job leaves behind: `obuf` (`none` when `zipc_buf_malloc` had none), whether it was
    queued on `respondSch` with `_zipc_buf_send_job`, the event manager, `isEventHooked`, and
    whether `jobcnt` was counted down. -/
structure MsgProc (G P : Type) where
  obuf : Option ZBuf
  queued : Bool
  evtMng : Option (ZEvent G P)
  isEventHooked : Bool
  jobDone : Bool

/-- `rhdr->payloadSize = htonl(obuf->len-ZIPC_HEAD_LEN)`: the four bytes at 6, whatever `len` is. -/
def patchPayloadSize (obuf : ZBuf) : ZBuf :=
  { obuf with buf := obuf.buf.copy 6 (htonl (obuf.len - ZIPC_HEAD_LEN)) }

section Job

variable {F E G P : Type} [DecidableEq G] [DecidableEq P]
  (call : F → ZIPCComp F → ZBuf → ZBuf → Option (EZCRTErr × ZBuf × ZBuf))

/-- `_zipc_msg_proc_job`. `obuf` is what `zipc_buf_malloc` finds before it clears it, `full` the
    answer of `zcrt_schedule_sendjob`, `cb` is `_zipc_hookevent_cb`. -/
def zipcMsgProcJob (module : ZIPCModule F E) (evtMng : Option (ZEvent G P)) (heap : Bool)
    (isEventHooked : Bool) (appType : UInt16) (ibuf : ZBuf) (obuf : Option ZBuf) (full : Bool)
    (cb : Option G) (client null : P) : Option (MsgProc G P) :=
  match obuf with
  | none =>
      some { obuf := none, queued := false, evtMng := evtMng, isEventHooked := isEventHooked,
             jobDone := false }
  | some obuf => do
      let (isEventHooked, obuf, evtMng) ←
        if appType = ZEIPC_TYPE_LINK then do
          let (_, _, obuf, evtMng) ←
            zipcParseAppLink module evtMng heap ibuf (zcrtBufClear obuf) cb client null
          pure (true, obuf, evtMng)
        else do
          let (_, _, obuf) ← zipcParsePayload call module appType ibuf (zcrtBufClear obuf)
          pure (isEventHooked, obuf, evtMng)
      if obuf.len ≠ 0 then
        pure { obuf := some (patchPayloadSize obuf), queued := !full, evtMng := evtMng,
               isEventHooked := isEventHooked, jobDone := true }
      else
        pure { obuf := some obuf, queued := false, evtMng := evtMng,
               isEventHooked := isEventHooked, jobDone := true }

end Job

/-! ## A reply taken apart -/

/-- The message in `obuf`: a header that is accepted, with this `appType` and the size of what
    follows, a common header with this serial number, and `body` at the end. -/
structure WellFormedReply (appType : UInt16) (sn : UInt32) (body : List UInt8) (obuf : ZBuf) :
    Prop where
  len : ZIPC_HEAD_LEN ≤ obuf.len
  check : zipcParseCheckHdr obuf.buf = true
  appType : hdrAppType obuf.buf = appType
  payloadSize : hdrPayloadSize obuf.buf = obuf.len - ZIPC_HEAD_LEN
  header : (zipcParseCommonHdr.run { obuf with offset := ZIPC_HEAD_LEN }).1 =
    some { sn := sn, req := true, noti := false }
  body : (zipcParseCommonHdr.run { obuf with offset := ZIPC_HEAD_LEN }).2.rest = body

/-- A buffer to which something was appended is not empty. -/
theorem Appends.len_ne_zero {v v' : ZBuf} {bs : List UInt8} (h : Appends v v' bs) (hbs : bs ≠ []) :
    v'.len ≠ 0 := by
  intro h0
  have hlen := h.len
  rw [h0] at hlen
  have hpos := List.length_pos_iff.mpr hbs
  change 0 = _ at hlen
  omega

/-- A message written with a size of 0, its size field then patched. -/
theorem patched_of_bytes {v : ZBuf} {appType : UInt16} {payload : List UInt8}
    (h : v.bytes = zipcHdrBytes appType 0 ++ payload) :
    ZIPC_HEAD_LEN ≤ v.len ∧ zipcParseCheckHdr (patchPayloadSize v).buf = true ∧
    hdrAppType (patchPayloadSize v).buf = appType ∧
    hdrPayloadSize (patchPayloadSize v).buf = v.len - ZIPC_HEAD_LEN ∧
    ({ patchPayloadSize v with offset := ZIPC_HEAD_LEN } : ZBuf).rest = payload := by
  have hlen := congrArg List.length h
  rw [ZBuf.bytes_length, List.length_append, zipcHdrBytes_length] at hlen
  have hle : ZIPC_HEAD_LEN ≤ v.len := by
    rw [UInt32.le_iff_toNat_le]
    change 10 ≤ _
    omega
  -- the bytes of the header that the patch leaves, and those behind it
  have hparts : v.buf.slice 0 v.len.toNat = htons zipcSig ++ (htons 0 ++ (htons appType ++
      (htonl 0 ++ payload))) := by
    change v.bytes = _
    rw [h, zipcHdrBytes]
    simp only [List.append_assoc]
  obtain ⟨hsig, h2, -⟩ := Mem.slice_eq_append hparts
  obtain ⟨-, h4, -⟩ := Mem.slice_eq_append h2
  obtain ⟨happ, h6, -⟩ := Mem.slice_eq_append h4
  obtain ⟨-, h10, -⟩ := Mem.slice_eq_append h6
  simp only [htons_length, htonl_length, Nat.zero_add, Nat.reduceAdd] at hsig happ h10
  have hpatch : ∀ i n, (i + n ≤ 6 ∨ 10 ≤ i) →
      (patchPayloadSize v).buf.slice i n = v.buf.slice i n := fun i n hin =>
    Mem.slice_congr fun j hj => Mem.copy_of_outside (by rw [htonl_length]; omega)
  refine ⟨hle, ?_, ?_, ?_, ?_⟩
  · have : hdrSignature (patchPayloadSize v).buf = zipcSig := by
      refine ntohs_of_slice ?_
      rw [hpatch 0 2 (Or.inl (by decide)), hsig]
    unfold zipcParseCheckHdr
    rw [this]
    rfl
  · refine ntohs_of_slice ?_
    rw [Mem.slice_shift, hpatch 4 2 (Or.inl (by decide)), happ]
  · refine ntohl_of_slice ?_
    rw [Mem.slice_shift]
    exact Mem.slice_copy_self _ _ _
  · change (patchPayloadSize v).buf.slice 10 (v.len.toNat - 10) = _
    rw [hpatch _ _ (Or.inr (by decide)), ← h10]
    congr 1

/-- What was written into a cleared buffer, its size field then patched. -/
theorem wellFormedReply_of_bytes {v : ZBuf} {appType : UInt16} {sn : UInt32} {body : List UInt8}
    (h : v.bytes = (zipcHdrBytes appType 0 ++ replyCommonhdr sn true) ++ body)
    (hlt : v.len.toNat < 2 ^ 31) : WellFormedReply appType sn body (patchPayloadSize v) := by
  rw [List.append_assoc] at h
  obtain ⟨hle, hcheck, happ, hsize, hrest⟩ := patched_of_bytes h
  have hrun := zipcParseCommonHdr_of_reply
    (v := { patchPayloadSize v with offset := ZIPC_HEAD_LEN }) hlt sn true hrest
  refine ⟨hle, hcheck, happ, hsize, by rw [hrun], ?_⟩
  rw [hrun]
  exact ZBuf.rest_skip hrest

end Zcrt
