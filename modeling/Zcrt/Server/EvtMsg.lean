/-
  Event messages: what `zipc_encode_event` writes, and what the parser makes of it.

  * `evtHead_appends`: the bytes before those of the encoder.
  * `DecodesBack`: a message taken apart as a receiver does.
  * `LastOf`: what a common header with any entries stands for.
  * `zipcEncodeEvent_decodes`: every event message decodes to what it was made of.
-/
import Zcrt.Server.Msg

namespace Zcrt

open Lib

/-- `zipc_encode_common_hdr`, `sn` what `zcrt_unique_id` returns. -/
def zipcEncodeCommonHdr (buf : ZBuf) (sn : UInt32) (req noti : Bool) : Option ZBuf := do
  let buf ← ztlvPutLen buf 3
  let buf ← ztlvPutLstring buf (some (cstr "sn"))
  let buf ← ztlvPutUint32 buf sn
  let buf ← ztlvPutLstring buf (some (cstr "req"))
  let buf ← ztlvPutBool buf req
  let buf ← ztlvPutLstring buf (some (cstr "noti"))
  ztlvPutBool buf noti

/-- What `zipc_encode_event` writes before it calls the encoder. -/
def evtHead (sn evtid : UInt32) (buf : ZBuf) : Option ZBuf := do
  let buf ← zipcParseInitBuf buf ZEIPC_TYPE_LINK
  let buf ← zipcEncodeCommonHdr buf sn false true
  let buf ← ztlvPutLen buf 2
  let buf ← ztlvPutInt buf 1
  let buf ← ztlvPutUint32 buf evtid
  ztlvPutInt buf 2

section Encode

variable {F E D : Type} (encode : E → UInt32 → D → ZBuf → Option (EZCRTErr × ZBuf))

/-- `zipc_server_get_event_encode` -/
def zipcServerGetEventEncode (module : Option (ZIPCModule F E)) : Option E :=
  module.bind ZIPCModule.evtEncode

/-- `zipc_encode_event`. `encode` calls an encoder, and is `none` when that never returns. -/
def zipcEncodeEvent (module : Option (ZIPCModule F E)) (sn evtid : UInt32) (evtdata : D)
    (buf : ZBuf) : Option (EZCRTErr × ZBuf) :=
  match zipcServerGetEventEncode module with
  | none => some (.ipcNotSupport, buf)
  | some fn => do
      let buf ← evtHead sn evtid buf
      let (ret, buf) ← encode fn evtid evtdata buf
      if ret = .success then pure (.success, patchPayloadSize buf) else pure (.ipcNotSupport, buf)

end Encode

/-! ## What is written -/

/-- The entries of the common header of an event. -/
def evtEntries (sn : UInt32) : List HdrEntry := [replySn sn, .req false, .noti true]

/-- The payload of an event message before the bytes of the encoder. -/
def evtPayload (sn evtid : UInt32) : List UInt8 :=
  Leb128.encode 3 ++ (hdrEntries (evtEntries sn) ++
    (Leb128.encode 2 ++ (tlvInt 1 ++ (tlvUint32 evtid ++ tlvInt 2))))

theorem zipcEncodeCommonHdr_appends {buf : ZBuf} (sn : UInt32)
    (h : buf.len.toNat + 64 < 2 ^ 31 - 1) :
    ∃ v, zipcEncodeCommonHdr buf sn false true = some v ∧
      Appends buf v (Leb128.encode 3 ++ hdrEntries (evtEntries sn)) := by
  have hbytes : Leb128.encode 3 ++ hdrEntries (evtEntries sn) =
      Leb128.encode (3 : UInt32).toNat ++ (tlvStr (cstr "sn") ++ (tlvUint32 sn ++
        (tlvStr (cstr "req") ++ ([ZTLV_FALSE] ++ (tlvStr (cstr "noti") ++ [ZTLV_TRUE]))))) := by
    rw [evtEntries, hdrEntries_cons, hdrEntries_cons, hdrEntries_cons, hdrEntries_nil,
      replySn_encode]
    simp only [HdrEntry.encode, List.append_assoc, List.append_nil]
    rfl
  have h1 : (Leb128.encode (3 : UInt32).toNat).length ≤ 5 := length_encode32 3
  have h2 : (tlvStr (cstr "sn")).length ≤ 8 := length_tlvStr_le (by decide)
  have h3 := length_tlvUint32_le sn
  have h4 : (tlvStr (cstr "req")).length ≤ 9 := length_tlvStr_le (by decide)
  have h5 : (tlvStr (cstr "noti")).length ≤ 10 := length_tlvStr_le (by decide)
  rw [hbytes]
  refine bind_appends (ztlvPutLen_appends 3 (by omega)) fun v1 a1 => ?_
  have l1 := a1.len
  refine bind_appends (ztlvPutLstring_appends _ (by change _ + 2 + 6 < _; omega)) fun v2 a2 => ?_
  have l2 := a2.len
  refine bind_appends (ztlvPutUint32_appends sn (by omega)) fun v3 a3 => ?_
  have l3 := a3.len
  refine bind_appends (ztlvPutLstring_appends _ (by change _ + 3 + 6 < _; omega)) fun v4 a4 => ?_
  have l4 := a4.len
  refine bind_appends (ztlvPutBool_appends false (by omega)) fun v5 a5 => ?_
  have l5 := a5.len
  rw [List.length_singleton] at l5
  refine bind_appends (ztlvPutLstring_appends _ (by change _ + 4 + 6 < _; omega)) fun v6 a6 => ?_
  have l6 := a6.len
  exact ztlvPutBool_appends true (by omega)

theorem evtHead_appends (sn evtid : UInt32) (buf : ZBuf) :
    ∃ v, evtHead sn evtid (zcrtBufClear buf) = some v ∧
      Appends (zcrtBufClear buf) v (zipcHdrBytes ZEIPC_TYPE_LINK 0 ++ evtPayload sn evtid) := by
  have hbytes : evtPayload sn evtid = (Leb128.encode 3 ++ hdrEntries (evtEntries sn)) ++
      (Leb128.encode (2 : UInt32).toNat ++ (tlvInt 1 ++ (tlvUint32 evtid ++ tlvInt 2))) := by
    rw [List.append_assoc]
    rfl
  have h0 : (zcrtBufClear buf).len.toNat + 10 < 2 ^ 31 - 1 := by
    change 0 + 10 < _
    decide
  have hhdr : (Leb128.encode 3 ++ hdrEntries (evtEntries sn)).length ≤ 100 := by
    have h1 : (Leb128.encode 3).length ≤ 5 := length_encode32 3
    have h2 : (tlvStr (cstr "sn")).length ≤ 8 := length_tlvStr_le (by decide)
    have h3 := length_tlvUint32_le sn
    have h4 : (tlvStr (cstr "req")).length ≤ 9 := length_tlvStr_le (by decide)
    have h5 : (tlvStr (cstr "noti")).length ≤ 10 := length_tlvStr_le (by decide)
    rw [evtEntries, hdrEntries_cons, hdrEntries_cons, hdrEntries_cons, hdrEntries_nil,
      replySn_encode]
    simp only [HdrEntry.encode, List.length_append, List.length_singleton, List.length_nil]
    omega
  have h6 : (Leb128.encode (2 : UInt32).toNat).length ≤ 5 := length_encode32 2
  have h7 := length_tlvInt_le 1
  have h8 := length_tlvUint32_le evtid
  rw [hbytes]
  refine bind_appends (zipcParseInitBuf_appends ZEIPC_TYPE_LINK h0) fun v1 a1 => ?_
  have l1 : v1.len.toNat = 10 := a1.len
  refine bind_appends (zipcEncodeCommonHdr_appends sn (by omega)) fun v2 a2 => ?_
  have l2 := a2.len
  refine bind_appends (ztlvPutLen_appends 2 (by omega)) fun v3 a3 => ?_
  have l3 := a3.len
  refine bind_appends (ztlvPutInt_appends 1 (by omega)) fun v4 a4 => ?_
  have l4 := a4.len
  refine bind_appends (ztlvPutUint32_appends evtid (by omega)) fun v5 a5 => ?_
  have l5 := a5.len
  exact ztlvPutInt_appends 2 (by omega)

/-! ## What a common header stands for -/

/-- The keys of an entry are those the parser knows. -/
def HdrEntry.Known : HdrEntry → Prop
  | .other _ _ => False
  | _ => True

/-- The serial number an entry gives. -/
def HdrEntry.sn? : HdrEntry → Option UInt32
  | .snInt n => some n.toUInt32
  | .snInt64 n => some n.toInt32.toUInt32
  | _ => none

def HdrEntry.req? : HdrEntry → Option Bool
  | .req b => some b
  | _ => none

def HdrEntry.noti? : HdrEntry → Option Bool
  | .noti b => some b
  | _ => none

/-- The last value given, or `d` when there is none. -/
def lastGiven {α : Type} (key : HdrEntry → Option α) (d : α) (es : List HdrEntry) : α :=
  (es.filterMap key).getLast?.getD d

/-- The last value of each key, 0 when it is omitted. -/
def lastOfEach (es : List HdrEntry) : ZIPCMsgCH where
  sn := lastGiven HdrEntry.sn? 0 es
  req := lastGiven HdrEntry.req? false es
  noti := lastGiven HdrEntry.noti? false es

theorem HdrEntry.Known.ok {e : HdrEntry} (h : e.Known) : e.Ok := by
  intro v r _ _
  cases e with
  | other key val => exact h.elim
  | _ => trivial

theorem lastGiven_append_singleton {α : Type} (key : HdrEntry → Option α) (d : α)
    (es : List HdrEntry) (e : HdrEntry) :
    lastGiven key d (es ++ [e]) = (key e).getD (lastGiven key d es) := by
  unfold lastGiven
  rw [List.filterMap_append]
  cases hk : key e with
  | none => simp [hk]
  | some x => simp [hk]

/-- The entries applied in turn leave the last value of each key. -/
theorem foldl_apply_eq_lastOfEach (es : List HdrEntry) :
    es.foldl HdrEntry.apply ZIPCMsgCH.zero = lastOfEach es := by
  induction es using List.reverseRecOn with
  | nil => rfl
  | append_singleton es e ih =>
      rw [List.foldl_append, ih]
      simp only [lastOfEach, lastGiven_append_singleton]
      cases e <;> rfl

/-! ## Taking it apart -/

/-- What `zipc_parse_common_hdr` makes of a count and that many known entries: the last value of
    each key, the cursor right behind them. -/
def HeaderDecodes (es : List HdrEntry) : Prop :=
  ∀ (v : ZBuf) (r : List UInt8), v.len.toNat < 2 ^ 31 →
    v.rest = Leb128.encode es.length ++ (hdrEntries es ++ r) →
    zipcParseCommonHdr.run v =
      (some (lastOfEach es), v.skip (Leb128.encode es.length ++ hdrEntries es).length)

/-- The message in `buf` is the event `evtid` with these bytes of the encoder: a header that is
    accepted, and a payload that reads so wherever it is received. -/
structure DecodesBack (buf : ZBuf) (sn evtid : UInt32) (bs : List UInt8) : Prop where
  check : zipcParseCheckHdr buf.buf = true
  appType : hdrAppType buf.buf = ZEIPC_TYPE_LINK
  payloadSize : hdrPayloadSize buf.buf = buf.len - ZIPC_HEAD_LEN
  payload : ∀ v : ZBuf, v.len.toNat < 2 ^ 31 →
    v.rest = ({ buf with offset := ZIPC_HEAD_LEN } : ZBuf).rest →
    ∃ v1 v2 v3 v4 v5,
      zipcParseCommonHdr.run v = (some { sn := sn, req := false, noti := true }, v1) ∧
      ztlvGetLen v1 = ((true, 2), v2) ∧ ztlvGetInt v2 = (some 1, v3) ∧
      ztlvGetUint32 v3 = (some evtid, v4) ∧ ztlvGetInt v4 = (some 2, v5) ∧ v5.rest = bs

theorem headerDecodes_of_known {es : List HdrEntry} (h : ∀ e ∈ es, e.Known) :
    HeaderDecodes es := by
  intro v r hlt hr
  have hn : es.length < 2 ^ 32 := by
    have hrest := rest_lt hlt
    have hle := length_le_hdrEntries es
    rw [hr, List.length_append, List.length_append] at hrest
    omega
  rw [zipcParseCommonHdr_of_rest hlt es hn hr fun e he => (h e he).ok, foldl_apply_eq_lastOfEach]

theorem lastOfEach_evtEntries (sn : UInt32) :
    lastOfEach (evtEntries sn) = { sn := sn, req := false, noti := true } := by
  rw [← foldl_apply_eq_lastOfEach, evtEntries, List.foldl_cons, replySn_apply]
  rfl

theorem evtEntries_known {sn : UInt32} : ∀ e ∈ evtEntries sn, e.Known := by
  intro e he
  simp only [evtEntries, List.mem_cons, List.not_mem_nil, or_false] at he
  rcases he with rfl | rfl | rfl
  · unfold replySn
    split <;> trivial
  · trivial
  · trivial

/-- The payload of an event, wherever it is received. -/
theorem evtPayload_decodes {v : ZBuf} {sn evtid : UInt32} {bs : List UInt8}
    (hlt : v.len.toNat < 2 ^ 31) (h : v.rest = evtPayload sn evtid ++ bs) :
    ∃ v1 v2 v3 v4 v5,
      zipcParseCommonHdr.run v = (some { sn := sn, req := false, noti := true }, v1) ∧
      ztlvGetLen v1 = ((true, 2), v2) ∧ ztlvGetInt v2 = (some 1, v3) ∧
      ztlvGetUint32 v3 = (some evtid, v4) ∧ ztlvGetInt v4 = (some 2, v5) ∧ v5.rest = bs := by
  have hparts : v.rest = Leb128.encode (evtEntries sn).length ++ (hdrEntries (evtEntries sn) ++
      (Leb128.encode (2 : UInt32).toNat ++
        (tlvInt 1 ++ (tlvUint32 evtid ++ (tlvInt 2 ++ bs))))) := by
    rw [h, evtPayload]
    simp only [List.append_assoc]
    rfl
  have hrun := headerDecodes_of_known evtEntries_known v _ hlt hparts
  rw [lastOfEach_evtEntries] at hrun
  have h1 := ZBuf.rest_skip ((hparts.trans (List.append_assoc ..).symm))
  have h2 := ZBuf.rest_skip h1
  have h3 := ZBuf.rest_skip h2
  have h4 := ZBuf.rest_skip h3
  exact ⟨_, _, _, _, _, hrun, ztlvGetLen_of_rest h1 (rest_lt (v := v.skip _) hlt),
    ztlvGetInt_of_rest h2 (rest_lt (v := (v.skip _).skip _) hlt),
    ztlvGetUint32_of_rest h3 (rest_lt (v := ((v.skip _).skip _).skip _) hlt),
    ztlvGetInt_of_rest h4 (rest_lt (v := (((v.skip _).skip _).skip _).skip _) hlt),
    ZBuf.rest_skip h4⟩

/-- The message `zipc_encode_event` makes of the encoder's bytes. -/
theorem decodesBack_of_appends {sn evtid : UInt32} {buf0 v v' : ZBuf} {bs : List UInt8}
    (hv : evtHead sn evtid (zcrtBufClear buf0) = some v) (hbs : Appends v v' bs) :
    DecodesBack (patchPayloadSize v') sn evtid bs := by
  obtain ⟨w, hw, happ⟩ := evtHead_appends sn evtid buf0
  obtain rfl := Option.some.inj (hv.symm.trans hw)
  have hbytes : v'.bytes = zipcHdrBytes ZEIPC_TYPE_LINK 0 ++ (evtPayload sn evtid ++ bs) := by
    rw [hbs.bytes, happ.bytes, List.append_assoc, List.append_assoc]
    rfl
  obtain ⟨-, hcheck, htype, hsize, hrest⟩ := patched_of_bytes hbytes
  exact ⟨hcheck, htype, hsize, fun w hw hwr => evtPayload_decodes hw (hwr.trans hrest)⟩

/-- The encoder is called behind the head. When it succeeds, and only then, there is a message,
    which decodes to its serial number, its event and the bytes of the encoder; and each common
    header of known entries decodes to the last value of each key. -/
theorem zipcEncodeEvent_decodes {F E D : Type}
    (encode : E → UInt32 → D → ZBuf → Option (EZCRTErr × ZBuf)) :
    (∀ (module : Option (ZIPCModule F E)) (fn : E), zipcServerGetEventEncode module = some fn →
      ∀ (sn evtid : UInt32) (evtdata : D) (buf0 : ZBuf),
      ∃ v, evtHead sn evtid (zcrtBufClear buf0) = some v ∧
        (∀ v', encode fn evtid evtdata v = some (.success, v') →
          ∃ buf, zipcEncodeEvent encode module sn evtid evtdata (zcrtBufClear buf0) =
              some (.success, buf) ∧
            ∀ bs, Appends v v' bs → DecodesBack buf sn evtid bs) ∧
        ∀ buf, zipcEncodeEvent encode module sn evtid evtdata (zcrtBufClear buf0) =
          some (.success, buf) → ∃ v', encode fn evtid evtdata v = some (.success, v')) ∧
    ∀ es, (∀ e ∈ es, HdrEntry.Known e) → HeaderDecodes es := by
  refine ⟨fun module fn hfn sn evtid evtdata buf0 => ?_, fun es hes => headerDecodes_of_known hes⟩
  obtain ⟨v, hv, -⟩ := evtHead_appends sn evtid buf0
  have heq : zipcEncodeEvent encode module sn evtid evtdata (zcrtBufClear buf0) =
      (encode fn evtid evtdata v).bind fun r =>
        if r.1 = .success then some (.success, patchPayloadSize r.2)
        else some (.ipcNotSupport, r.2) := by
    unfold zipcEncodeEvent
    rw [hfn]
    dsimp only
    rw [hv]
    rfl
  rw [heq]
  refine ⟨v, hv, fun v' henc => ?_, fun buf hbuf => ?_⟩
  · rw [henc, Option.bind_some, if_pos rfl]
    exact ⟨_, rfl, fun bs hbs => decodesBack_of_appends hv hbs⟩
  · obtain ⟨⟨ret, v'⟩, henc, hret⟩ := Option.bind_eq_some_iff.mp hbuf
    dsimp only at hret
    split at hret
    · rename_i hsuccess
      exact ⟨v', hsuccess ▸ henc⟩
    · exact nomatch hret

/-- A module whose encoder appends one byte. -/
def byteModule : ZIPCModule Unit Unit := { evtEncode := some (), modlist := none }

def encodeByte (_ : Unit) (_ : UInt32) (evtdata : UInt8) (buf : ZBuf) : Option (EZCRTErr × ZBuf) :=
  (zcrtBufAppend buf [evtdata]).map fun v => (.success, v)

/-- Event 3 with the byte 9, serial number 2^32 - 1. -/
theorem zipcEncodeEvent_decodes_byte : ∃ buf,
    zipcEncodeEvent encodeByte (some byteModule) 4294967295 3 9 (zcrtBufClear (recycled [] 0)) =
      some (.success, buf) ∧ DecodesBack buf 4294967295 3 [9] ∧
    HeaderDecodes [.req true, .snInt 5, .req false] := by
  have hall := zipcEncodeEvent_decodes (F := Unit) encodeByte
  obtain ⟨v, hv, hsuccess, -⟩ :=
    hall.1 (some byteModule) () rfl 4294967295 3 9 (recycled [] 0)
  have hlen : (evtHead 4294967295 3 (zcrtBufClear (recycled [] 0))).all fun v =>
      v.len.toNat + 1 < 2 ^ 31 - 1 := by decide
  rw [hv] at hlen
  obtain ⟨w, hw, happ⟩ : ∃ w, zcrtBufAppend v [9] = some w ∧ Appends v w [9] :=
    zcrtBufAppend_appends (of_decide_eq_true hlen)
  have henc : encodeByte () 3 9 v = some (.success, w) := by
    rw [encodeByte, hw]
    rfl
  obtain ⟨buf, hbuf, hbs⟩ := hsuccess w henc
  exact ⟨buf, hbuf, hbs [9] happ, hall.2 _ (by simp [HdrEntry.Known])⟩

end Zcrt
