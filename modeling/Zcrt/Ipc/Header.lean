/-
  Common headers entry by entry: the loop of `zipc_parse_common_hdr` on a count and a list of
  entries, known ones in any order and number, and entries with other keys.

  * `commonHdrLoop_entry`: one turn on one entry; `commonHdrLoop_entries`: a whole list.
  * `zipcParseCommonHdr_skips`: exactly when a value under an unknown key is skipped, in the buffer
    and in every header it is put into.
-/
import Zcrt.Ipc.Format
import Zcrt.Tlv.Ignore

namespace Zcrt

open Lib

/-- The keys the parser knows. -/
def headerKeys : List (List UInt8) := [cstr "sn", cstr "req", cstr "noti"]

/-- An entry of a common header. The serial number may come as either integer. -/
inductive HdrEntry
  | snInt (n : Int32)
  | snInt64 (n : Int64)
  | req (b : Bool)
  | noti (b : Bool)
  | other (key : List UInt8) (val : TlvVal)

namespace HdrEntry

/-- The bytes of an entry. -/
def encode : HdrEntry → List UInt8
  | snInt n => tlvStr (cstr "sn") ++ tlvInt n
  | snInt64 n => tlvStr (cstr "sn") ++ tlvInt64 n
  | req b => tlvStr (cstr "req") ++ [if b then ZTLV_TRUE else ZTLV_FALSE]
  | noti b => tlvStr (cstr "noti") ++ [if b then ZTLV_TRUE else ZTLV_FALSE]
  | other key val => tlvStr key ++ val.encode

/-- What an entry sets. -/
def apply (ch : ZIPCMsgCH) : HdrEntry → ZIPCMsgCH
  | snInt n => { ch with sn := n.toUInt32 }
  | snInt64 n => { ch with sn := n.toInt32.toUInt32 }
  | req b => { ch with req := b }
  | noti b => { ch with noti := b }
  | other _ _ => ch

/-- The entry at the cursor of `v`, with `r` behind it, is read as it was meant. -/
def OkAt (v : ZBuf) (r : List UInt8) : HdrEntry → Prop
  | other key val => key ∉ headerKeys ∧ SkipOk (v.skip (tlvStr key).length) r val
  | _ => True

/-- The entry is read as it was meant wherever it stands. -/
def Ok (e : HdrEntry) : Prop :=
  ∀ (v : ZBuf) (r : List UInt8), v.len.toNat < 2 ^ 31 → v.rest = e.encode ++ r → e.OkAt v r

end HdrEntry

/-- The bytes of a list of entries. -/
def hdrEntries (es : List HdrEntry) : List UInt8 := es.flatMap HdrEntry.encode

@[simp] theorem hdrEntries_append (es es' : List HdrEntry) :
    hdrEntries (es ++ es') = hdrEntries es ++ hdrEntries es' := List.flatMap_append

@[simp] theorem hdrEntries_nil : hdrEntries [] = [] := rfl

@[simp] theorem hdrEntries_cons (e : HdrEntry) (es : List HdrEntry) :
    hdrEntries (e :: es) = e.encode ++ hdrEntries es := rfl

/-- The header before its entries. -/
def ZIPCMsgCH.zero : ZIPCMsgCH := { sn := 0, req := false, noti := false }

/-- A key that is not one of the three compares unequal to each. -/
theorem key_not_mem {key : List UInt8} (hk : key ∉ headerKeys) (hl : key.length < 2 ^ 32) :
    zstrBufCmp key (cstr "sn") ≠ 0 ∧ zstrBufCmp key (cstr "req") ≠ 0 ∧
      zstrBufCmp key (cstr "noti") ≠ 0 := by
  simp only [headerKeys, List.mem_cons, List.not_mem_nil, or_false, not_or] at hk
  obtain ⟨h1, h2, h3⟩ := hk
  refine ⟨fun h => h1 ?_, fun h => h2 ?_, fun h => h3 ?_⟩
  · exact (zstrBufCmp_eq_zero hl (by decide) (by decide)).mp h
  · exact (zstrBufCmp_eq_zero hl (by decide) (by decide)).mp h
  · exact (zstrBufCmp_eq_zero hl (by decide) (by decide)).mp h

section Loop

variable {v : ZBuf} {r : List UInt8} (hlt : v.len.toNat < 2 ^ 31)
include hlt

/-- A string at the cursor, as programs see it. -/
theorem run_getString_of_rest {bs : List UInt8} (h : v.rest = tlvStr bs ++ r) :
    TlvProg.getString.run v = (some bs, v.skip (tlvStr bs).length) := by
  obtain ⟨s, hs, hb⟩ := ztlvGetString_of_rest h (rest_lt hlt)
  rw [TlvProg.run_getString, hs, Option.map_some, hb]

theorem commonHdrLoop_entry {e : HdrEntry} (n : Nat) (ch : ZIPCMsgCH)
    (h : v.rest = e.encode ++ r) (hok : e.OkAt v r) :
    (commonHdrLoop (n + 1) ch).run v =
      (commonHdrLoop n (e.apply ch)).run (v.skip e.encode.length) := by
  rw [commonHdrLoop, TlvProg.run_bind]
  cases e with
  | snInt n =>
      rw [HdrEntry.encode, List.append_assoc] at h
      have h1 := ZBuf.rest_skip h
      rw [run_getString_of_rest hlt h]
      dsimp only
      rw [if_pos (by decide), TlvProg.run_bind, TlvProg.run_getInt,
        ztlvGetInt_of_rest h1 (rest_lt (v := v.skip _) hlt), ZBuf.skip_skip, ← List.length_append]
      rfl
  | snInt64 n =>
      rw [HdrEntry.encode, List.append_assoc] at h
      have h1 := ZBuf.rest_skip h
      rw [run_getString_of_rest hlt h]
      dsimp only
      rw [if_pos (by decide), TlvProg.run_bind, TlvProg.run_getInt,
        ztlvGetInt_of_rest_int64 h1 (rest_lt (v := v.skip _) hlt), ZBuf.skip_skip,
        ← List.length_append]
      rfl
  | req b =>
      rw [HdrEntry.encode, List.append_assoc] at h
      have h1 := ZBuf.rest_skip h
      rw [run_getString_of_rest hlt h]
      dsimp only
      rw [if_neg (by decide), if_pos (by decide), TlvProg.run_bind, TlvProg.run_getBool,
        ztlvGetBool_of_rest h1, ZBuf.skip_skip, HdrEntry.encode, List.length_append]
      rfl
  | noti b =>
      rw [HdrEntry.encode, List.append_assoc] at h
      have h1 := ZBuf.rest_skip h
      rw [run_getString_of_rest hlt h]
      dsimp only
      rw [if_neg (by decide), if_neg (by decide), if_pos (by decide), TlvProg.run_bind,
        TlvProg.run_getBool, ztlvGetBool_of_rest h1, ZBuf.skip_skip, HdrEntry.encode,
        List.length_append]
      rfl
  | other key val =>
      rw [HdrEntry.encode, List.append_assoc] at h
      have h1 := ZBuf.rest_skip h
      obtain ⟨hkey, hskip⟩ := hok
      have hl : key.length < 2 ^ 32 := by
        have hrest := rest_lt hlt
        rw [h, tlvStr, List.length_append, List.length_cons, List.length_append] at hrest
        omega
      obtain ⟨k1, k2, k3⟩ := key_not_mem hkey hl
      have hexact := (ztlvGetIgnore_exact (v := v.skip (tlvStr key).length) hlt h1).mpr hskip
      rw [run_getString_of_rest hlt h]
      dsimp only
      rw [if_neg k1, if_neg k2, if_neg k3, TlvProg.run_bind, TlvProg.run_getIgnore, hexact,
        ZBuf.skip_skip, ← List.length_append]
      rfl

/-- A list of entries: by induction, the cursor moving over one entry at a time. -/
theorem commonHdrLoop_entries (es : List HdrEntry) (n : Nat) (ch : ZIPCMsgCH)
    (h : v.rest = hdrEntries es ++ r) (hok : ∀ e ∈ es, e.Ok) :
    (commonHdrLoop (es.length + n) ch).run v =
      (commonHdrLoop n (es.foldl HdrEntry.apply ch)).run (v.skip (hdrEntries es).length) := by
  induction es generalizing v ch with
  | nil => simp [hdrEntries]
  | cons e es ih =>
      rw [hdrEntries_cons, List.append_assoc] at h
      have h1 := ZBuf.rest_skip h
      have hat : e.OkAt v (hdrEntries es ++ r) := hok e List.mem_cons_self v _ hlt h
      rw [List.length_cons, Nat.add_right_comm, commonHdrLoop_entry hlt _ ch h hat,
        ih (v := v.skip e.encode.length) hlt (e.apply ch) h1
          fun e he => hok e (List.mem_cons_of_mem _ he),
        ZBuf.skip_skip, hdrEntries_cons, List.length_append, List.foldl_cons]

theorem commonHdrLoop_all (es : List HdrEntry) (ch : ZIPCMsgCH)
    (h : v.rest = hdrEntries es ++ r) (hok : ∀ e ∈ es, e.Ok) :
    (commonHdrLoop es.length ch).run v =
      (some (es.foldl HdrEntry.apply ch), v.skip (hdrEntries es).length) := by
  have hloop := commonHdrLoop_entries hlt es 0 ch h hok
  rwa [Nat.add_zero] at hloop

/-- The count, then the loop. -/
theorem zipcParseCommonHdr_count {n : Nat} (hn : n < 2 ^ 32)
    (h : v.rest = Leb128.encode n ++ r) :
    zipcParseCommonHdr.run v =
      (commonHdrLoop n ZIPCMsgCH.zero).run (v.skip (Leb128.encode n).length) := by
  have hn' : (UInt32.ofNat n).toNat = n := by rw [UInt32.toNat_ofNat', Nat.mod_eq_of_lt hn]
  have hget := ztlvGetLen_of_rest
    (show v.rest = Leb128.encode (UInt32.ofNat n).toNat ++ r by rw [hn']; exact h) (rest_lt hlt)
  unfold zipcParseCommonHdr
  rw [TlvProg.run_bind, TlvProg.run_getLen, hget]
  dsimp only
  rw [if_pos rfl, hn']
  rfl

/-- A whole header. -/
theorem zipcParseCommonHdr_of_rest (es : List HdrEntry) (hn : es.length < 2 ^ 32)
    (h : v.rest = Leb128.encode es.length ++ (hdrEntries es ++ r)) (hok : ∀ e ∈ es, e.Ok) :
    zipcParseCommonHdr.run v = (some (es.foldl HdrEntry.apply ZIPCMsgCH.zero),
      v.skip (Leb128.encode es.length ++ hdrEntries es).length) := by
  rw [zipcParseCommonHdr_count hlt hn h,
    commonHdrLoop_all (v := v.skip (Leb128.encode es.length).length) hlt es ZIPCMsgCH.zero
      (ZBuf.rest_skip h) hok, ZBuf.skip_skip, List.length_append]

/-- A whole header, one of its entries only known to be read right where it stands. -/
theorem zipcParseCommonHdr_of_rest_at (es es' : List HdrEntry) (e : HdrEntry)
    (hn : es.length + (es'.length + 1) < 2 ^ 32)
    (h : v.rest = Leb128.encode (es.length + (es'.length + 1)) ++
      (hdrEntries es ++ (e.encode ++ (hdrEntries es' ++ r))))
    (hes : ∀ e ∈ es, e.Ok) (hes' : ∀ e ∈ es', e.Ok)
    (hat : e.OkAt (v.skip (Leb128.encode (es.length + (es'.length + 1)) ++ hdrEntries es).length)
      (hdrEntries es' ++ r)) :
    zipcParseCommonHdr.run v =
      (some (es'.foldl HdrEntry.apply (e.apply (es.foldl HdrEntry.apply ZIPCMsgCH.zero))),
        v.skip ((Leb128.encode (es.length + (es'.length + 1)) ++ hdrEntries es) ++
          (e.encode ++ hdrEntries es')).length) := by
  have h1 := ZBuf.rest_skip h
  have h2 := ZBuf.rest_skip h1
  rw [ZBuf.skip_skip, ← List.length_append] at h2
  have h3 := ZBuf.rest_skip h2
  rw [zipcParseCommonHdr_count hlt hn h, commonHdrLoop_entries (v := v.skip _) hlt es _ _ h1 hes,
    ZBuf.skip_skip, ← List.length_append, commonHdrLoop_entry (v := v.skip _) hlt _ _ h2 hat,
    commonHdrLoop_all (v := (v.skip _).skip _) hlt es' _ h3 hes', ZBuf.skip_skip, ZBuf.skip_skip]
  simp only [List.length_append, Nat.add_assoc]

/-- The entry a reply's serial number is written as. -/
def replySn (sn : UInt32) : HdrEntry :=
  if ztlvValIsInt32 sn.toUInt64.toInt64 then .snInt sn.toInt32 else .snInt64 sn.toUInt64.toInt64

omit hlt in
theorem replySn_encode (sn : UInt32) :
    (replySn sn).encode = tlvStr (cstr "sn") ++ tlvUint32 sn := by
  unfold replySn tlvUint32
  split <;> rfl

omit hlt in
theorem replySn_apply (sn : UInt32) (ch : ZIPCMsgCH) :
    (replySn sn).apply ch = { ch with sn := sn } := by
  unfold replySn
  split
  · rfl
  · have : sn.toUInt64.toInt64.toInt32.toUInt32 = sn := uint32_of_int64 sn
    rw [HdrEntry.apply, this]

omit hlt in
theorem replySn_ok (sn : UInt32) : (replySn sn).Ok := by
  intro v r _ _
  unfold replySn
  split <;> trivial

/-- The common header of a reply is parsed to the serial number it was given. -/
theorem zipcParseCommonHdr_of_reply (sn : UInt32) (req : Bool)
    (h : v.rest = replyCommonhdr sn req ++ r) :
    zipcParseCommonHdr.run v =
      (some { sn := sn, req := req, noti := false }, v.skip (replyCommonhdr sn req).length) := by
  have hbytes : replyCommonhdr sn req = Leb128.encode 2 ++ hdrEntries [replySn sn, .req req] := by
    rw [hdrEntries_cons, hdrEntries_cons, hdrEntries_nil, List.append_nil, replySn_encode,
      List.append_assoc]
    rfl
  have hrun := zipcParseCommonHdr_of_rest hlt [replySn sn, .req req] (r := r) (by simp)
    (by rw [h, hbytes, List.append_assoc]; rfl) (by
      intro e he
      simp only [List.mem_cons, List.not_mem_nil, or_false] at he
      rcases he with rfl | rfl
      · exact replySn_ok sn
      · exact fun _ _ _ _ => trivial)
  rw [hrun, hbytes, List.foldl_cons, replySn_apply]
  rfl

end Loop

/-! ## An entry the parser does not know -/

/-- `ztlv_get_ignore` at the type byte of `val` leaves the cursor right behind it. -/
def SkipsExactly (v : ZBuf) (val : TlvVal) : Prop :=
  (ztlvGetIgnore v).2 = v.skip val.encode.length

/-- Two messages are parsed to one common header and one body. -/
def SameHeader (w w0 : ZBuf) (body : List UInt8) : Prop :=
  ∃ ch, (zipcParseCommonHdr.run w).1 = some ch ∧ (zipcParseCommonHdr.run w0).1 = some ch ∧
    (zipcParseCommonHdr.run w).2.rest = body ∧ (zipcParseCommonHdr.run w0).2.rest = body

/-- Wherever a header holds `val` at the cursor of `v`, under a key the parser does not know, the
    message is parsed as the one without that entry. -/
def InsertHarmless (v : ZBuf) (val : TlvVal) : Prop :=
  ∀ (w w0 : ZBuf) (es es' : List HdrEntry) (key body : List UInt8),
    w.len.toNat < 2 ^ 31 → w0.len.toNat < 2 ^ 31 →
    (∀ e ∈ es, e.Ok) → (∀ e ∈ es', e.Ok) → key ∉ headerKeys →
    w.rest = Leb128.encode (es.length + (es'.length + 1)) ++
      (hdrEntries es ++ ((HdrEntry.other key val).encode ++ (hdrEntries es' ++ body))) →
    w0.rest = Leb128.encode (es.length + es'.length) ++ (hdrEntries (es ++ es') ++ body) →
    v = w.skip
      (Leb128.encode (es.length + (es'.length + 1)) ++ hdrEntries es ++ tlvStr key).length →
    SameHeader w w0 body

/-- Each entry has bytes of its own, so the entries of a message are fewer than its bytes. -/
theorem length_le_hdrEntries (es : List HdrEntry) : es.length ≤ (hdrEntries es).length := by
  induction es with
  | nil => simp
  | cons e es ih =>
      have he : 0 < e.encode.length := by
        cases e <;> simp [HdrEntry.encode, tlvStr]
      rw [hdrEntries_cons, List.length_append, List.length_cons]
      omega

/-- A skipped value does no harm in a header. -/
theorem insertHarmless_of_skipOk {v : ZBuf} {val : TlvVal} {r : List UInt8}
    (h : v.rest = val.encode ++ r) (hskip : SkipOk v r val) : InsertHarmless v val := by
  intro w w0 es es' key body hw hw0 hes hes' hkey hwr hwr0 hv
  have hcount : es.length + (es'.length + 1) < 2 ^ 32 := by
    have hrest := rest_lt hw
    have := length_le_hdrEntries es
    have := length_le_hdrEntries es'
    rw [hwr] at hrest
    simp only [List.length_append] at hrest
    have := Leb128.length_encode_pos (es.length + (es'.length + 1))
    omega
  -- the bytes behind the value are those of the remaining entries and the body
  have hr : r = hdrEntries es' ++ body := by
    have hwr' : w.rest = (Leb128.encode (es.length + (es'.length + 1)) ++ hdrEntries es ++
        tlvStr key) ++ (val.encode ++ (hdrEntries es' ++ body)) := by
      rw [hwr, HdrEntry.encode]
      simp only [List.append_assoc]
    have h' := ZBuf.rest_skip hwr'
    rw [← hv, h] at h'
    exact List.append_cancel_left h'
  have hat : (HdrEntry.other key val).OkAt
      (w.skip (Leb128.encode (es.length + (es'.length + 1)) ++ hdrEntries es).length)
      (hdrEntries es' ++ body) := by
    refine ⟨hkey, ?_⟩
    rw [ZBuf.skip_skip, ← List.length_append, ← hv, ← hr]
    exact hskip
  have hrun := zipcParseCommonHdr_of_rest_at hw es es' _ hcount hwr hes hes' hat
  have hok : ∀ e ∈ es ++ es', e.Ok := fun e he =>
    (List.mem_append.mp he).elim (hes e) (hes' e)
  rw [← List.length_append] at hwr0
  have hrun0 := zipcParseCommonHdr_of_rest hw0 (es ++ es')
    (by rw [List.length_append]; omega) hwr0 hok
  refine ⟨_, by rw [hrun], ?_, ?_, ?_⟩
  · rw [hrun0, List.foldl_append]
    rfl
  · rw [hrun]
    refine ZBuf.rest_skip (hwr.trans ?_)
    simp only [List.append_assoc]
  · rw [hrun0]
    refine ZBuf.rest_skip (hwr0.trans ?_)
    simp only [List.append_assoc]

/-- Skipping unknown data: in a buffer with any bytes behind the value, it is skipped and does no
    harm in any header exactly when `SkipOk`. -/
theorem zipcParseCommonHdr_skips (v : ZBuf) (val : TlvVal) (r : List UInt8)
    (hlt : v.len.toNat < 2 ^ 31) (h : v.rest = val.encode ++ r) :
    SkipsExactly v val ∧ InsertHarmless v val ↔ SkipOk v r val := by
  have hexact := ztlvGetIgnore_exact hlt h
  exact ⟨fun hs => hexact.mp hs.1, fun hs => ⟨hexact.mpr hs, insertHarmless_of_skipOk h hs⟩⟩

/-- An integer of one byte that looks like no type. -/
theorem zipcParseCommonHdr_skips_five :
    SkipsExactly (recycled [4, 10, 7] 0) (.int 5) ∧
      InsertHarmless (recycled [4, 10, 7] 0) (.int 5) ↔
      SkipOk (recycled [4, 10, 7] 0) [7] (.int 5) :=
  zipcParseCommonHdr_skips (recycled [4, 10, 7] 0) (.int 5) [7] (by decide) (by
    have hcode : Leb128.encode (zcrtZigZagEncode32 5).toNat = [10] :=
      Leb128.encode_of_lt (by decide)
    rw [TlvVal.encode, tlvInt, hcode]
    decide)

/-- `{a=true, req=true}`: after the unknown `true` one byte too many is gone. -/
theorem unknownTrue_not_skipped :
    ¬∀ (v : ZBuf) (val : TlvVal) (r : List UInt8), v.len.toNat < 2 ^ 31 →
      v.rest = val.encode ++ r → SkipsExactly v val ∧ InsertHarmless v val := by
  intro h
  have hs := (h
    ((recycled [2, 0x11, 1, 0x61, 3, 0x11, 3, 0x72, 0x65, 0x71, 3] 0).skip 4) (.bool true)
    [0x11, 3, 0x72, 0x65, 0x71, 3] (by decide) (by decide)).1
  have hoff := congrArg ZBuf.offset hs
  revert hoff
  decide

end Zcrt
