/-
  Strings with a malformed length in a message: `ztlv_get_string` does not look at what
  `ztlv_get_len` returns, so it takes them to be empty and leaves the cursor in front of the
  length.

  * `BadLen`: a string whose length field is refused.
  * `StrPos`: where `zipc_parse_common_hdr` and `zipc_parse_body_info` read a string.
  * `refuses_iff_caught`: at which of these places the malformed length makes them return an error.
-/
import Zcrt.Ipc.Header
import Zcrt.Ipc.Parse
import Zcrt.Tlv.StrSlice

namespace Zcrt

open Lib

/-- A `STR` tag at the cursor, and behind it a length that `ztlv_get_len` refuses. -/
structure BadLen (v : ZBuf) : Prop where
  tag : (ztlvGetType v).1 = ZTLV_STR
  refused : (ztlvGetLen (ztlvGetType v).2).1.1 = false

/-- Where a string is read: by `ztlv_get_string` at the cursor, as key `i` of the common header, as
    the component and the action of the body. -/
inductive StrPos
  | value
  | key (i : Nat)
  | compname
  | action

namespace StrPos

/-- What `zipc_parse_body_info` reads before the component. -/
def toCompname : TlvProg Bool := do
  let (ok, idx) ← TlvProg.getLen
  if !ok then pure false
  else if idx < 3 then pure false
  else
    let idx ← TlvProg.getInt
    pure idx.isSome

/-- The reads that come before the string; `false` if one of them ends the call. -/
def before : StrPos → TlvProg Bool
  | value => pure true
  | key i => do
      let (ok, cnt) ← TlvProg.getLen
      if ok && decide (i < cnt.toNat) then
        let ch ← commonHdrLoop i .zero
        pure ch.isSome
      else pure false
  | compname => toCompname
  | action => do
      if ← toCompname then
        match ← TlvProg.getString with
        | none => pure false
        | some name =>
            if name.length ≥ ZCRT_NAME_LEN.toNat then pure false
            else
              let idx ← TlvProg.getInt
              pure idx.isSome
      else pure false

/-- The string at the place has a malformed length. A message is shorter than `2^31` bytes. -/
structure Malformed (p : StrPos) (v : ZBuf) : Prop where
  reached : (p.before.run v).1 = true
  bad : BadLen (p.before.run v).2
  message : p = value ∨ v.len.toNat < 2 ^ 31

/-- The function that reads the string returns an error. -/
def Refuses (v : ZBuf) : StrPos → Prop
  | value => (ztlvGetString v).1 = none
  | key _ => (zipcParseCommonHdr.run v).1 = none
  | compname => ∃ ret, (zipcParseBodyInfo.run v).1 = .error ret
  | action => ∃ ret, (zipcParseBodyInfo.run v).1 = .error ret

/-- What is read next falls on the malformed length: the string is the component, or a key with
    another entry behind it. -/
def Caught (v : ZBuf) : StrPos → Prop
  | value => False
  | key i => i + 1 < (ztlvGetLen v).1.2.toNat
  | compname => True
  | action => False

end StrPos

/-! ## Reading on in the malformed length -/

/-- What `ztlv_get_type` returns at the end of the message or in the malformed length. -/
def Unknown (ty : UInt8) : Prop := ty = 0 ∨ 128 ≤ ty.toNat

theorem Unknown.ne {ty k : UInt8} (h : Unknown ty) (hk : 0 < k.toNat ∧ k.toNat < 128) : ty ≠ k := by
  rintro rfl
  rcases h with rfl | h
  · simp at hk
  · omega

theorem ztlvGetString_of_unknown {v : ZBuf} (h : Unknown (ztlvGetType v).1) :
    (ztlvGetString v).1 = none := by
  rw [ztlvGetString_eq, if_pos (h.ne (by decide))]

theorem ztlvGetInt_of_unknown {v : ZBuf} (h : Unknown (ztlvGetType v).1) :
    (ztlvGetInt v).1 = none := by
  unfold ztlvGetInt
  dsimp only
  rw [if_neg (h.ne (by decide)), if_neg (h.ne (by decide))]

theorem ztlvGetIgnore_of_unknown {v : ZBuf} (h : Unknown (ztlvGetType v).1) :
    ztlvGetIgnore v = (false, (ztlvGetType v).2) := by
  unfold ztlvGetIgnore
  dsimp only
  rw [if_neg (not_or.mpr ⟨h.ne (by decide), h.ne (by decide)⟩), if_neg (h.ne (by decide)),
    if_neg (h.ne (by decide))]

section BadLen

variable {v : ZBuf} (h : BadLen v)
include h

theorem BadLen.getString : TlvProg.getString.run v = (some [], v.skip 1) := by
  rw [TlvProg.run_getString, ztlvGetString_of_badLen h.tag h.refused]
  rfl

variable (hlt : v.len.toNat < 2 ^ 31)
include hlt

theorem BadLen.limit_eq :
    (v.skip 1).limit = (v.len.toNat : Int) - (v.skip 1).offset.toNat ∧
      (v.skip 1).offset.toNat ≤ v.len.toNat := by
  have hle : (v.skip 1).offset ≤ (v.skip 1).len := (ztlvGetType_of_str h.tag).2
  have hnat := UInt32.le_iff_toNat_le.mp hle
  have hlim := ZBuf.limit_eq hle (by rw [ZBuf.rest_length, ZBuf.skip_len]; omega)
  rw [ZBuf.rest_length, ZBuf.skip_len] at hlim
  rw [ZBuf.skip_len] at hnat
  omega

/-- Every byte of the field has its high bit set, as has the one behind a field cut off. -/
theorem BadLen.high {j : Nat} (hj : j < 5) (hle : (v.skip 1).offset.toNat + j ≤ v.len.toNat) :
    128 ≤ ((v.skip 1).cursor j).toNat := by
  have hbad := h.refused
  have hlim := (h.limit_eq hlt).1
  rw [(ztlvGetType_of_str h.tag).1] at hbad
  cases hsize : (zcrtTlvReadLen (v.skip 1).cursor (v.skip 1).limit).1 with
  | some n =>
      rw [ztlvGetLen_true hsize] at hbad
      exact nomatch hbad
  | none =>
      rw [zcrtTlvReadLen_eq] at hsize
      cases hg : Leb128.group (v.skip 1).cursor (readable32 (v.skip 1).limit) with
      | some bs =>
          rw [hg] at hsize
          exact nomatch hsize
      | none => exact Leb128.group_eq_none.mp hg j (by unfold readable32; omega)

/-- A type byte read in the field is none that is known. -/
theorem BadLen.type {j : Nat} (hj : j < 5) (w : ZBuf) (hw : w = (v.skip 1).skip j)
    (hle : (v.skip 1).offset.toNat + j ≤ v.len.toNat) :
    ∃ ty w', ztlvGetType w = (ty, w') ∧ Unknown ty ∧
      (w' = w ∧ w.offset.toNat = v.len.toNat ∨ w' = w.skip 1 ∧ w.offset.toNat < v.len.toNat) := by
  have hoff : w.offset.toNat = (v.skip 1).offset.toNat + j := by
    rw [hw]
    change ((v.skip 1).offset + UInt32.ofNat j).toNat = _
    rw [UInt32.toNat_add, UInt32.toNat_ofNat']
    omega
  have hsum : (w.offset + 1).toNat = w.offset.toNat + 1 := Word.u32_succ (by omega)
  have hlen : w.len = v.len := by rw [hw]; rfl
  rw [ztlvGetType_eq]
  by_cases hover : w.offset + 1 > w.len
  · rw [if_pos hover]
    rw [gt_iff_lt, UInt32.lt_iff_toNat_lt, hsum, hlen] at hover
    exact ⟨0, w, rfl, Or.inl rfl, Or.inl ⟨rfl, by omega⟩⟩
  · rw [if_neg hover]
    rw [gt_iff_lt, UInt32.lt_iff_toNat_lt, hsum, hlen] at hover
    refine ⟨_, _, rfl, Or.inr ?_, Or.inr ⟨rfl, by omega⟩⟩
    have := h.high hlt hj hle
    unfold ZBuf.cursor at this ⊢
    rw [hw] at hoff ⊢
    rwa [Mem.shift_apply, hoff, Nat.add_zero]

/-- No integer can be read where the string was left. -/
theorem BadLen.getInt : (ztlvGetInt (v.skip 1)).1 = none := by
  obtain ⟨ty, w', hty, hunknown, -⟩ := h.type hlt (j := 0) (by decide) (v.skip 1) (by simp)
    (h.limit_eq hlt).2
  refine ztlvGetInt_of_unknown ?_
  rwa [hty]

/-- And no key behind what `ztlv_get_ignore` skips there. -/
theorem BadLen.nextKey : (ztlvGetString (ztlvGetIgnore (v.skip 1)).2).1 = none := by
  obtain ⟨ty, w', hty, hunknown, hcur⟩ := h.type hlt (j := 0) (by decide) (v.skip 1) (by simp)
    (h.limit_eq hlt).2
  rw [ztlvGetIgnore_of_unknown (by rwa [hty]), hty]
  rcases hcur with ⟨rfl, -⟩ | ⟨rfl, hin⟩
  · exact ztlvGetString_of_unknown (by rwa [hty])
  · obtain ⟨ty1, w1, hty1, hunknown1, -⟩ := h.type hlt (j := 1) (by decide) _ rfl (by omega)
    exact ztlvGetString_of_unknown (by rwa [hty1])

end BadLen

/-! ## The two parsers -/

/-- The loop over the entries of the common header, cut in two. -/
theorem commonHdrLoop_add (i n : Nat) (ch : ZIPCMsgCH) (v : ZBuf) :
    (commonHdrLoop (i + n) ch).run v =
      match (commonHdrLoop i ch).run v with
      | (none, w) => (none, w)
      | (some ch, w) => (commonHdrLoop n ch).run w := by
  induction i generalizing ch v with
  | zero =>
      rw [Nat.zero_add]
      rfl
  | succ i ih =>
      rw [Nat.add_right_comm, commonHdrLoop, commonHdrLoop, TlvProg.run_bind, TlvProg.run_bind]
      cases (TlvProg.getString.run v).1 with
      | none => rfl
      | some key =>
          dsimp only
          split
          · rw [TlvProg.run_bind, TlvProg.run_bind]
            cases (TlvProg.getInt.run (TlvProg.getString.run v).2).1 with
            | none => rfl
            | some sn => exact ih _ _
          split
          · rw [TlvProg.run_bind, TlvProg.run_bind]
            cases (TlvProg.getBool.run (TlvProg.getString.run v).2).1 with
            | none => rfl
            | some req => exact ih _ _
          split
          · rw [TlvProg.run_bind, TlvProg.run_bind]
            cases (TlvProg.getBool.run (TlvProg.getString.run v).2).1 with
            | none => rfl
            | some noti => exact ih _ _
          · rw [TlvProg.run_bind, TlvProg.run_bind]
            exact ih _ _

/-- With the malformed length in the next key, the loop goes on if it has another entry to read, and
    fails there. -/
theorem commonHdrLoop_of_badLen {v : ZBuf} (h : BadLen v) (hlt : v.len.toNat < 2 ^ 31) (n : Nat)
    (ch : ZIPCMsgCH) : ((commonHdrLoop (n + 1) ch).run v).1 = none ↔ n ≠ 0 := by
  rw [commonHdrLoop, TlvProg.run_bind, h.getString]
  dsimp only
  rw [if_neg (by decide), if_neg (by decide), if_neg (by decide), TlvProg.run_bind,
    TlvProg.run_getIgnore]
  cases n with
  | zero => simp [commonHdrLoop]
  | succ n =>
      rw [commonHdrLoop, TlvProg.run_bind, TlvProg.run_getString, h.nextKey hlt]
      simp

/-- The key at place `i`, once the entries before it are read. -/
theorem zcipParseCommonHdr_key {i : Nat} {v : ZBuf} (h : (StrPos.key i).Malformed v) :
    (zipcParseCommonHdr.run v).1 = none ↔ i + 1 < (ztlvGetLen v).1.2.toNat := by
  obtain ⟨hreached, hbad, hmsg⟩ := h
  have hlt := hmsg.resolve_left (by simp)
  unfold StrPos.before at hreached hbad
  unfold zipcParseCommonHdr
  rw [TlvProg.run_bind, TlvProg.run_getLen] at hreached hbad ⊢
  have hlen1 := ztlvGetLen_len v
  revert hreached hbad hlen1
  rcases ztlvGetLen v with ⟨⟨ok, cnt⟩, v1⟩
  intro hreached hbad hlen1
  dsimp only at hreached hbad hlen1 ⊢
  by_cases hc : (ok && decide (i < cnt.toNat)) = true
  swap
  · rw [if_neg hc] at hreached
    exact nomatch hreached
  rw [if_pos hc, TlvProg.run_bind] at hreached hbad
  have hlen2 := TlvProg.run_len (commonHdrLoop i .zero) v1
  rw [Bool.and_eq_true, decide_eq_true_iff] at hc
  obtain ⟨n, hn⟩ := Nat.exists_eq_add_of_lt hc.2
  rw [if_pos hc.1, hn, Nat.add_assoc]
  change ((commonHdrLoop (i + (n + 1)) .zero).run v1).1 = none ↔ _
  rw [commonHdrLoop_add]
  revert hreached hbad hlen2
  rcases (commonHdrLoop i .zero).run v1 with ⟨_ | ch, w⟩
  · intro hreached
    exact nomatch hreached
  · intro _ (hbad : BadLen w) hlen2
    dsimp only at hlen2 ⊢
    rw [commonHdrLoop_of_badLen hbad (by rw [hlen2, hlen1]; exact hlt)]
    omega

/-- `zipc_parse_body_info` from the component on. -/
def fromCompname : TlvProg (Except EZCRTErr (List UInt8 × List UInt8)) := do
  match ← TlvProg.getString with
  | none => pure (.error .ipcBodyErr)
  | some compname =>
      if compname.length ≥ ZCRT_NAME_LEN.toNat then pure (.error .ipcBodyErr)
      else
        match ← TlvProg.getInt with
        | none => pure (.error .ipcBodyErr)
        | some _ =>
            match ← TlvProg.getString with
            | none => pure (.error .ipcBodyErr)
            | some action =>
                if action.length ≥ ZCRT_NAME_LEN.toNat then pure (.error .ipcBodyErr)
                else pure (.ok (compname, action))

theorem zipcParseBodyInfo_from {v : ZBuf} (h : (StrPos.toCompname.run v).1 = true) :
    zipcParseBodyInfo.run v = fromCompname.run (StrPos.toCompname.run v).2 := by
  unfold StrPos.toCompname at h ⊢
  unfold zipcParseBodyInfo
  rw [TlvProg.run_bind] at h ⊢
  rw [TlvProg.run_bind]
  revert h
  rcases TlvProg.getLen.run v with ⟨⟨ok, idx⟩, v1⟩
  dsimp only
  split
  · exact fun h => nomatch h
  split
  · exact fun h => nomatch h
  rw [TlvProg.run_bind, TlvProg.run_bind]
  rcases TlvProg.getInt.run v1 with ⟨_ | n, v2⟩
  · exact fun h => nomatch h
  · exact fun _ => rfl

theorem fromCompname_of_badLen {v : ZBuf} (h : BadLen v) (hlt : v.len.toNat < 2 ^ 31) :
    (fromCompname.run v).1 = .error .ipcBodyErr := by
  unfold fromCompname
  rw [TlvProg.run_bind, h.getString]
  dsimp only
  rw [if_neg (by decide), TlvProg.run_bind, TlvProg.run_getInt, h.getInt hlt]
  rfl

theorem zipcParseBodyInfo_action {v : ZBuf} (h : StrPos.action.Malformed v) :
    ∃ names, (zipcParseBodyInfo.run v).1 = .ok names := by
  obtain ⟨hreached, hbad, -⟩ := h
  unfold StrPos.before at hreached hbad
  rw [TlvProg.run_bind] at hreached hbad
  by_cases hto : (StrPos.toCompname.run v).1 = true
  swap
  · rw [if_neg hto] at hreached
    exact nomatch hreached
  rw [if_pos hto, TlvProg.run_bind] at hreached hbad
  rw [zipcParseBodyInfo_from hto]
  generalize (StrPos.toCompname.run v).2 = w at hreached hbad ⊢
  unfold fromCompname
  rw [TlvProg.run_bind]
  revert hreached hbad
  rcases TlvProg.getString.run w with ⟨_ | name, w1⟩
  · exact fun h => nomatch h
  dsimp only
  split
  · exact fun h => nomatch h
  rw [TlvProg.run_bind, TlvProg.run_bind]
  rcases TlvProg.getInt.run w1 with ⟨_ | n, w2⟩
  · exact fun h => nomatch h
  intro _ (hbad : BadLen w2)
  dsimp only
  rw [TlvProg.run_bind, hbad.getString]
  exact ⟨(name, []), rfl⟩

/-- A malformed length ends the call only if what is read next falls on it. -/
theorem refuses_iff_caught (p : StrPos) (v : ZBuf) (h : p.Malformed v) :
    p.Refuses v ↔ p.Caught v := by
  cases p with
  | value =>
      refine iff_of_false (fun hr => ?_) id
      have hbad : BadLen v := h.bad
      unfold StrPos.Refuses at hr
      rw [ztlvGetString_of_badLen hbad.tag hbad.refused] at hr
      exact nomatch hr
  | key i => exact zcipParseCommonHdr_key h
  | compname =>
      refine iff_of_true ?_ trivial
      have hlt := h.message.resolve_left (by simp)
      have hlen : (StrPos.toCompname.run v).2.len = v.len := TlvProg.run_len _ v
      unfold StrPos.Refuses
      rw [zipcParseBodyInfo_from h.reached]
      exact ⟨_, fromCompname_of_badLen h.bad (by rw [← hlen] at hlt; exact hlt)⟩
  | action =>
      refine iff_of_false (fun hr => ?_) id
      obtain ⟨names, hok⟩ := zipcParseBodyInfo_action h
      obtain ⟨ret, herr⟩ := hr
      exact nomatch hok.symm.trans herr

/-- A header that declares two entries, with five bytes 0x80 for the length of the first key. -/
theorem refuses_iff_caught_first :
    (StrPos.key 0).Refuses (recycled [2, 0x11, 0x80, 0x80, 0x80, 0x80, 0x80] 0) ↔
      (StrPos.key 0).Caught (recycled [2, 0x11, 0x80, 0x80, 0x80, 0x80, 0x80] 0) :=
  refuses_iff_caught (.key 0) _ ⟨by decide, ⟨by decide, by decide⟩, Or.inr (by decide)⟩

/-- The same string read by itself, as the only key of a header, and as the action of a body. -/
theorem badLen_accepted :
    (StrPos.value.Malformed (recycled [0x11, 0x80, 0x80, 0x80, 0x80, 0x80] 0) ∧
        ¬StrPos.value.Refuses (recycled [0x11, 0x80, 0x80, 0x80, 0x80, 0x80] 0)) ∧
      ((StrPos.key 0).Malformed (recycled [1, 0x11, 0x80, 0x80, 0x80, 0x80, 0x80] 0) ∧
        ¬(StrPos.key 0).Refuses (recycled [1, 0x11, 0x80, 0x80, 0x80, 0x80, 0x80] 0)) ∧
      StrPos.action.Malformed
          (recycled [3, 4, 2, 0x11, 1, 97, 4, 4, 0x11, 0x80, 0x80, 0x80, 0x80, 0x80] 0) ∧
        ¬StrPos.action.Refuses
          (recycled [3, 4, 2, 0x11, 1, 97, 4, 4, 0x11, 0x80, 0x80, 0x80, 0x80, 0x80] 0) := by
  refine ⟨⟨⟨by decide, ⟨by decide, by decide⟩, Or.inl rfl⟩, fun h => nomatch h⟩,
    ⟨⟨by decide, ⟨by decide, by decide⟩, Or.inr (by decide)⟩, fun h => nomatch h⟩,
    ⟨by decide, ⟨by decide, by decide⟩, Or.inr (by decide)⟩, fun h => ?_⟩
  obtain ⟨ret, h⟩ := h
  exact nomatch h

end Zcrt
