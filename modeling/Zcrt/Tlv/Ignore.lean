/-
  What `ztlv_get_ignore` skips. It reads the type byte and then calls a typed reader, which reads a
  type byte of its own: the first byte of the value's code, or whatever follows a value that has
  no more bytes.

  * `TlvVal`: the values writers can emit, tables with anything inside included.
  * `SkipOk`: when the cursor still ends up behind the value.
  * `ztlvGetIgnore_exact`: exactly then.
-/
import Zcrt.Tlv.Value

namespace Zcrt

open Lib

mutual

/-- A value in a message. -/
inductive TlvVal
  | nil
  | bool (b : Bool)
  | int (n : Int32)
  | int64 (n : Int64)
  | str (bs : List UInt8)
  | table (es : TlvEntries)

/-- The entries of a table. -/
inductive TlvEntries
  | nil
  | cons (key val : TlvVal) (es : TlvEntries)

end

/-- The number of entries. -/
def TlvEntries.count : TlvEntries → Nat
  | nil => 0
  | cons _ _ es => es.count + 1

mutual

/-- The bytes of a value. -/
def TlvVal.encode : TlvVal → List UInt8
  | .nil => [ZTLV_NIL]
  | .bool b => [if b then ZTLV_TRUE else ZTLV_FALSE]
  | .int n => tlvInt n
  | .int64 n => tlvInt64 n
  | .str bs => tlvStr bs
  | .table es => ZTLV_TABLE :: (Leb128.encode es.count ++ es.encode)

/-- The bytes of a table's entries: keys and values in turn. -/
def TlvEntries.encode : TlvEntries → List UInt8
  | .nil => []
  | .cons key val es => key.encode ++ (val.encode ++ es.encode)

end

/-- The first bytes of the string `bs` form a length field that ends at the string's end, or, when
    nothing follows the string, one that runs over it. -/
def OwnLength (bs r : List UInt8) (offset : Nat) : Prop :=
  ∃ g, Leb128.group (fun i => bs.getD i 0) 5 = some g ∧
    (g.length + Leb128.value g % 2 ^ 32 = bs.length ∨
      r = [] ∧ bs.length < g.length + Leb128.value g % 2 ^ 32 ∧
        offset + 2 + g.length + Leb128.value g % 2 ^ 32 < 2 ^ 32)

/-- When a value at the cursor of `v`, with `r` behind it, is skipped. An integer's code must be
    one byte, and where that byte looks like an integer's type no integer may follow. -/
def SkipOk (v : ZBuf) (r : List UInt8) : TlvVal → Prop
  | .nil => True
  | .bool _ => r = []
  | .int n =>
      (zcrtZigZagEncode32 n).toNat < 128 ∧
        (zcrtZigZagEncode32 n = 4 →
          Leb128.group (v.skip 2).cursor (readable32 (v.skip 2).limit) = none) ∧
        (zcrtZigZagEncode32 n = 6 →
          Leb128.group (v.skip 2).cursor (readable64 (v.skip 2).limit) = none)
  | .int64 _ => False
  | .str bs => bs = [] ∨ bs.length = 17 ∧ OwnLength bs r v.offset.toNat
  | .table _ => False

/-! ## Cursor moves -/

theorem ZBuf.skip_inj {v : ZBuf} {m n : Nat} (hm : m < 2 ^ 32) (hn : n < 2 ^ 32) :
    v.skip m = v.skip n ↔ m = n := by
  refine ⟨fun h => ?_, fun h => by rw [h]⟩
  have h1 : v.offset + UInt32.ofNat m = v.offset + UInt32.ofNat n := congrArg ZBuf.offset h
  have h2 : UInt32.ofNat m = UInt32.ofNat n := by
    rw [← UInt32.add_sub_cancel (UInt32.ofNat m) v.offset, UInt32.add_comm _ v.offset, h1,
      UInt32.add_comm v.offset, UInt32.add_sub_cancel]
  have h3 := congrArg UInt32.toNat h2
  rwa [UInt32.toNat_ofNat', UInt32.toNat_ofNat', Nat.mod_eq_of_lt hm, Nat.mod_eq_of_lt hn] at h3

theorem with_offset_eq_skip {v : ZBuf} {x : UInt32} {n : Nat} (h : v.offset.toNat + n < 2 ^ 32) :
    { v with offset := x } = v.skip n ↔ x.toNat = v.offset.toNat + n := by
  have hs : (v.offset + UInt32.ofNat n).toNat = v.offset.toNat + n := by
    rw [UInt32.toNat_add, UInt32.toNat_ofNat']
    omega
  refine ⟨fun he => ?_, fun he => ?_⟩
  · rw [← hs]
    exact congrArg (fun u : ZBuf => u.offset.toNat) he
  · have : x = v.offset + UInt32.ofNat n := UInt32.toNat_inj.mp (he.trans hs.symm)
    rw [this]
    rfl

theorem zcrtBufGetstr_cursor (v : ZBuf) (len : UInt32) :
    (zcrtBufGetstr v len).2 =
      { v with offset := if v.offset + len > v.len then v.len else v.offset + len } := by
  unfold zcrtBufGetstr
  dsimp only
  split <;> rfl

theorem ztlvGetType_at_end {v : ZBuf} (h : v.rest = []) (ho : v.offset ≤ v.len)
    (hl : v.len.toNat < 2 ^ 31) : ztlvGetType v = (0, v) := by
  have hr := congrArg List.length h
  rw [ZBuf.rest_length, List.length_nil] at hr
  have ho' := UInt32.le_iff_toNat_le.mp ho
  rw [ztlvGetType_eq, if_pos]
  rw [gt_iff_lt, UInt32.lt_iff_toNat_lt, UInt32.toNat_add, show (1 : UInt32).toNat = 1 from rfl]
  omega

theorem ztlvGetBool_cursor (v : ZBuf) : (ztlvGetBool v).2 = (ztlvGetType v).2 := by
  unfold ztlvGetBool
  rcases ztlvGetType v with ⟨ty, v1⟩
  dsimp only
  split
  · rfl
  · split <;> rfl

/-- The 32-bit reader moves the cursor exactly when it finds a group. -/
theorem ztlvReadVarInt_cursor (v : ZBuf) :
    (ztlvReadVarInt v).2 = v ↔ Leb128.group v.cursor (readable32 v.limit) = none := by
  unfold ztlvReadVarInt
  rw [zcrtTlvReadLen_eq]
  cases hg : Leb128.group v.cursor (readable32 v.limit) with
  | none => simp [readResult32]
  | some g =>
      obtain ⟨ht, hle, -⟩ := Leb128.group_eq_some.mp hg
      have hpos := ht.length_pos
      have h5 : readable32 v.limit ≤ 5 := Nat.min_le_left _ _
      have := ZBuf.skip_inj (v := v) (m := g.length) (n := 0) (by omega) (by omega)
      rw [ZBuf.skip_zero] at this
      simp only [readResult32, this, reduceCtorEq, iff_false]
      omega

/-- The 64-bit reader moves the cursor exactly when it finds a group. -/
theorem ztlvReadVarInt64_cursor (v : ZBuf) :
    (ztlvReadVarInt64 v).2 = v ↔ Leb128.group v.cursor (readable64 v.limit) = none := by
  unfold ztlvReadVarInt64
  rw [zcdrReadLEN64_eq]
  cases hg : Leb128.group v.cursor (readable64 v.limit) with
  | none => simp [readResult64]
  | some g =>
      obtain ⟨ht, hle, -⟩ := Leb128.group_eq_some.mp hg
      have hpos := ht.length_pos
      have h10 : readable64 v.limit ≤ 10 := by
        unfold readable64
        split_ifs <;> omega
      have := ZBuf.skip_inj (v := v) (m := g.length) (n := 0) (by omega) (by omega)
      rw [ZBuf.skip_zero] at this
      simp only [readResult64, this, reduceCtorEq, iff_false]
      omega

/-! ## The typed readers on a byte that is no type byte of theirs -/

/-- `ztlv_get_int` on any byte. -/
theorem ztlvGetInt_cursor {v : ZBuf} {x : UInt8} {r : List UInt8} (h : v.rest = x :: r) :
    (ztlvGetInt v).2 = if x = ZTLV_INT then (ztlvReadVarInt (v.skip 1)).2
      else if x = ZTLV_INT64 then (ztlvReadVarInt64 (v.skip 1)).2 else v.skip 1 := by
  unfold ztlvGetInt
  rw [ztlvGetType_of_rest h]
  dsimp only
  split
  · rfl
  · split <;> rfl

/-- A code whose first byte has its continuation bit clear is that byte. -/
theorem encode_low {n : Nat} {x : UInt8} {c : List UInt8} (h : Leb128.encode n = x :: c)
    (hx : x.toNat < 128) : c = [] ∧ n = x.toNat := by
  have ht := Leb128.terminated_encode n
  rw [h] at ht
  have hc := ht.tail_nil hx
  refine ⟨hc, ?_⟩
  have hv := Leb128.value_encode n
  rw [h, hc] at hv
  simp only [Leb128.value] at hv
  omega

theorem encode_length_one {n : Nat} : (Leb128.encode n).length = 1 ↔ n < 128 := by
  refine ⟨fun h => ?_, fun h => by rw [Leb128.encode_of_lt h]; rfl⟩
  have hv := Leb128.value_lt (Leb128.encode n)
  rw [Leb128.value_encode, h] at hv
  exact hv

/-! ## Skipping -/

section Skip

variable {v : ZBuf} {r : List UInt8} (hlt : v.len.toNat < 2 ^ 31)
include hlt

theorem rest_lt : v.rest.length < 2 ^ 31 := by
  rw [ZBuf.rest_length]
  omega

theorem ignore_bool {b : Bool} (h : v.rest = (TlvVal.bool b).encode ++ r) :
    (ztlvGetIgnore v).2 = v.skip (TlvVal.bool b).encode.length ↔ r = [] := by
  have h' : v.rest = (if b then ZTLV_TRUE else ZTLV_FALSE) :: r := h
  have h1 : (v.skip 1).rest = r := ZBuf.rest_skip (a := [_]) h'
  have hstep : (ztlvGetIgnore v).2 = (ztlvGetType (v.skip 1)).2 := by
    rw [← ztlvGetBool_cursor]
    unfold ztlvGetIgnore
    rw [ztlvGetType_of_rest h']
    cases b <;> rfl
  rw [hstep]
  cases r with
  | nil =>
      have ho : (v.skip 1).offset ≤ v.len :=
        ZBuf.skip_offset_le (by rw [h']; simp) (ZBuf.offset_le_of_rest (by rw [h']; simp))
      rw [ztlvGetType_at_end h1 ho hlt]
      exact ⟨fun _ => rfl, fun _ => rfl⟩
  | cons x r =>
      rw [ztlvGetType_of_rest h1, ZBuf.skip_skip]
      change v.skip 2 = v.skip 1 ↔ _
      rw [ZBuf.skip_inj (by decide) (by decide)]
      simp

omit hlt in
theorem ignore_int {n : Int32} (h : v.rest = (TlvVal.int n).encode ++ r) :
    (ztlvGetIgnore v).2 = v.skip (TlvVal.int n).encode.length ↔ SkipOk v r (.int n) := by
  have h' : v.rest = ZTLV_INT :: (Leb128.encode (zcrtZigZagEncode32 n).toNat ++ r) := h
  have h1 : (v.skip 1).rest = Leb128.encode (zcrtZigZagEncode32 n).toNat ++ r :=
    ZBuf.rest_skip (a := [_]) h'
  have hstep : (ztlvGetIgnore v).2 = (ztlvGetInt (v.skip 1)).2 := by
    unfold ztlvGetIgnore
    rw [ztlvGetType_of_rest h']
    rfl
  have hlen : (TlvVal.int n).encode.length =
      1 + (Leb128.encode (zcrtZigZagEncode32 n).toNat).length := Nat.add_comm _ _
  have h5 := length_encode32 (zcrtZigZagEncode32 n)
  have hone := encode_length_one (n := (zcrtZigZagEncode32 n).toNat)
  have hpos := Leb128.length_encode_pos (zcrtZigZagEncode32 n).toNat
  rw [hstep, hlen, SkipOk, ← hone]
  cases hc : Leb128.encode (zcrtZigZagEncode32 n).toNat with
  | nil => rw [hc] at hpos; simp at hpos
  | cons x c =>
      rw [hc] at h1 h5
      rw [ztlvGetInt_cursor h1]
      simp only [List.length_cons] at h5 ⊢
      by_cases hx : x.toNat < 128
      · obtain ⟨rfl, hn⟩ := encode_low hc hx
        have hz : ∀ k : UInt8, k.toNat < 128 → (x = k ↔ zcrtZigZagEncode32 n = k.toUInt32) := by
          intro k hk
          rw [← UInt8.toNat_inj, ← UInt32.toNat_inj, hn, UInt8.toNat_toUInt32]
        have h4 : x = ZTLV_INT ↔ zcrtZigZagEncode32 n = 4 := hz 4 (by decide)
        have h6 : x = ZTLV_INT64 ↔ zcrtZigZagEncode32 n = 6 := hz 6 (by decide)
        have h32 := ztlvReadVarInt_cursor (v.skip 2)
        have h64 := ztlvReadVarInt64_cursor (v.skip 2)
        rw [ZBuf.skip_skip]
        change (if _ then (ztlvReadVarInt (v.skip 2)).2
          else if _ then (ztlvReadVarInt64 (v.skip 2)).2
          else v.skip 2) = v.skip 2 ↔ _
        split
        · next he => simp [h4.mp he, h32]
        split
        · next he => simp [h6.mp he, h64]
        · next he4 he6 => simp [mt h4.mpr he4, mt h6.mpr he6]
      · -- the second byte of the code is taken for a type byte and no more is read
        have hx4 : x ≠ ZTLV_INT := fun he => hx (by rw [he]; decide)
        have hx6 : x ≠ ZTLV_INT64 := fun he => hx (by rw [he]; decide)
        have hc0 : c ≠ [] := by
          rintro rfl
          have ht := Leb128.terminated_encode (zcrtZigZagEncode32 n).toNat
          rw [hc] at ht
          exact hx ht
        have := List.length_pos_iff.mpr hc0
        rw [if_neg hx4, if_neg hx6, ZBuf.skip_skip, ZBuf.skip_inj (by decide) (by omega)]
        omega

omit hlt in
theorem ignore_other {ty : UInt8} {c : List UInt8} (h : v.rest = ty :: (c ++ r))
    (hty : ty = ZTLV_NIL ∨ ty = ZTLV_INT64 ∨ ty = ZTLV_TABLE) : (ztlvGetIgnore v).2 = v.skip 1 := by
  unfold ztlvGetIgnore
  rw [ztlvGetType_of_rest h]
  rcases hty with rfl | rfl | rfl <;> rfl

/-- The string reader on a string's own bytes, its length byte taken for the type byte. -/
theorem ignore_str_own {bs : List UInt8} (hbs : bs.length = 17)
    (h : v.rest = ZTLV_STR :: ZTLV_STR :: (bs ++ r)) :
    (ztlvGetIgnore v).2 = v.skip 19 ↔ OwnLength bs r v.offset.toNat := by
  have h1 : (v.skip 1).rest = ZTLV_STR :: (bs ++ r) := ZBuf.rest_skip (a := [_]) h
  have h2 : (v.skip 2).rest = bs ++ r := ZBuf.rest_skip (a := [_, _]) h
  have hlen := congrArg List.length h
  rw [ZBuf.rest_length] at hlen
  simp only [List.length_cons, List.length_append, hbs] at hlen
  have ho : (v.skip 2).offset.toNat = v.offset.toNat + 2 :=
    ZBuf.skip_offset (by rw [h]; simp) (ZBuf.offset_le_of_rest (by rw [h]; simp))
  have hr : r = [] ↔ v.len.toNat = v.offset.toNat + 19 := by
    rw [← List.length_eq_zero_iff]
    omega
  have hlim : (v.skip 2).limit = (v.skip 2).rest.length :=
    ZBuf.limit_eq (ZBuf.offset_le_of_rest (by simp [h2, ← List.length_pos_iff, hbs]))
      (rest_lt (v := v.skip 2) hlt)
  have hgroup : Leb128.group (v.skip 2).cursor (readable32 (v.skip 2).limit) =
      Leb128.group (fun i => bs.getD i 0) 5 := by
    have h5 : readable32 (v.skip 2).limit = 5 := by
      rw [hlim, h2, List.length_append, hbs]
      unfold readable32
      omega
    rw [h5]
    refine Leb128.group_agree fun i hi => ?_
    rw [ZBuf.cursor_apply h2 (by omega), List.getD_eq_getElem _ _ (by omega)]
  have hstep : (ztlvGetIgnore v).2 =
      (zcrtBufGetstr (ztlvGetLen (v.skip 2)).2 (ztlvGetLen (v.skip 2)).1.2).2 := by
    have : (ztlvGetIgnore v).2 = (ztlvGetString (v.skip 1)).2 := by
      unfold ztlvGetIgnore
      rw [ztlvGetType_of_rest h]
      rfl
    rw [this, ztlvGetString_eq, ztlvGetType_of_rest h1, if_neg (not_not.mpr rfl), ZBuf.skip_skip]
  rw [hstep]
  cases hg : Leb128.group (fun i => bs.getD i 0) 5 with
  | none =>
      have hget : ztlvGetLen (v.skip 2) = ((false, 0), v.skip 2) := by
        unfold ztlvGetLen
        rw [zcrtTlvReadLen_eq, hgroup, hg]
        rfl
      have hover : ¬(v.skip 2).offset + 0 > (v.skip 2).len := by
        rw [gt_iff_lt, UInt32.add_zero, UInt32.lt_iff_toNat_lt, ho, ZBuf.skip_len]
        omega
      rw [hget, zcrtBufGetstr_cursor, if_neg hover, UInt32.add_zero]
      refine iff_of_false ?_ ?_
      · exact fun he => absurd ((ZBuf.skip_inj (v := v) (by decide) (by decide)).mp he) (by decide)
      · rintro ⟨g, hg', -⟩
        exact Option.some_ne_none g (hg'.symm.trans hg)
  | some g =>
      have hget : ztlvGetLen (v.skip 2) =
          ((true, UInt32.ofNat (Leb128.value g)), (v.skip 2).skip g.length) := by
        unfold ztlvGetLen
        rw [zcrtTlvReadLen_eq, hgroup, hg]
        rfl
      obtain ⟨-, hg5, -⟩ := Leb128.group_eq_some.mp hg
      have hl : (UInt32.ofNat (Leb128.value g)).toNat = Leb128.value g % 2 ^ 32 :=
        UInt32.toNat_ofNat'
      have hl32 : Leb128.value g % 2 ^ 32 < 2 ^ 32 := Nat.mod_lt _ (by decide)
      have hoff : ((v.skip 2).skip g.length).offset.toNat = v.offset.toNat + 2 + g.length := by
        rw [ZBuf.skip_skip, ZBuf.skip_offset (by rw [h]; simp; omega)
          (ZBuf.offset_le_of_rest (by rw [h]; simp))]
        omega
      have hsum : (((v.skip 2).skip g.length).offset + UInt32.ofNat (Leb128.value g)).toNat =
          (v.offset.toNat + 2 + g.length + Leb128.value g % 2 ^ 32) % 2 ^ 32 := by
        rw [UInt32.toNat_add, hoff, hl]
      have hown : OwnLength bs r v.offset.toNat ↔ (g.length + Leb128.value g % 2 ^ 32 = 17 ∨
          v.len.toNat = v.offset.toNat + 19 ∧ 17 < g.length + Leb128.value g % 2 ^ 32 ∧
            v.offset.toNat + 2 + g.length + Leb128.value g % 2 ^ 32 < 2 ^ 32) := by
        unfold OwnLength
        rw [hg, hr, hbs]
        simp only [Option.some.injEq, exists_eq_left']
      have hover : ((v.skip 2).skip g.length).offset + UInt32.ofNat (Leb128.value g) >
          ((v.skip 2).skip g.length).len ↔ v.len.toNat <
            (v.offset.toNat + 2 + g.length + Leb128.value g % 2 ^ 32) % 2 ^ 32 := by
        rw [gt_iff_lt, UInt32.lt_iff_toNat_lt, hsum, ZBuf.skip_len, ZBuf.skip_len]
      rw [hget, zcrtBufGetstr_cursor, hown]
      change { v with offset := _ } = v.skip 19 ↔ _
      rw [with_offset_eq_skip (by omega)]
      by_cases hgt : v.len.toNat <
          (v.offset.toNat + 2 + g.length + Leb128.value g % 2 ^ 32) % 2 ^ 32
      · rw [if_pos (hover.mpr hgt), ZBuf.skip_len, ZBuf.skip_len]
        omega
      · rw [if_neg (mt hover.mp hgt), hsum]
        omega

theorem ignore_str {bs : List UInt8} (h : v.rest = (TlvVal.str bs).encode ++ r) :
    (ztlvGetIgnore v).2 = v.skip (TlvVal.str bs).encode.length ↔ SkipOk v r (.str bs) := by
  have h' : v.rest = ZTLV_STR :: (Leb128.encode bs.length ++ (bs ++ r)) := by
    rw [h, TlvVal.encode, tlvStr, List.cons_append, List.append_assoc]
  have hlen : (TlvVal.str bs).encode.length = 1 + (Leb128.encode bs.length).length + bs.length := by
    simp only [TlvVal.encode, tlvStr, List.length_cons, List.length_append]
    omega
  have hbs : bs.length < 2 ^ 31 := by
    have h1 := rest_lt hlt
    rw [h', List.length_cons, List.length_append, List.length_append] at h1
    omega
  have h10 : (Leb128.encode bs.length).length ≤ 5 :=
    Leb128.length_encode_le (by decide) (by omega)
  have hpos := Leb128.length_encode_pos bs.length
  rw [hlen, SkipOk]
  by_cases h17 : bs.length = 17
  · have h0 : bs ≠ [] := fun he => by simp [he] at h17
    rw [h17, Leb128.encode_of_lt (by decide)] at h'
    rw [h17, Leb128.encode_of_lt (by decide)]
    refine (ignore_str_own hlt h17 h').trans ?_
    simp [h0]
  · cases hc : Leb128.encode bs.length with
    | nil => rw [hc] at hpos; simp at hpos
    | cons x c =>
        rw [hc] at h' h10
        have h1 : (v.skip 1).rest = x :: (c ++ (bs ++ r)) := ZBuf.rest_skip (a := [_]) h'
        have hx : x ≠ ZTLV_STR := by
          rintro rfl
          obtain ⟨-, hn⟩ := encode_low hc (by decide)
          exact h17 hn
        have hstep : (ztlvGetIgnore v).2 = v.skip 2 := by
          have : (ztlvGetIgnore v).2 = (ztlvGetString (v.skip 1)).2 := by
            unfold ztlvGetIgnore
            rw [ztlvGetType_of_rest h']
            rfl
          rw [this, ztlvGetString_eq, ztlvGetType_of_rest h1, if_pos hx, ZBuf.skip_skip]
        have h0 : bs = [] → c.length = 0 := by
          rintro rfl
          rw [List.length_nil, Leb128.encode_of_lt (by decide)] at hc
          rw [← (List.cons.inj hc).2, List.length_nil]
        have hnil : bs = [] ↔ bs.length = 0 := List.length_eq_zero_iff.symm
        simp only [List.length_cons] at h10 ⊢
        rw [hstep, ZBuf.skip_inj (by decide) (by omega), hnil]
        rw [hnil] at h0
        omega

/-- The cursor ends up behind the value exactly when `SkipOk` says so. -/
theorem ztlvGetIgnore_exact {val : TlvVal} (h : v.rest = val.encode ++ r) :
    (ztlvGetIgnore v).2 = v.skip val.encode.length ↔ SkipOk v r val := by
  cases val with
  | nil =>
      rw [ignore_other (c := []) h (Or.inl rfl)]
      exact ⟨fun _ => trivial, fun _ => rfl⟩
  | bool b => exact ignore_bool hlt h
  | int n => exact ignore_int h
  | int64 n =>
      have h10 := length_encode64 (zcdrEncode64 n)
      have hpos := Leb128.length_encode_pos (zcdrEncode64 n).toNat
      rw [ignore_other h (Or.inr (Or.inl rfl)), TlvVal.encode, tlvInt64, List.length_cons,
        ZBuf.skip_inj (by decide) (by omega)]
      exact iff_of_false (by omega) id
  | str bs => exact ignore_str hlt h
  | table es =>
      rw [TlvVal.encode] at h ⊢
      have hpos := Leb128.length_encode_pos es.count
      have hlen := congrArg List.length h
      have hrest := rest_lt hlt
      rw [List.length_append, List.length_cons, List.length_append] at hlen
      rw [ignore_other h (Or.inr (Or.inr rfl)), List.length_cons, List.length_append,
        ZBuf.skip_inj (by decide) (by omega)]
      exact iff_of_false (by omega) id

end Skip

end Zcrt
