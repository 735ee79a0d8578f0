/-
  The typed readers and writers of `zipc/zipc_tlv.c`.

  A reader returns what it stores through its out parameter (`none` when it returns `false`, the
  parameter then untouched) and the buffer with the cursor where it left it. Pointers are never
  `NULL` here, except the string `ztlv_put_lstring` is given.

  * `*_appends`: what each writer appends, as a type byte and the shortest varint.
  * `*_of_rest`: a reader meeting such an encoding at the cursor returns the value and skips it.
-/
import Zcrt.Tlv.Varint

namespace Zcrt

open Lib

/-! ## Type bytes -/

def ZTLV_NIL : UInt8 := 1
def ZTLV_FALSE : UInt8 := 2
def ZTLV_TRUE : UInt8 := 3
def ZTLV_INT : UInt8 := 4
def ZTLV_INT64 : UInt8 := 6
def ZTLV_STR : UInt8 := 0x11
def ZTLV_TABLE : UInt8 := 0x12

/-! ## Readers -/

/-- `buf->len-buf->offset` passed as an `int`. -/
def ZBuf.limit (v : ZBuf) : Int := (v.len - v.offset).toInt32.toInt

/-- `buf->buf+buf->offset`. -/
def ZBuf.cursor (v : ZBuf) : Mem := v.buf.shift v.offset.toNat

/-- `ztlv_get_type`. -/
def ztlvGetType (v : ZBuf) : UInt8 × ZBuf :=
  match zcrtBufGet v 1 with
  | (some data, v) => (data 0, v)
  | (none, v) => (0, v)

/-- `ztlv_read_var_int`. -/
def ztlvReadVarInt (v : ZBuf) : Option Int32 × ZBuf :=
  match zcrtTlvReadLen v.cursor v.limit with
  | (some off, value) => (some (zcrtZigZagDecode32 value), v.skip off)
  | (none, _) => (none, v)

/-- `ztlv_read_var_int64`. -/
def ztlvReadVarInt64 (v : ZBuf) : Option Int64 × ZBuf :=
  match zcdrReadLEN64 v.cursor v.limit with
  | some (r, value) => (some (zcdrDecode64 value), v.skip r)
  | none => (none, v)

/-- `ztlv_get_len`: the result, and `*v`, which is set either way. -/
def ztlvGetLen (v : ZBuf) : (Bool × UInt32) × ZBuf :=
  match zcrtTlvReadLen v.cursor v.limit with
  | (some off, value) => ((true, value), v.skip off)
  | (none, value) => ((false, value), v)

/-- `ztlv_get_bool`. -/
def ztlvGetBool (v : ZBuf) : Option Bool × ZBuf :=
  let (ty, v) := ztlvGetType v
  if ty = ZTLV_TRUE then (some true, v)
  else if ty = ZTLV_FALSE then (some false, v)
  else (none, v)

/-- `ztlv_get_int`. -/
def ztlvGetInt (v : ZBuf) : Option Int32 × ZBuf :=
  let (ty, v) := ztlvGetType v
  if ty = ZTLV_INT then ztlvReadVarInt v
  else if ty = ZTLV_INT64 then
    let (nv, v) := ztlvReadVarInt64 v
    (nv.map Int64.toInt32, v)
  else (none, v)

/-- `ztlv_get_uint32`: `ztlv_get_int` through a cast pointer. -/
def ztlvGetUint32 (v : ZBuf) : Option UInt32 × ZBuf :=
  let (nv, v) := ztlvGetInt v
  (nv.map Int32.toUInt32, v)

/-- `ztlv_get_int64`. -/
def ztlvGetInt64 (v : ZBuf) : Option Int64 × ZBuf :=
  let (ty, v) := ztlvGetType v
  if ty = ZTLV_INT then
    let (nv, v) := ztlvReadVarInt v
    (nv.map Int32.toInt64, v)
  else if ty = ZTLV_INT64 then ztlvReadVarInt64 v
  else (none, v)

/-- `ztlv_get_string`. The result of `ztlv_get_len` is not looked at. -/
def ztlvGetString (v : ZBuf) : Option ZStr × ZBuf :=
  let (ty, v) := ztlvGetType v
  if ty ≠ ZTLV_STR then (none, v) else
  let ((_, len), v) := ztlvGetLen v
  zcrtBufGetstr v len

theorem ztlvGetString_eq (v : ZBuf) :
    ztlvGetString v = if (ztlvGetType v).1 ≠ ZTLV_STR then (none, (ztlvGetType v).2)
      else zcrtBufGetstr (ztlvGetLen (ztlvGetType v).2).2 (ztlvGetLen (ztlvGetType v).2).1.2 := by
  unfold ztlvGetString
  rcases ztlvGetType v with ⟨ty, v1⟩
  rfl

/-- `ztlv_get_table_cnt`. -/
def ztlvGetTableCnt (v : ZBuf) : Option UInt32 × ZBuf :=
  let (ty, v) := ztlvGetType v
  if ty ≠ ZTLV_TABLE then (none, v) else
  let ((ok, cnt), v) := ztlvGetLen v
  (if ok then some cnt else none, v)

/-- `ztlv_get_ignore`: the type byte is read here, and once more by the reader called. -/
def ztlvGetIgnore (v : ZBuf) : Bool × ZBuf :=
  let (ty, v) := ztlvGetType v
  if ty = ZTLV_FALSE ∨ ty = ZTLV_TRUE then (true, (ztlvGetBool v).2)
  else if ty = ZTLV_INT then (true, (ztlvGetInt v).2)
  else if ty = ZTLV_STR then (true, (ztlvGetString v).2)
  else (false, v)

/-! ## Writers -/

/-- Room for the longest code, then the code itself: `ztlv_write_var_int`, `ztlv_put_len` and
    `ztlv_write_var_int64` differ in `room` and in the bytes. -/
def appendCode (v : ZBuf) (room : UInt32) (code : List UInt8) : Option ZBuf :=
  (zcrtBufRealloc v (v.len + room)).map fun v =>
    { v with buf := v.buf.copy v.len.toNat code, len := v.len + UInt32.ofNat code.length }

/-- `ztlv_put_type`. -/
def ztlvPutType (v : ZBuf) (ty : UInt8) : Option ZBuf := zcrtBufAppend v [ty]

/-- `ztlv_write_var_int`. -/
def ztlvWriteVarInt (v : ZBuf) (value : Int32) : Option ZBuf :=
  appendCode v 5 (zcrtTlvWriteLen (zcrtZigZagEncode32 value))

/-- `ztlv_write_var_int64`. -/
def ztlvWriteVarInt64 (v : ZBuf) (value : Int64) : Option ZBuf :=
  appendCode v 10 (zcdrWriteLEN64 (zcdrEncode64 value))

/-- `ztlv_put_len`. -/
def ztlvPutLen (v : ZBuf) (len : UInt32) : Option ZBuf := appendCode v 5 (zcrtTlvWriteLen len)

/-- `ztlv_put_bool`. -/
def ztlvPutBool (v : ZBuf) (b : Bool) : Option ZBuf :=
  ztlvPutType v (if b then ZTLV_TRUE else ZTLV_FALSE)

/-- `ztlv_put_int`. -/
def ztlvPutInt (v : ZBuf) (n : Int32) : Option ZBuf :=
  (ztlvPutType v ZTLV_INT).bind (ztlvWriteVarInt · n)

/-- `_ZTLV_VAL_IS_INT32`: the least 32-bit value is left out. -/
def ztlvValIsInt32 (n : Int64) : Bool := n ≤ 2147483647 && n ≥ -2147483647

/-- `ztlv_put_uint32`. -/
def ztlvPutUint32 (v : ZBuf) (n : UInt32) : Option ZBuf :=
  if ztlvValIsInt32 n.toUInt64.toInt64 then
    (ztlvPutType v ZTLV_INT).bind (ztlvWriteVarInt · n.toInt32)
  else
    (ztlvPutType v ZTLV_INT64).bind (ztlvWriteVarInt64 · n.toUInt64.toInt64)

/-- `ztlv_put_int64`. -/
def ztlvPutInt64 (v : ZBuf) (n : Int64) : Option ZBuf :=
  if ztlvValIsInt32 n then
    (ztlvPutType v ZTLV_INT).bind (ztlvWriteVarInt · n.toInt32)
  else
    (ztlvPutType v ZTLV_INT64).bind (ztlvWriteVarInt64 · n)

/-- `ztlv_put_lstring(buf, v, len)`: `none` is a `NULL` pointer, `some bs` the `len` bytes at it. -/
def ztlvPutLstring (v : ZBuf) : Option (List UInt8) → Option ZBuf
  | none => ztlvPutType v ZTLV_NIL
  | some bs =>
      (ztlvPutType v ZTLV_STR).bind fun v =>
        (ztlvPutLen v (UInt32.ofNat bs.length)).bind (zcrtBufAppend · bs)

/-- `ztlv_put_table_cnt`. -/
def ztlvPutTableCnt (v : ZBuf) (cnt : UInt32) : Option ZBuf :=
  (ztlvPutType v ZTLV_TABLE).bind (ztlvPutLen · cnt)

/-! ## The encodings -/

/-- The encoding of a signed 32-bit integer. -/
def tlvInt (n : Int32) : List UInt8 := ZTLV_INT :: Leb128.encode (zcrtZigZagEncode32 n).toNat

/-- The encoding of a signed 64-bit integer that is not sent as a 32-bit one. -/
def tlvInt64 (n : Int64) : List UInt8 := ZTLV_INT64 :: Leb128.encode (zcdrEncode64 n).toNat

/-- The encoding of a string. -/
def tlvStr (bs : List UInt8) : List UInt8 := ZTLV_STR :: (Leb128.encode bs.length ++ bs)

/-- The encoding of a table count. -/
def tlvTable (cnt : UInt32) : List UInt8 := ZTLV_TABLE :: Leb128.encode cnt.toNat

theorem length_encode32 (n : UInt32) : (Leb128.encode n.toNat).length ≤ 5 :=
  Leb128.length_encode_le (by decide) (lt_of_lt_of_le n.toNat_lt (by decide))

theorem length_encode64 (n : UInt64) : (Leb128.encode n.toNat).length ≤ 10 :=
  Leb128.length_encode_le (by decide) (lt_of_lt_of_le n.toNat_lt (by decide))

theorem length_code32 (n : UInt32) : (zcrtTlvWriteLen n).length ≤ 5 := by
  rw [zcrtTlvWriteLen_eq]
  exact length_encode32 n

theorem length_code64 (n : UInt64) : (zcdrWriteLEN64 n).length ≤ 10 := by
  rw [zcdrWriteLEN64_eq]
  exact length_encode64 n

theorem appendCode_appends {v : ZBuf} {room : UInt32} {code : List UInt8}
    (hc : code.length ≤ room.toNat) (h : v.len.toNat + room.toNat < 2 ^ 31 - 1) :
    ∃ v', appendCode v room code = some v' ∧ Appends v v' code := by
  have hroom : (v.len + room).toNat = v.len.toNat + room.toNat := by
    rw [UInt32.toNat_add]
    omega
  obtain ⟨v', hv', hs⟩ := zcrtBufRealloc_of_lt (v := v)
    (show (v.len + room).toNat < 2 ^ 31 - 1 by omega)
  have hl : (v'.len + UInt32.ofNat code.length).toNat = v.len.toNat + code.length := by
    rw [hs.len, UInt32.toNat_add, UInt32.toNat_ofNat']
    omega
  unfold appendCode
  rw [hv']
  exact ⟨_, rfl, appends_copy hs hl⟩

/-- A code written has been appended, unless `len` wrapped. -/
theorem appends_of_code {v v' : ZBuf} {room : UInt32} {code : List UInt8}
    (h : appendCode v room code = some v') (hlen : v.len.toNat + code.length < 2 ^ 32) :
    Appends v v' code := by
  unfold appendCode at h
  obtain ⟨w, hw, rfl⟩ := Option.map_eq_some_iff.mp h
  have hs := zcrtBufRealloc_same hw
  refine appends_copy hs ?_
  rw [hs.len, UInt32.toNat_add, UInt32.toNat_ofNat']
  omega

/-- One writer after another. -/
theorem bind_appends {v : ZBuf} {x : Option ZBuf} {f : ZBuf → Option ZBuf} {a b : List UInt8}
    (h1 : ∃ v1, x = some v1 ∧ Appends v v1 a)
    (h2 : ∀ v1, Appends v v1 a → ∃ v2, f v1 = some v2 ∧ Appends v1 v2 b) :
    ∃ v2, x.bind f = some v2 ∧ Appends v v2 (a ++ b) := by
  obtain ⟨v1, rfl, ha⟩ := h1
  obtain ⟨v2, hv2, hb⟩ := h2 v1 ha
  exact ⟨v2, hv2, ha.trans hb⟩

theorem ztlvPutType_appends {v : ZBuf} (ty : UInt8) (h : v.len.toNat + 1 < 2 ^ 31 - 1) :
    ∃ v', ztlvPutType v ty = some v' ∧ Appends v v' [ty] :=
  zcrtBufAppend_appends h

theorem ztlvWriteVarInt_appends {v : ZBuf} (n : Int32) (h : v.len.toNat + 5 < 2 ^ 31 - 1) :
    ∃ v', ztlvWriteVarInt v n = some v' ∧
      Appends v v' (Leb128.encode (zcrtZigZagEncode32 n).toNat) := by
  unfold ztlvWriteVarInt
  rw [zcrtTlvWriteLen_eq]
  exact appendCode_appends (length_encode32 _) h

theorem ztlvWriteVarInt64_appends {v : ZBuf} (n : Int64) (h : v.len.toNat + 10 < 2 ^ 31 - 1) :
    ∃ v', ztlvWriteVarInt64 v n = some v' ∧
      Appends v v' (Leb128.encode (zcdrEncode64 n).toNat) := by
  unfold ztlvWriteVarInt64
  rw [zcdrWriteLEN64_eq]
  exact appendCode_appends (length_encode64 _) h

theorem ztlvPutLen_appends {v : ZBuf} (len : UInt32) (h : v.len.toNat + 5 < 2 ^ 31 - 1) :
    ∃ v', ztlvPutLen v len = some v' ∧ Appends v v' (Leb128.encode len.toNat) := by
  unfold ztlvPutLen
  rw [zcrtTlvWriteLen_eq]
  exact appendCode_appends (length_encode32 _) h

/-- A type byte and a 32-bit varint. -/
theorem putInt_appends {v : ZBuf} (n : Int32) (h : v.len.toNat + 6 < 2 ^ 31 - 1) :
    ∃ v', (ztlvPutType v ZTLV_INT).bind (ztlvWriteVarInt · n) = some v' ∧
      Appends v v' (tlvInt n) :=
  bind_appends (ztlvPutType_appends _ (by omega)) fun v1 h1 =>
    ztlvWriteVarInt_appends n (by rw [h1.len, List.length_singleton]; omega)

/-- A type byte and a 64-bit varint. -/
theorem putInt64_appends {v : ZBuf} (n : Int64) (h : v.len.toNat + 11 < 2 ^ 31 - 1) :
    ∃ v', (ztlvPutType v ZTLV_INT64).bind (ztlvWriteVarInt64 · n) = some v' ∧
      Appends v v' (tlvInt64 n) :=
  bind_appends (ztlvPutType_appends _ (by omega)) fun v1 h1 =>
    ztlvWriteVarInt64_appends n (by rw [h1.len, List.length_singleton]; omega)

theorem ztlvPutBool_appends {v : ZBuf} (b : Bool) (h : v.len.toNat + 1 < 2 ^ 31 - 1) :
    ∃ v', ztlvPutBool v b = some v' ∧ Appends v v' [if b then ZTLV_TRUE else ZTLV_FALSE] :=
  ztlvPutType_appends _ h

theorem ztlvPutInt_appends {v : ZBuf} (n : Int32) (h : v.len.toNat + 6 < 2 ^ 31 - 1) :
    ∃ v', ztlvPutInt v n = some v' ∧ Appends v v' (tlvInt n) :=
  putInt_appends n h

/-- What `ztlv_put_uint32` writes. -/
def tlvUint32 (n : UInt32) : List UInt8 :=
  if ztlvValIsInt32 n.toUInt64.toInt64 then tlvInt n.toInt32 else tlvInt64 n.toUInt64.toInt64

/-- What `ztlv_put_int64` writes. -/
def tlvLong (n : Int64) : List UInt8 :=
  if ztlvValIsInt32 n then tlvInt n.toInt32 else tlvInt64 n

theorem ztlvPutUint32_appends {v : ZBuf} (n : UInt32) (h : v.len.toNat + 11 < 2 ^ 31 - 1) :
    ∃ v', ztlvPutUint32 v n = some v' ∧ Appends v v' (tlvUint32 n) := by
  unfold ztlvPutUint32 tlvUint32
  split
  · exact putInt_appends _ (by omega)
  · exact putInt64_appends _ h

theorem ztlvPutInt64_appends {v : ZBuf} (n : Int64) (h : v.len.toNat + 11 < 2 ^ 31 - 1) :
    ∃ v', ztlvPutInt64 v n = some v' ∧ Appends v v' (tlvLong n) := by
  unfold ztlvPutInt64 tlvLong
  split
  · exact putInt_appends _ (by omega)
  · exact putInt64_appends _ h

theorem ztlvPutTableCnt_appends {v : ZBuf} (cnt : UInt32) (h : v.len.toNat + 6 < 2 ^ 31 - 1) :
    ∃ v', ztlvPutTableCnt v cnt = some v' ∧ Appends v v' (tlvTable cnt) :=
  bind_appends (ztlvPutType_appends _ (by omega)) fun v1 h1 =>
    ztlvPutLen_appends cnt (by rw [h1.len, List.length_singleton]; omega)

theorem ztlvPutLstring_appends {v : ZBuf} (bs : List UInt8)
    (h : v.len.toNat + bs.length + 6 < 2 ^ 31 - 1) :
    ∃ v', ztlvPutLstring v (some bs) = some v' ∧ Appends v v' (tlvStr bs) := by
  have hn : (UInt32.ofNat bs.length).toNat = bs.length := by
    rw [UInt32.toNat_ofNat']
    omega
  have hlen := length_encode32 (UInt32.ofNat bs.length)
  have hput := fun (v1 : ZBuf) (h1 : v1.len.toNat + 5 < 2 ^ 31 - 1) =>
    ztlvPutLen_appends (UInt32.ofNat bs.length) h1
  rw [hn] at hlen hput
  refine bind_appends (ztlvPutType_appends _ (by omega)) fun v1 h1 => ?_
  have h1' := h1.len
  rw [List.length_singleton] at h1'
  refine bind_appends (hput v1 (by omega)) fun v2 h2 => ?_
  exact zcrtBufAppend_appends (by rw [h2.len]; omega)

/-! ## Reading an encoding at the cursor -/

theorem ZBuf.limit_eq {v : ZBuf} (ho : v.offset ≤ v.len) (h : v.rest.length < 2 ^ 31) :
    v.limit = v.rest.length := by
  have ho' := UInt32.le_iff_toNat_le.mp ho
  have hsub := UInt32.toNat_sub_of_le _ _ ho
  rw [ZBuf.rest_length] at h ⊢
  unfold ZBuf.limit
  rw [← Int32.toInt_toBitVec, UInt32.toBitVec_toInt32, BitVec.toInt_eq_toNat_of_lt,
    UInt32.toNat_toBitVec, hsub]
  rw [UInt32.toNat_toBitVec, hsub]
  omega

/-- The cursor sees the bytes left to read. -/
theorem ZBuf.cursor_apply {v : ZBuf} {a b : List UInt8} (h : v.rest = a ++ b) {j : Nat}
    (hj : j < a.length) : v.cursor j = a[j] :=
  ZBuf.rest_apply h hj

theorem ztlvGetType_eq (v : ZBuf) :
    ztlvGetType v = if v.offset + 1 > v.len then (0, v) else (v.cursor 0, v.skip 1) := by
  unfold ztlvGetType zcrtBufGet
  rw [if_neg (by decide)]
  by_cases h : v.offset + 1 > v.len
  · rw [if_pos h, if_pos h]
  · rw [if_neg h, if_neg h]
    rfl

theorem ztlvGetType_of_rest {v : ZBuf} {ty : UInt8} {r : List UInt8} (h : v.rest = ty :: r) :
    ztlvGetType v = (ty, v.skip 1) := by
  have ho := ZBuf.offset_le_of_rest (v := v) (by rw [h]; simp)
  have hle : (v.skip 1).offset ≤ v.len := ZBuf.skip_offset_le (by rw [h]; simp) ho
  have hty : v.cursor 0 = ty := ZBuf.cursor_apply (a := [ty]) (b := r) h (j := 0) (by simp)
  rw [ztlvGetType_eq, if_neg (show ¬v.offset + 1 > v.len from UInt32.not_lt.mpr hle), hty]

/-- The 32-bit reader on a terminated group at the cursor. -/
theorem zcrtTlvReadLen_of_rest {v : ZBuf} {bs r : List UInt8} (h : v.rest = bs ++ r)
    (ht : Leb128.Terminated bs) (h5 : bs.length ≤ 5) (hlt : v.rest.length < 2 ^ 31) :
    zcrtTlvReadLen v.cursor v.limit = (some bs.length, UInt32.ofNat (Leb128.value bs)) := by
  have hne : v.rest ≠ [] := by
    have := ht.length_pos
    rw [h, ← List.length_pos_iff, List.length_append]
    omega
  have hl : bs.length ≤ v.rest.length := by rw [h]; simp
  rw [zcrtTlvReadLen_eq, ZBuf.limit_eq (ZBuf.offset_le_of_rest hne) hlt,
    Leb128.group_eq_some.mpr ⟨ht, by unfold readable32; omega, fun j hj => ZBuf.cursor_apply h hj⟩]
  rfl

/-- The 64-bit reader on a terminated group at the cursor. -/
theorem zcdrReadLEN64_of_rest {v : ZBuf} {bs r : List UInt8} (h : v.rest = bs ++ r)
    (ht : Leb128.Terminated bs) (h10 : bs.length ≤ 10) (hlt : v.rest.length < 2 ^ 31) :
    zcdrReadLEN64 v.cursor v.limit = some (bs.length, UInt64.ofNat (Leb128.value bs)) := by
  have hne : v.rest ≠ [] := by
    have := ht.length_pos
    rw [h, ← List.length_pos_iff, List.length_append]
    omega
  have hl : bs.length ≤ v.rest.length := by rw [h]; simp
  rw [zcdrReadLEN64_eq, ZBuf.limit_eq (ZBuf.offset_le_of_rest hne) hlt,
    Leb128.group_eq_some.mpr ⟨ht, by unfold readable64; split_ifs <;> omega,
      fun j hj => ZBuf.cursor_apply h hj⟩]
  rfl

theorem ztlvReadVarInt_of_rest {v : ZBuf} {n : Int32} {r : List UInt8}
    (h : v.rest = Leb128.encode (zcrtZigZagEncode32 n).toNat ++ r) (hlt : v.rest.length < 2 ^ 31) :
    ztlvReadVarInt v = (some n, v.skip (Leb128.encode (zcrtZigZagEncode32 n).toNat).length) := by
  unfold ztlvReadVarInt
  rw [zcrtTlvReadLen_of_rest h (Leb128.terminated_encode _) (length_encode32 _) hlt]
  simp only [Leb128.value_encode, UInt32.ofNat_toNat, zcrtZigZagDecode32_encode]

theorem ztlvReadVarInt64_of_rest {v : ZBuf} {n : Int64} {r : List UInt8}
    (h : v.rest = Leb128.encode (zcdrEncode64 n).toNat ++ r) (hlt : v.rest.length < 2 ^ 31) :
    ztlvReadVarInt64 v = (some n, v.skip (Leb128.encode (zcdrEncode64 n).toNat).length) := by
  unfold ztlvReadVarInt64
  rw [zcdrReadLEN64_of_rest h (Leb128.terminated_encode _) (length_encode64 _) hlt]
  simp only [Leb128.value_encode, UInt64.ofNat_toNat, zcdrDecode64_encode]

theorem ztlvGetLen_of_rest {v : ZBuf} {len : UInt32} {r : List UInt8}
    (h : v.rest = Leb128.encode len.toNat ++ r) (hlt : v.rest.length < 2 ^ 31) :
    ztlvGetLen v = ((true, len), v.skip (Leb128.encode len.toNat).length) := by
  unfold ztlvGetLen
  rw [zcrtTlvReadLen_of_rest h (Leb128.terminated_encode _) (length_encode32 _) hlt]
  simp only [Leb128.value_encode, UInt32.ofNat_toNat]

/-- The type byte and what follows it. -/
theorem rest_after_type {v : ZBuf} {ty : UInt8} {r : List UInt8} (h : v.rest = ty :: r)
    (hlt : v.rest.length < 2 ^ 31) : (v.skip 1).rest = r ∧ (v.skip 1).rest.length < 2 ^ 31 := by
  have hr : (v.skip 1).rest = r := ZBuf.rest_skip (a := [ty]) h
  have := congrArg List.length h
  rw [List.length_cons] at this
  exact ⟨hr, by rw [hr]; omega⟩

theorem ztlvGetBool_of_rest {v : ZBuf} {b : Bool} {r : List UInt8}
    (h : v.rest = (if b then ZTLV_TRUE else ZTLV_FALSE) :: r) :
    ztlvGetBool v = (some b, v.skip 1) := by
  unfold ztlvGetBool
  rw [ztlvGetType_of_rest h]
  cases b <;> rfl

theorem ztlvGetInt_of_rest {v : ZBuf} {n : Int32} {r : List UInt8}
    (h : v.rest = tlvInt n ++ r) (hlt : v.rest.length < 2 ^ 31) :
    ztlvGetInt v = (some n, v.skip (tlvInt n).length) := by
  obtain ⟨h1, hlt1⟩ := rest_after_type h hlt
  unfold ztlvGetInt
  rw [ztlvGetType_of_rest h]
  dsimp only
  rw [if_pos rfl, ztlvReadVarInt_of_rest h1 hlt1, ZBuf.skip_skip, Nat.add_comm]
  rfl

/-- A 64-bit code read by the 32-bit reader loses its upper half. -/
theorem ztlvGetInt_of_rest_int64 {v : ZBuf} {n : Int64} {r : List UInt8}
    (h : v.rest = tlvInt64 n ++ r) (hlt : v.rest.length < 2 ^ 31) :
    ztlvGetInt v = (some n.toInt32, v.skip (tlvInt64 n).length) := by
  obtain ⟨h1, hlt1⟩ := rest_after_type h hlt
  unfold ztlvGetInt
  rw [ztlvGetType_of_rest h]
  dsimp only
  rw [if_neg (by decide), if_pos rfl, ztlvReadVarInt64_of_rest h1 hlt1, ZBuf.skip_skip,
    Nat.add_comm]
  rfl

theorem uint32_of_int64 (n : UInt32) : n.toUInt64.toInt64.toInt32.toUInt32 = n := by
  apply UInt32.toBitVec_inj.mp
  change (n.toBitVec.setWidth 64).signExtend 32 = n.toBitVec
  rw [BitVec.signExtend_eq_setWidth_of_le _ (by decide),
    BitVec.setWidth_setWidth_of_le _ (by decide),
    BitVec.setWidth_eq]

theorem ztlvGetUint32_of_rest {v : ZBuf} {n : UInt32} {r : List UInt8}
    (h : v.rest = tlvUint32 n ++ r) (hlt : v.rest.length < 2 ^ 31) :
    ztlvGetUint32 v = (some n, v.skip (tlvUint32 n).length) := by
  unfold ztlvGetUint32
  unfold tlvUint32 at h ⊢
  split at h
  · next hs =>
      rw [if_pos hs, ztlvGetInt_of_rest h hlt]
      simp
  · next hs =>
      rw [if_neg hs, ztlvGetInt_of_rest_int64 h hlt]
      exact congrArg (some ·, _) (uint32_of_int64 n)

theorem int64_of_isInt32 {n : Int64} (h : ztlvValIsInt32 n = true) : n.toInt32.toInt64 = n := by
  unfold ztlvValIsInt32 at h
  rw [Bool.and_eq_true, decide_eq_true_iff, decide_eq_true_iff, ge_iff_le, Int64.le_iff_toInt_le,
    Int64.le_iff_toInt_le] at h
  change n.toInt ≤ 2147483647 ∧ -2147483647 ≤ n.toInt at h
  apply Int64.toInt_inj.mp
  rw [Int32.toInt_toInt64, Int64.toInt_toInt32]
  exact Int.bmod_eq_of_le_mul_two (by omega) (by omega)

/-- A 32-bit code read by the 64-bit reader is sign-extended. -/
theorem ztlvGetInt64_of_rest_int {v : ZBuf} {n : Int32} {r : List UInt8}
    (h : v.rest = tlvInt n ++ r) (hlt : v.rest.length < 2 ^ 31) :
    ztlvGetInt64 v = (some n.toInt64, v.skip (tlvInt n).length) := by
  obtain ⟨h1, hlt1⟩ := rest_after_type h hlt
  unfold ztlvGetInt64
  rw [ztlvGetType_of_rest h]
  dsimp only
  rw [if_pos rfl, ztlvReadVarInt_of_rest h1 hlt1, ZBuf.skip_skip, Nat.add_comm]
  rfl

theorem ztlvGetInt64_of_rest_int64 {v : ZBuf} {n : Int64} {r : List UInt8}
    (h : v.rest = tlvInt64 n ++ r) (hlt : v.rest.length < 2 ^ 31) :
    ztlvGetInt64 v = (some n, v.skip (tlvInt64 n).length) := by
  obtain ⟨h1, hlt1⟩ := rest_after_type h hlt
  unfold ztlvGetInt64
  rw [ztlvGetType_of_rest h]
  dsimp only
  rw [if_neg (by decide), if_pos rfl, ztlvReadVarInt64_of_rest h1 hlt1, ZBuf.skip_skip,
    Nat.add_comm]
  rfl

theorem ztlvGetInt64_of_rest {v : ZBuf} {n : Int64} {r : List UInt8}
    (h : v.rest = tlvLong n ++ r) (hlt : v.rest.length < 2 ^ 31) :
    ztlvGetInt64 v = (some n, v.skip (tlvLong n).length) := by
  unfold tlvLong at h ⊢
  split at h
  · next hs =>
      rw [if_pos hs, ztlvGetInt64_of_rest_int h hlt, int64_of_isInt32 hs]
  · next hs =>
      rw [if_neg hs]
      exact ztlvGetInt64_of_rest_int64 h hlt

theorem ztlvGetTableCnt_of_rest {v : ZBuf} {cnt : UInt32} {r : List UInt8}
    (h : v.rest = tlvTable cnt ++ r) (hlt : v.rest.length < 2 ^ 31) :
    ztlvGetTableCnt v = (some cnt, v.skip (tlvTable cnt).length) := by
  obtain ⟨h1, hlt1⟩ := rest_after_type h hlt
  unfold ztlvGetTableCnt
  rw [ztlvGetType_of_rest h]
  dsimp only
  rw [if_neg (by decide), ztlvGetLen_of_rest h1 hlt1, ZBuf.skip_skip, Nat.add_comm]
  rfl

/-- `zcrt_buf_getstr` when the bytes are there. -/
theorem zcrtBufGetstr_of_rest {v : ZBuf} {bs r : List UInt8} (ho : v.offset ≤ v.len)
    (h : v.rest = bs ++ r) :
    zcrtBufGetstr v (UInt32.ofNat bs.length) =
      (some ⟨UInt32.ofNat bs.length, v.cursor⟩, v.skip bs.length) := by
  have hl : bs.length ≤ v.rest.length := by rw [h]; simp
  have hsk := ZBuf.skip_offset hl ho
  rw [ZBuf.rest_length] at hl
  have ho' := UInt32.le_iff_toNat_le.mp ho
  unfold zcrtBufGetstr
  dsimp only
  rw [if_neg]
  · rfl
  · rw [gt_iff_lt, UInt32.lt_iff_toNat_lt]
    change ¬v.len.toNat < (v.skip bs.length).offset.toNat
    omega

theorem ztlvGetString_of_rest {v : ZBuf} {bs r : List UInt8}
    (h : v.rest = tlvStr bs ++ r) (hlt : v.rest.length < 2 ^ 31) :
    ∃ s, ztlvGetString v = (some s, v.skip (tlvStr bs).length) ∧ s.bytes = bs := by
  have hbs : bs.length < 2 ^ 32 := by
    have := congrArg List.length h
    simp only [tlvStr, List.length_append, List.length_cons] at this
    omega
  have hn : (UInt32.ofNat bs.length).toNat = bs.length := by
    rw [UInt32.toNat_ofNat', Nat.mod_eq_of_lt hbs]
  have h' : v.rest = ZTLV_STR :: (Leb128.encode (UInt32.ofNat bs.length).toNat ++ (bs ++ r)) := by
    rw [h, hn, tlvStr, List.cons_append, List.append_assoc]
  obtain ⟨h1, hlt1⟩ := rest_after_type h' hlt
  have h2 := ZBuf.rest_skip h1
  have ho : (v.skip 1).offset ≤ (v.skip 1).len := by
    refine ZBuf.skip_offset_le ?_ (ZBuf.offset_le_of_rest ?_)
    · rw [h']
      simp
    · rw [h']
      simp
  have ho2 := ZBuf.skip_offset_le
    (n := (Leb128.encode (UInt32.ofNat bs.length).toNat).length) (by rw [h1]; simp) ho
  refine ⟨⟨UInt32.ofNat bs.length,
    ((v.skip 1).skip (Leb128.encode (UInt32.ofNat bs.length).toNat).length).cursor⟩, ?_, ?_⟩
  · unfold ztlvGetString
    rw [ztlvGetType_of_rest h']
    dsimp only
    rw [if_neg (by decide), ztlvGetLen_of_rest h1 hlt1]
    dsimp only
    rw [zcrtBufGetstr_of_rest ho2 h2, ZBuf.skip_skip, ZBuf.skip_skip, hn]
    simp only [tlvStr, List.length_cons, List.length_append]
    rw [Nat.add_assoc 1, Nat.add_comm 1 (_ + bs.length)]
  · unfold ZStr.bytes
    dsimp only
    apply List.ext_getElem (by simp [hn])
    intro j hj1 hj2
    rw [Mem.getElem_slice, Nat.zero_add]
    exact ZBuf.cursor_apply h2 hj2

end Zcrt
