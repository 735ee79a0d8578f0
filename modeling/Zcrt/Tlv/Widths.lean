/-
  Integers written by one of `ztlv_put_int`, `ztlv_put_uint32` and `ztlv_put_int64` and read by any
  of `ztlv_get_int`, `ztlv_get_uint32` and `ztlv_get_int64`.

  * `IntWidth.written_cases`: the integer is written in the 32-bit or the 64-bit form.
  * `IntWidth.get_of_int`, `get_of_int64`: every reader takes both forms.
  * `widths_agree`: so an integer that both ends can hold comes back as it was.
-/
import Zcrt.Tlv.Value

namespace Zcrt

open Lib

/-- The widths of the three writers and of the three readers. -/
inductive IntWidth
  | int
  | uint32
  | int64
deriving DecidableEq

namespace IntWidth

/-- The integers of the width. -/
def Holds : IntWidth → Int → Prop
  | int, n => -2 ^ 31 ≤ n ∧ n < 2 ^ 31
  | uint32, n => 0 ≤ n ∧ n < 2 ^ 32
  | int64, n => -2 ^ 63 ≤ n ∧ n < 2 ^ 63

instance : ∀ (w : IntWidth) (n : Int), Decidable (w.Holds n)
  | int, _ => inferInstanceAs (Decidable (_ ∧ _))
  | uint32, _ => inferInstanceAs (Decidable (_ ∧ _))
  | int64, _ => inferInstanceAs (Decidable (_ ∧ _))

/-- The writer of the width. -/
def put (v : ZBuf) (n : Int) : IntWidth → Option ZBuf
  | int => ztlvPutInt v (Int32.ofInt n)
  | uint32 => ztlvPutUint32 v (UInt32.ofInt n)
  | int64 => ztlvPutInt64 v (Int64.ofInt n)

/-- The reader of the width. -/
def get (v : ZBuf) : IntWidth → Option Int × ZBuf
  | int => ((ztlvGetInt v).1.map Int32.toInt, (ztlvGetInt v).2)
  | uint32 => ((ztlvGetUint32 v).1.map fun n => (n.toNat : Int), (ztlvGetUint32 v).2)
  | int64 => ((ztlvGetInt64 v).1.map Int64.toInt, (ztlvGetInt64 v).2)

/-! ## Writing -/

/-- A type byte and a code appended, the buffer not wrapped around. -/
theorem appends_typed {v v' : ZBuf} {ty : UInt8} {room : UInt32} {code bs : List UInt8}
    (h : (ztlvPutType v ty).bind (appendCode · room code) = some v') (hbs : Appends v v' bs)
    (hcode : code.length ≤ 10) : bs = ty :: code := by
  obtain ⟨v1, h1, h2⟩ := Option.bind_eq_some_iff.mp h
  have hlen := hbs.len
  have hlt := v'.len.toNat_lt
  have hv := v.len.toNat_lt
  by_cases hwrap : v.len.toNat + 1 < 2 ^ 32
  · have a1 := appends_of_append h1 hwrap
    have l1 := a1.len
    rw [List.length_singleton] at l1
    by_cases hwrap2 : v1.len.toNat + code.length < 2 ^ 32
    · have a2 := a1.trans (appends_of_code h2 hwrap2)
      exact List.append_cancel_left (hbs.bytes.symm.trans a2.bytes)
    · -- then `len` has become small
      obtain ⟨w, hw, rfl⟩ := Option.map_eq_some_iff.mp h2
      dsimp only at hlen
      rw [(zcrtBufRealloc_same hw).len, UInt32.toNat_add, UInt32.toNat_ofNat'] at hlen
      omega
  · have l1 : v1.len = 0 := by
      unfold ztlvPutType zcrtBufAppend at h1
      rw [if_neg (by simp)] at h1
      obtain ⟨w, -, rfl⟩ := Option.map_eq_some_iff.mp h1
      apply UInt32.toNat_inj.mp
      dsimp only
      rw [UInt32.toNat_add, List.length_singleton]
      change (v.len.toNat + 1) % 2 ^ 32 = 0
      omega
    have a2 := appends_of_code h2 (by rw [l1, UInt32.toNat_zero]; omega)
    have l2 := a2.len
    rw [l1, UInt32.toNat_zero] at l2
    omega

theorem written_int {v v' : ZBuf} {n : Int32} {bs : List UInt8}
    (h : (ztlvPutType v ZTLV_INT).bind (ztlvWriteVarInt · n) = some v') (hbs : Appends v v' bs) :
    bs = tlvInt n := by
  rw [appends_typed h hbs ((length_code32 _).trans (by decide)), zcrtTlvWriteLen_eq]
  rfl

theorem written_int64 {v v' : ZBuf} {n : Int64} {bs : List UInt8}
    (h : (ztlvPutType v ZTLV_INT64).bind (ztlvWriteVarInt64 · n) = some v')
    (hbs : Appends v v' bs) : bs = tlvInt64 n := by
  rw [appends_typed h hbs (length_code64 _), zcdrWriteLEN64_eq]
  rfl

theorem isInt32_iff {n : Int64} :
    ztlvValIsInt32 n = true ↔ -2147483647 ≤ n.toInt ∧ n.toInt ≤ 2147483647 := by
  unfold ztlvValIsInt32
  rw [Bool.and_eq_true, decide_eq_true_iff, decide_eq_true_iff, ge_iff_le, Int64.le_iff_toInt_le,
    Int64.le_iff_toInt_le, and_comm]
  rfl

theorem uint32_toInt64 {n : Int} (h : 0 ≤ n ∧ n < 2 ^ 32) :
    (UInt32.ofInt n).toUInt64.toInt64 = Int64.ofInt n := by
  have hnat : (UInt32.ofInt n).toUInt64.toNat = n.toNat := by
    rw [UInt32.toNat_toUInt64, UInt32.ofInt, UInt32.toNat_ofNat']
    omega
  apply Int64.toInt_inj.mp
  rw [Int64.toInt_ofInt_of_le (by omega) (by omega), ← Int64.toInt_toBitVec,
    UInt64.toBitVec_toInt64, BitVec.toInt_eq_toNat_of_lt, UInt64.toNat_toBitVec, hnat]
  · omega
  · rw [UInt64.toNat_toBitVec, hnat]
    omega

theorem uint32_toInt32 (n : Int) : (UInt32.ofInt n).toInt32 = Int32.ofInt n := by
  apply Int32.toBitVec_inj.mp
  apply BitVec.eq_of_toNat_eq
  change (UInt32.ofInt n).toNat = (BitVec.ofInt 32 n).toNat
  rw [UInt32.ofInt, UInt32.toNat_ofNat', BitVec.toNat_ofInt]
  omega

theorem int32_toUInt32 {m : Int32} (h : 0 ≤ m.toInt) : (m.toUInt32.toNat : Int) = m.toInt := by
  rw [Int32.toNat_toUInt32_of_le (Int32.le_iff_toInt_le.mpr h)]
  exact Int.toNat_of_nonneg h

/-- The lower half of a 64-bit integer below `2^32`, read as unsigned. -/
theorem int64_toUInt32 {m : Int64} (h : 0 ≤ m.toInt ∧ m.toInt < 2 ^ 32) :
    (m.toInt32.toUInt32.toNat : Int) = m.toInt := by
  have hcond := m.toBitVec.toInt_eq_toNat_cond
  rw [Int64.toInt_toBitVec] at hcond
  rw [← UInt32.toNat_toBitVec, Int32.toBitVec_toUInt32, Int64.toBitVec_toInt32,
    BitVec.signExtend_eq_setWidth_of_le _ (by decide), BitVec.toNat_setWidth]
  split at hcond <;> omega

/-- The writer puts the integer in its 32-bit form, if it has one, or in its 64-bit form. -/
theorem written_cases {w : IntWidth} {n : Int} (hw : w.Holds n) {v v' : ZBuf} {bs : List UInt8}
    (h : w.put v n = some v') (hbs : Appends v v' bs) :
    bs = tlvInt (Int32.ofInt n) ∧ (Int32.ofInt n).toInt = n ∨
      bs = tlvInt64 (Int64.ofInt n) ∧ (Int64.ofInt n).toInt = n := by
  cases w with
  | int => exact Or.inl ⟨written_int h hbs, Int32.toInt_ofInt_of_le hw.1 hw.2⟩
  | uint32 =>
      have hn : (Int64.ofInt n).toInt = n := by
        have := hw.1
        have := hw.2
        exact Int64.toInt_ofInt_of_le (by omega) (by omega)
      change ztlvPutUint32 v (UInt32.ofInt n) = some v' at h
      unfold ztlvPutUint32 at h
      rw [uint32_toInt64 hw, uint32_toInt32] at h
      split at h
      · next hs =>
          rw [isInt32_iff, hn] at hs
          exact Or.inl ⟨written_int h hbs, Int32.toInt_ofInt_of_le (by omega) (by omega)⟩
      · exact Or.inr ⟨written_int64 h hbs, hn⟩
  | int64 =>
      have hn : (Int64.ofInt n).toInt = n := Int64.toInt_ofInt_of_le hw.1 hw.2
      change ztlvPutInt64 v (Int64.ofInt n) = some v' at h
      unfold ztlvPutInt64 at h
      rw [Int64.toInt32_ofInt] at h
      split at h
      · next hs =>
          rw [isInt32_iff, hn] at hs
          exact Or.inl ⟨written_int h hbs, Int32.toInt_ofInt_of_le (by omega) (by omega)⟩
      · exact Or.inr ⟨written_int64 h hbs, hn⟩

/-! ## Reading -/

section Reading

variable {v : ZBuf} {rest : List UInt8} (hlt : v.rest.length < 2 ^ 31)
include hlt

theorem get_of_int {r : IntWidth} {m : Int32} (hr : r.Holds m.toInt)
    (h : v.rest = tlvInt m ++ rest) : r.get v = (some m.toInt, v.skip (tlvInt m).length) := by
  cases r with
  | int =>
      unfold get
      dsimp only
      rw [ztlvGetInt_of_rest h hlt]
      rfl
  | uint32 =>
      unfold get ztlvGetUint32
      dsimp only
      rw [ztlvGetInt_of_rest h hlt]
      exact congrArg (fun x : Int => (some x, _)) (int32_toUInt32 hr.1)
  | int64 =>
      unfold get
      dsimp only
      rw [ztlvGetInt64_of_rest_int h hlt]
      exact congrArg (fun x : Int => (some x, _)) m.toInt_toInt64

theorem get_of_int64 {r : IntWidth} {m : Int64} (hr : r.Holds m.toInt)
    (h : v.rest = tlvInt64 m ++ rest) : r.get v = (some m.toInt, v.skip (tlvInt64 m).length) := by
  cases r with
  | int =>
      unfold get
      dsimp only
      rw [ztlvGetInt_of_rest_int64 h hlt]
      refine congrArg (fun x : Int => (some x, _)) ?_
      have hlo := hr.1
      have hhi := hr.2
      rw [Int64.toInt_toInt32]
      exact Int.bmod_eq_of_le_mul_two (by omega) (by omega)
  | uint32 =>
      unfold get ztlvGetUint32
      dsimp only
      rw [ztlvGetInt_of_rest_int64 h hlt]
      exact congrArg (fun x : Int => (some x, _)) (int64_toUInt32 hr)
  | int64 =>
      unfold get
      dsimp only
      rw [ztlvGetInt64_of_rest_int64 h hlt]
      rfl

end Reading

end IntWidth

/-- What one width wrote another reads, if fewer than `2^31` bytes are left in the buffer. -/
theorem widths_agree (w r : IntWidth) (n : Int) (hw : w.Holds n) (hr : r.Holds n)
    {v0 v1 v : ZBuf} {written rest : List UInt8} (hput : w.put v0 n = some v1)
    (hwritten : Appends v0 v1 written) (hv : v.rest = written ++ rest)
    (hlt : v.rest.length < 2 ^ 31) : r.get v = (some n, v.skip written.length) := by
  rcases IntWidth.written_cases hw hput hwritten with ⟨rfl, hm⟩ | ⟨rfl, hm⟩
  · have hget := IntWidth.get_of_int hlt (r := r) (by rwa [hm]) hv
    rwa [hm] at hget
  · have hget := IntWidth.get_of_int64 hlt (r := r) (by rwa [hm]) hv
    rwa [hm] at hget

/-- The least 32-bit integer goes out in the 64-bit form. -/
theorem widths_agree_least :
    ∃ v, IntWidth.int64.put (zcrtBufInit 0 fun _ => 0) (-2147483648) = some v ∧
      IntWidth.int.get v = (some (-2147483648), v.skip (tlvInt64 (-2147483648)).length) := by
  obtain ⟨v, hput, happ⟩ := ztlvPutInt64_appends (v := zcrtBufInit 0 fun _ => 0) (-2147483648)
    (by decide)
  have hwritten : tlvLong (-2147483648) = tlvInt64 (-2147483648) := if_neg (by decide)
  rw [hwritten] at happ
  have hrest : v.rest = tlvInt64 (-2147483648) ++ [] := by
    rw [ZBuf.rest_at_start happ.offset, happ.bytes, List.append_nil]
    rfl
  have hlen : (tlvInt64 (-2147483648)).length ≤ 11 := Nat.succ_le_succ (length_encode64 _)
  refine ⟨v, hput, ?_⟩
  refine widths_agree .int64 .int (-2147483648) (by decide) (by decide) hput happ hrest ?_
  rw [hrest, List.append_nil]
  omega

/-- A buffer of `2^31 + 2` bytes that starts with the integer 0. -/
def longBuf : ZBuf :=
  { maxlen := 2147483650, len := 2147483650, offset := 0, buf := fun i => if i = 0 then 4 else 0,
    alloc := 2147483650 }

/-- With `2^31` bytes behind it an integer is not read: the limit is an `int`, and negative. -/
theorem widths_disagree_long :
    ∃ v1 rest, IntWidth.int.Holds 0 ∧
      IntWidth.int.put (zcrtBufInit 0 fun _ => 0) 0 = some v1 ∧
      Appends (zcrtBufInit 0 fun _ => 0) v1 [4, 0] ∧ longBuf.rest = [4, 0] ++ rest ∧
      (IntWidth.int.get longBuf).1 = none := by
  obtain ⟨v1, hput, happ⟩ := ztlvPutInt_appends (v := zcrtBufInit 0 fun _ => 0) 0 (by decide)
  have hcode : tlvInt 0 = [4, 0] := by
    have hzero : (zcrtZigZagEncode32 0).toNat = 0 := by decide
    rw [tlvInt, hzero, Leb128.encode_of_lt (by decide)]
    rfl
  rw [hcode] at happ
  refine ⟨v1, longBuf.buf.slice 2 2147483648, by decide, hput, happ, ?_, by decide⟩
  exact Mem.slice_add longBuf.buf 0 2 2147483648

end Zcrt
