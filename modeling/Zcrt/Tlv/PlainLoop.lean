/-
  The varint writers against the simple loop: seven bits at a time, least significant first, the
  continuation bit on all but the last byte.

  * `plainLoop_eq`: the loop writes the shortest code of the value.
  * `zcrtTlvWriteLenRet`, `zcdrWriteLEN64Ret`: the counts the unrolled writers return.
  * `writers_plain`: both writers store the loop's bytes and return its count, which no other
    code of the value undercuts.
-/
import Zcrt.Tlv.Writers

namespace Zcrt

open Lib

/-- The simple loop on a 64-bit value. -/
def plainLoop (value : UInt64) : List UInt8 :=
  if value < 0x80 then [value.toUInt8]
  else (value ||| 0x80).toUInt8 :: plainLoop (value >>> 7)
termination_by value.toNat
decreasing_by
  next h =>
    have h7 : (7 : UInt64).toNat % 64 = 7 := rfl
    rw [UInt64.toNat_shiftRight, h7, Nat.shiftRight_eq_div_pow]
    rw [UInt64.lt_iff_toNat_lt] at h
    have : (0x80 : UInt64).toNat = 128 := rfl
    omega

theorem plainLoop_eq (value : UInt64) : plainLoop value = Leb128.encode value.toNat := by
  fun_induction plainLoop value with
  | case1 value h =>
      have hlt : value.toNat < 128 := UInt64.lt_iff_toNat_lt.mp h
      have hbyte : value.toUInt8 = UInt8.ofNat value.toNat := by
        apply UInt8.toNat_inj.mp
        simp
      rw [Leb128.encode_of_lt hlt, hbyte]
  | case2 value h ih =>
      have hge : 128 ≤ value.toNat := Nat.le_of_not_lt fun hlt => h (UInt64.lt_iff_toNat_lt.mpr hlt)
      have hbyte := Word.u64_or_80_low value
      have hrest : (value >>> 7).toNat = value.toNat / 128 := by
        rw [UInt64.toNat_shiftRight, Nat.shiftRight_eq_div_pow]
        rfl
      rw [Leb128.encode_of_ge hge, ih, hbyte, hrest]

/-! ## The counts -/

/-- What `_zcrt_tlv_write_len` returns. -/
def zcrtTlvWriteLenRet (value : UInt32) : Nat :=
  if value ≥ (1 : UInt32) <<< 7 then
    if value ≥ (1 : UInt32) <<< 14 then
      if value ≥ (1 : UInt32) <<< 21 then
        if value ≥ (1 : UInt32) <<< 28 then 5 else 4
      else 3
    else 2
  else 1

/-- What `zcdr_WriteLEN64` returns: the `size` whose label it jumped to. -/
def zcdrWriteLEN64Ret (value : UInt64) : Nat :=
  zcdrSize value.toUInt32 (value >>> 28).toUInt32 (value >>> 56).toUInt32

theorem zcrtTlvWriteLenRet_eq (value : UInt32) :
    zcrtTlvWriteLenRet value = (zcrtTlvWriteLen value).length := by
  unfold zcrtTlvWriteLenRet zcrtTlvWriteLen
  split_ifs <;> rfl

theorem zcdrWriteLEN64Ret_eq (value : UInt64) :
    zcdrWriteLEN64Ret value = (zcdrWriteLEN64 value).length := by
  unfold zcdrWriteLEN64Ret zcdrWriteLEN64
  obtain ⟨hpos, hle⟩ := zcdrSize_bounds value.toUInt32 (value >>> 28).toUInt32
    (value >>> 56).toUInt32
  dsimp only
  rw [List.length_modify, List.length_take]
  simp only [List.length_cons, List.length_nil]
  omega

/-! ## Both writers -/

/-- A writer's stores and its result are those of the plain loop on `value`. -/
structure WritesPlain (stores : List Store) (ret : Nat) (value : UInt64) : Prop where
  /-- The memory is what the loop leaves, wherever the code goes. -/
  bytes : ∀ m base, applyStores m base stores = m.copy base (plainLoop value)
  inside : ∀ s ∈ stores, s.1 < ret
  count : ret = (plainLoop value).length

theorem zcdrWriteLEN64_plain (value : UInt64) : zcdrWriteLEN64 value = plainLoop value := by
  rw [zcdrWriteLEN64_eq, plainLoop_eq]

theorem zcrtTlvWriteLen_plain (value : UInt32) :
    zcrtTlvWriteLen value = plainLoop value.toUInt64 := by
  rw [zcrtTlvWriteLen_eq, plainLoop_eq, UInt32.toNat_toUInt64]

theorem zcdrWriteLEN64_writes (value : UInt64) :
    WritesPlain (zcdrWriteLEN64Stores value) (zcdrWriteLEN64Ret value) value := by
  have hret := zcdrWriteLEN64Ret_eq value
  have heq := zcdrWriteLEN64_plain value
  refine ⟨?_, ?_, heq ▸ hret⟩
  · intro m base
    rw [zcdrWriteLEN64_stores, heq]
  · intro s hs
    rw [hret]
    exact zcdrWriteLEN64_lt value s hs

theorem zcrtTlvWriteLen_writes (value : UInt32) :
    WritesPlain (zcrtTlvWriteLenStores value) (zcrtTlvWriteLenRet value) value.toUInt64 := by
  have hret := zcrtTlvWriteLenRet_eq value
  have heq := zcrtTlvWriteLen_plain value
  refine ⟨?_, ?_, heq ▸ hret⟩
  · intro m base
    rw [zcrtTlvWriteLen_stores, heq]
  · intro s hs
    rw [hret]
    exact zcrtTlvWriteLen_lt value s hs

theorem plainLoop_shortest (value : UInt64) :
    Leb128.IsShortest (plainLoop value) value.toNat := by
  rw [plainLoop_eq]
  exact Leb128.isShortest_encode value.toNat

/-- The unrolled writers are the plain loop: the same bytes at the same places and the same count,
    the 32-bit writer being the 64-bit one on small values, and the codes are the shortest. -/
theorem writers_plain :
    (∀ value : UInt64, WritesPlain (zcdrWriteLEN64Stores value) (zcdrWriteLEN64Ret value) value ∧
      zcdrWriteLEN64Ret value ≤ 10) ∧
    (∀ value : UInt32,
      WritesPlain (zcrtTlvWriteLenStores value) (zcrtTlvWriteLenRet value) value.toUInt64 ∧
      (∀ m base, applyStores m base (zcrtTlvWriteLenStores value) =
        applyStores m base (zcdrWriteLEN64Stores value.toUInt64)) ∧
      zcrtTlvWriteLenRet value = zcdrWriteLEN64Ret value.toUInt64 ∧
      zcrtTlvWriteLenRet value ≤ 5) ∧
    ∀ value : UInt64, Leb128.IsShortest (plainLoop value) value.toNat := by
  refine ⟨?_, ?_, plainLoop_shortest⟩
  · intro value
    refine ⟨zcdrWriteLEN64_writes value, ?_⟩
    rw [zcdrWriteLEN64Ret_eq]
    exact length_code64 value
  · intro value
    have h32 := zcrtTlvWriteLen_writes value
    have h64 := zcdrWriteLEN64_writes value.toUInt64
    refine ⟨h32, ?_, h32.count.trans h64.count.symm, ?_⟩
    · intro m base
      rw [h32.bytes, h64.bytes]
    · rw [zcrtTlvWriteLenRet_eq]
      exact length_code32 value

end Zcrt
