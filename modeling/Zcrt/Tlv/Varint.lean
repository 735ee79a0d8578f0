/-
  The integer codes of `zipc/zipc_tlv.c`: zig-zag maps, the hand-unrolled 32-bit and 64-bit
  varint readers and the unrolled writers.

  Readers take the memory at the cursor and the `int` read limit `len - offset`. Each test is
  `0 > limit--`, made before the byte is read.

  * `zcrtTlvReadLen_eq`, `zcdrReadLEN64_eq`: the readers find the first terminated group among
    the bytes they let themselves examine (`readable32`, `readable64`), and return its value
    modulo the word size.
  * `zcrtTlvWriteLen_eq`, `zcdrWriteLEN64_eq`: the writers emit the shortest code.
-/
import Zcrt.Core.Buf
import Zcrt.Lib.Leb128
import Zcrt.Lib.ZigZag

namespace Zcrt

open Lib

/-! ## Zig-zag -/

/-- `_zcrt_ZigZagEncode32`. -/
def zcrtZigZagEncode32 (n : Int32) : UInt32 := ((n <<< 1) ^^^ (n >>> 31)).toUInt32

/-- `_zcrt_ZigZagDecode32`. -/
def zcrtZigZagDecode32 (n : UInt32) : Int32 := ((n >>> 1) ^^^ (-(n &&& 1))).toInt32

/-- `zcdr_Encode64`. -/
def zcdrEncode64 (n : Int64) : UInt64 := ((n <<< 1) ^^^ (n >>> 63)).toUInt64

/-- `zcdr_Decode64`. -/
def zcdrDecode64 (n : UInt64) : Int64 := ((n >>> 1) ^^^ (-(n &&& 1))).toInt64

theorem zcrtZigZagDecode32_encode (n : Int32) : zcrtZigZagDecode32 (zcrtZigZagEncode32 n) = n := by
  apply Int32.toBitVec_inj.mp
  exact ZigZag.dec_enc (by decide) n.toBitVec

theorem zcdrDecode64_encode (n : Int64) : zcdrDecode64 (zcdrEncode64 n) = n := by
  apply Int64.toBitVec_inj.mp
  exact ZigZag.dec_enc (by decide) n.toBitVec

/-! ## The 32-bit reader -/

/-- `_zcrt_tlv_read_len`: the bytes consumed (`none` is `NULL`) and `*value`. -/
def zcrtTlvReadLen (buf : Mem) (limit : Int) : Option Nat × UInt32 :=
  if 0 > limit then (none, 0) else
  let b := charToUInt32 (buf 0)
  let result := b &&& 0x7F
  if b &&& 0x80 = 0 then (some 1, result) else
  if 0 > limit - 1 then (none, 0) else
  let b := charToUInt32 (buf 1)
  let result := result ||| (b &&& 0x7F) <<< 7
  if b &&& 0x80 = 0 then (some 2, result) else
  if 0 > limit - 2 then (none, 0) else
  let b := charToUInt32 (buf 2)
  let result := result ||| (b &&& 0x7F) <<< 14
  if b &&& 0x80 = 0 then (some 3, result) else
  if 0 > limit - 3 then (none, 0) else
  let b := charToUInt32 (buf 3)
  let result := result ||| (b &&& 0x7F) <<< 21
  if b &&& 0x80 = 0 then (some 4, result) else
  if 0 > limit - 4 then (none, 0) else
  let b := charToUInt32 (buf 4)
  let result := result ||| b <<< 28
  if b &&& 0x80 = 0 then (some 5, result) else
  (none, 0)

/-- The bytes the 32-bit reader lets itself examine: one more than the limit. -/
def readable32 (limit : Int) : Nat := min 5 (limit + 1).toNat

/-- What a varint reader returns for the group it found. -/
def readResult32 : Option (List UInt8) → Option Nat × UInt32
  | none => (none, 0)
  | some bs => (some bs.length, UInt32.ofNat (Leb128.value bs))

theorem char_low (c : UInt8) : (charToUInt32 c &&& 0x7F).toNat = c.toNat % 128 := by
  have := charToUInt32_mod c
  rw [Word.u32_and_7f]
  omega

theorem char_high (c : UInt8) : charToUInt32 c &&& 0x80 = 0 ↔ c.toNat < 128 := by
  rw [Word.u32_and_80_eq_zero, charToUInt32_mod]

theorem or_group {a x : UInt32} (k : UInt32) (hk : k.toNat + 7 ≤ 32) (ha : a.toNat < 2 ^ k.toNat)
    (hx : x.toNat < 128) : (a ||| x <<< k).toNat = a.toNat + x.toNat * 2 ^ k.toNat := by
  rw [Word.u32_or_shift (by omega) ha]
  apply Nat.mod_eq_of_lt
  have h1 : x.toNat * 2 ^ k.toNat ≤ 127 * 2 ^ k.toNat := Nat.mul_le_mul_right _ (by omega)
  have h2 : 128 * 2 ^ k.toNat ≤ 2 ^ 32 := by
    rw [show (128 : Nat) = 2 ^ 7 from rfl, ← Nat.pow_add]
    exact Nat.pow_le_pow_right (by decide) (by omega)
  omega

/-- Groups of seven bits or-ed in at 0, 7, 14 and 21. -/
theorem or_groups (b0 b1 b2 b3 : UInt8) (x0 x1 x2 x3 : UInt32)
    (h0 : x0.toNat = b0.toNat % 128) (h1 : x1.toNat = b1.toNat % 128)
    (h2 : x2.toNat = b2.toNat % 128) (h3 : x3.toNat = b3.toNat % 128) :
    x0.toNat = Leb128.value [b0] ∧
    (x0 ||| x1 <<< 7).toNat = Leb128.value [b0, b1] ∧
    ((x0 ||| x1 <<< 7) ||| x2 <<< 14).toNat = Leb128.value [b0, b1, b2] ∧
    (((x0 ||| x1 <<< 7) ||| x2 <<< 14) ||| x3 <<< 21).toNat = Leb128.value [b0, b1, b2, b3] := by
  have e1 : (x0 ||| x1 <<< 7).toNat = Leb128.value [b0, b1] := by
    rw [or_group 7 (by decide) (by rw [h0]; exact Nat.mod_lt _ (by decide)) (by omega), h0, h1]
    simp only [Leb128.value, UInt32.reduceToNat]
    omega
  have e2 : ((x0 ||| x1 <<< 7) ||| x2 <<< 14).toNat = Leb128.value [b0, b1, b2] := by
    have hlt : (x0 ||| x1 <<< 7).toNat < 2 ^ 14 := by
      rw [e1]
      exact lt_of_lt_of_eq (Leb128.value_lt _) (by simp)
    rw [or_group 14 (by decide) hlt (by omega), e1, h2]
    simp only [Leb128.value, UInt32.reduceToNat]
    omega
  have hlt : ((x0 ||| x1 <<< 7) ||| x2 <<< 14).toNat < 2 ^ 21 := by
    rw [e2]
    exact lt_of_lt_of_eq (Leb128.value_lt _) (by simp)
  refine ⟨by simp [Leb128.value, h0], e1, e2, ?_⟩
  rw [or_group 21 (by decide) hlt (by omega), e2, h3]
  simp only [Leb128.value, UInt32.reduceToNat]
  omega

theorem u32_eq_ofNat {x : UInt32} {n : Nat} (h : x.toNat = n % 2 ^ 32) : x = UInt32.ofNat n := by
  apply UInt32.toNat_inj.mp
  rw [h, UInt32.toNat_ofNat']

theorem readResult32_some {bs : List UInt8} {x : UInt32} (hx : x.toNat = Leb128.value bs) :
    (some bs.length, x) = readResult32 (some bs) := by
  have h := x.toNat_lt
  rw [readResult32, ← u32_eq_ofNat (x := x) (by omega)]

/-- The unrolled reader is the search for a terminated group: one limit test and one byte at a
    time. -/
theorem zcrtTlvReadLen_eq (buf : Mem) (limit : Int) :
    zcrtTlvReadLen buf limit = readResult32 (Leb128.group buf (readable32 limit)) := by
  obtain ⟨e0, e1, e2, e3⟩ := or_groups (buf 0) (buf 1) (buf 2) (buf 3) _ _ _ _
    (char_low _) (char_low _) (char_low _) (char_low _)
  have lim : ∀ i : Nat, i < 5 → (0 > limit - i ↔ readable32 limit ≤ i) := by
    intro i hi
    unfold readable32
    omega
  have last : (5 : Nat) ≥ readable32 limit := by unfold readable32; omega
  unfold zcrtTlvReadLen
  rw [← Leb128.tail_zero readResult32, Leb128.tail_step]
  refine ite_congr (propext (by simpa using lim 0 (by decide))) (fun _ => rfl) fun _ => ?_
  refine ite_congr (propext (char_high _)) (fun _ => readResult32_some e0) fun _ => ?_
  rw [Leb128.tail_step]
  refine ite_congr (propext (lim 1 (by decide))) (fun _ => rfl) fun _ => ?_
  refine ite_congr (propext (char_high _)) (fun _ => readResult32_some e1) fun _ => ?_
  rw [Leb128.tail_step]
  refine ite_congr (propext (lim 2 (by decide))) (fun _ => rfl) fun _ => ?_
  refine ite_congr (propext (char_high _)) (fun _ => readResult32_some e2) fun _ => ?_
  rw [Leb128.tail_step]
  refine ite_congr (propext (lim 3 (by decide))) (fun _ => rfl) fun _ => ?_
  refine ite_congr (propext (char_high _)) (fun _ => readResult32_some e3) fun _ => ?_
  rw [Leb128.tail_step]
  refine ite_congr (propext (lim 4 (by decide))) (fun _ => rfl) fun _ => ?_
  refine ite_congr (propext (char_high _)) (fun _ => ?_) fun _ => ?_
  · -- the last byte is not masked: its bits from 4 on fall off the word
    have hlt : Leb128.value [buf 0, buf 1, buf 2, buf 3] < 2 ^ 28 :=
      lt_of_lt_of_eq (Leb128.value_lt _) (by simp)
    have hc := charToUInt32_mod (buf 4)
    refine congrArg (some 5, ·) (u32_eq_ofNat ?_)
    rw [Word.u32_or_shift (by decide) (by rw [e3]; exact hlt), e3]
    change _ = Leb128.value [buf 0, buf 1, buf 2, buf 3, buf 4] % 2 ^ 32
    simp only [Leb128.value, UInt32.reduceToNat] at hlt ⊢
    omega
  · rw [Leb128.tail_of_le _ _ _ last]
    rfl

/-! ## The 64-bit reader -/

/-- `zcdr_ReadLEN64`: the bytes consumed and `*value`, or `none` for `-1`. There is no test of
    the limit before byte 8, so the one before byte 9 is the ninth. -/
def zcdrReadLEN64 (buf : Mem) (limit : Int) : Option (Nat × UInt64) :=
  let done (n : Nat) (result0 result1 result2 : UInt32) : Option (Nat × UInt64) :=
    some (n, result0.toUInt64 ||| result1.toUInt64 <<< 28 ||| result2.toUInt64 <<< 56)
  if 0 > limit then none else
  let b := (buf 0).toUInt32
  let result0 := b &&& 0x7F
  if b &&& 0x80 = 0 then done 1 result0 0 0 else
  if 0 > limit - 1 then none else
  let b := (buf 1).toUInt32
  let result0 := result0 ||| (b &&& 0x7F) <<< 7
  if b &&& 0x80 = 0 then done 2 result0 0 0 else
  if 0 > limit - 2 then none else
  let b := (buf 2).toUInt32
  let result0 := result0 ||| (b &&& 0x7F) <<< 14
  if b &&& 0x80 = 0 then done 3 result0 0 0 else
  if 0 > limit - 3 then none else
  let b := (buf 3).toUInt32
  let result0 := result0 ||| (b &&& 0x7F) <<< 21
  if b &&& 0x80 = 0 then done 4 result0 0 0 else
  if 0 > limit - 4 then none else
  let b := (buf 4).toUInt32
  let result1 := b &&& 0x7F
  if b &&& 0x80 = 0 then done 5 result0 result1 0 else
  if 0 > limit - 5 then none else
  let b := (buf 5).toUInt32
  let result1 := result1 ||| (b &&& 0x7F) <<< 7
  if b &&& 0x80 = 0 then done 6 result0 result1 0 else
  if 0 > limit - 6 then none else
  let b := (buf 6).toUInt32
  let result1 := result1 ||| (b &&& 0x7F) <<< 14
  if b &&& 0x80 = 0 then done 7 result0 result1 0 else
  if 0 > limit - 7 then none else
  let b := (buf 7).toUInt32
  let result1 := result1 ||| (b &&& 0x7F) <<< 21
  if b &&& 0x80 = 0 then done 8 result0 result1 0 else
  let b := (buf 8).toUInt32
  let result2 := b &&& 0x7F
  if b &&& 0x80 = 0 then done 9 result0 result1 result2 else
  if 0 > limit - 8 then none else
  let b := (buf 9).toUInt32
  let result2 := result2 ||| (b &&& 0x7F) <<< 7
  if b &&& 0x80 = 0 then done 10 result0 result1 result2 else
  none

/-- The bytes the 64-bit reader lets itself examine. -/
def readable64 (limit : Int) : Nat :=
  if limit < 0 then 0 else if limit < 7 then (limit + 1).toNat else if limit = 7 then 9 else 10

/-- What the 64-bit reader returns for the group it found. -/
def readResult64 : Option (List UInt8) → Option (Nat × UInt64)
  | none => none
  | some bs => some (bs.length, UInt64.ofNat (Leb128.value bs))

theorem readResult64_some {bs : List UInt8} {x : UInt64} (hx : x.toNat = Leb128.value bs % 2 ^ 64) :
    some (bs.length, x) = readResult64 (some bs) := by
  have : x = UInt64.ofNat (Leb128.value bs) := by
    apply UInt64.toNat_inj.mp
    rw [hx, UInt64.toNat_ofNat']
  rw [readResult64, this]

theorem byte_low (c : UInt8) : (c.toUInt32 &&& 0x7F).toNat = c.toNat % 128 := by
  rw [Word.u32_and_7f, UInt8.toNat_toUInt32]

theorem byte_high (c : UInt8) : c.toUInt32 &&& 0x80 = 0 ↔ c.toNat < 128 := by
  rw [Word.u32_and_80_eq_zero, UInt8.toNat_toUInt32, Nat.mod_eq_of_lt c.toNat_lt]

/-- The three partial words put together: four groups, four groups, and the rest. -/
theorem join_parts {x y z : UInt32} {a b c : List UInt8} (hx : x.toNat = Leb128.value a)
    (hy : y.toNat = Leb128.value b) (hz : z.toNat = Leb128.value c)
    (ha : a.length = 4 ∨ a.length ≤ 4 ∧ b = [] ∧ c = [])
    (hb : b.length = 4 ∨ b.length ≤ 4 ∧ c = []) :
    (x.toUInt64 ||| y.toUInt64 <<< 28 ||| z.toUInt64 <<< 56).toNat =
      Leb128.value (a ++ b ++ c) % 2 ^ 64 := by
  have pow_le : ∀ l : List UInt8, l.length ≤ 4 → Leb128.value l < 2 ^ 28 := fun l hl =>
    lt_of_lt_of_le (Leb128.value_lt l)
      ((Nat.pow_le_pow_right (by decide) hl).trans (le_of_eq (by norm_num)))
  have hxlt : x.toNat < 2 ^ 28 := hx ▸ pow_le a (by omega)
  have hylt : y.toNat < 2 ^ 28 := hy ▸ pow_le b (by omega)
  have e : (x.toUInt64 ||| y.toUInt64 <<< 28).toNat = x.toNat + y.toNat * 2 ^ 28 := by
    rw [Word.u64_or_shift (by decide) (by rw [UInt32.toNat_toUInt64]; exact hxlt),
      UInt32.toNat_toUInt64, UInt32.toNat_toUInt64, show (28 : UInt64).toNat = 28 from rfl]
    omega
  rw [Word.u64_or_shift (by decide) (by rw [e, show (56 : UInt64).toNat = 56 from rfl]; omega), e,
    UInt32.toNat_toUInt64, show (56 : UInt64).toNat = 56 from rfl, hx, hy, hz,
    Leb128.value_append, Leb128.value_append, List.length_append]
  rcases ha with ha | ⟨-, rfl, rfl⟩
  · rcases hb with hb | ⟨-, rfl⟩
    · rw [ha, hb]
      congr 1
      omega
    · rw [ha]
      simp only [Leb128.value]
      congr 1
      omega
  · simp [Leb128.value]

/-- The unrolled 64-bit reader is the search for a terminated group. -/
theorem zcdrReadLEN64_eq (buf : Mem) (limit : Int) :
    zcdrReadLEN64 buf limit = readResult64 (Leb128.group buf (readable64 limit)) := by
  obtain ⟨e0, e1, e2, e3⟩ := or_groups (buf 0) (buf 1) (buf 2) (buf 3) _ _ _ _
    (byte_low _) (byte_low _) (byte_low _) (byte_low _)
  obtain ⟨e4, e5, e6, e7⟩ := or_groups (buf 4) (buf 5) (buf 6) (buf 7) _ _ _ _
    (byte_low _) (byte_low _) (byte_low _) (byte_low _)
  obtain ⟨e8, e9, -, -⟩ := or_groups (buf 8) (buf 9) 0 0 _ _ 0 0
    (byte_low _) (byte_low _) rfl rfl
  have e : (0 : UInt32).toNat = Leb128.value [] := rfl
  have lim : ∀ i : Nat, i < 8 → (0 > limit - i ↔ readable64 limit ≤ i) := by
    intro i hi
    unfold readable64
    split_ifs <;> omega
  have lim9 : 0 > limit - 8 ↔ readable64 limit ≤ 9 := by
    unfold readable64
    split_ifs <;> omega
  have last : readable64 limit ≤ 10 := by
    unfold readable64
    split_ifs <;> omega
  unfold zcdrReadLEN64
  rw [← Leb128.tail_zero readResult64, Leb128.tail_step]
  refine ite_congr (propext (by simpa using lim 0 (by decide))) (fun _ => rfl) fun h0 => ?_
  refine ite_congr (propext (byte_high _))
    (fun _ => readResult64_some (join_parts e0 e e (Or.inr (by simp)) (Or.inr (by simp))))
    fun _ => ?_
  rw [Leb128.tail_step]
  refine ite_congr (propext (lim 1 (by decide))) (fun _ => rfl) fun h1 => ?_
  refine ite_congr (propext (byte_high _))
    (fun _ => readResult64_some (join_parts e1 e e (Or.inr (by simp)) (Or.inr (by simp))))
    fun _ => ?_
  rw [Leb128.tail_step]
  refine ite_congr (propext (lim 2 (by decide))) (fun _ => rfl) fun h2 => ?_
  refine ite_congr (propext (byte_high _))
    (fun _ => readResult64_some (join_parts e2 e e (Or.inr (by simp)) (Or.inr (by simp))))
    fun _ => ?_
  rw [Leb128.tail_step]
  refine ite_congr (propext (lim 3 (by decide))) (fun _ => rfl) fun h3 => ?_
  refine ite_congr (propext (byte_high _))
    (fun _ => readResult64_some (join_parts e3 e e (Or.inr (by simp)) (Or.inr (by simp))))
    fun _ => ?_
  rw [Leb128.tail_step]
  refine ite_congr (propext (lim 4 (by decide))) (fun _ => rfl) fun h4 => ?_
  refine ite_congr (propext (byte_high _))
    (fun _ => readResult64_some (join_parts e3 e4 e (Or.inl rfl) (Or.inr (by simp)))) fun _ => ?_
  rw [Leb128.tail_step]
  refine ite_congr (propext (lim 5 (by decide))) (fun _ => rfl) fun h5 => ?_
  refine ite_congr (propext (byte_high _))
    (fun _ => readResult64_some (join_parts e3 e5 e (Or.inl rfl) (Or.inr (by simp)))) fun _ => ?_
  rw [Leb128.tail_step]
  refine ite_congr (propext (lim 6 (by decide))) (fun _ => rfl) fun h6 => ?_
  refine ite_congr (propext (byte_high _))
    (fun _ => readResult64_some (join_parts e3 e6 e (Or.inl rfl) (Or.inr (by simp)))) fun _ => ?_
  rw [Leb128.tail_step]
  refine ite_congr (propext (lim 7 (by decide))) (fun _ => rfl) fun h7 => ?_
  refine ite_congr (propext (byte_high _))
    (fun _ => readResult64_some (join_parts e3 e7 e (Or.inl rfl) (Or.inr (by simp)))) fun _ => ?_
  rw [Leb128.tail_of_lt _ _ _ (by unfold readable64 at h7 ⊢; split_ifs at h7 ⊢ <;> omega)]
  refine ite_congr (propext (byte_high _))
    (fun _ => readResult64_some (join_parts e3 e7 e8 (Or.inl rfl) (Or.inl rfl))) fun _ => ?_
  rw [Leb128.tail_step]
  refine ite_congr (propext lim9) (fun _ => rfl) fun h9 => ?_
  refine ite_congr (propext (byte_high _))
    (fun _ => readResult64_some (join_parts e3 e7 e9 (Or.inl rfl) (Or.inl rfl))) fun _ => ?_
  rw [Leb128.tail_of_le _ _ _ last]
  rfl

/-! ## The writers -/

/-- `_zcrt_tlv_write_len`: the bytes written at `buf`; their number is the result. -/
def zcrtTlvWriteLen (value : UInt32) : List UInt8 :=
  let target0 := (value ||| 0x80).toUInt8
  if value ≥ (1 : UInt32) <<< 7 then
    let target1 := (value >>> 7 ||| 0x80).toUInt8
    if value ≥ (1 : UInt32) <<< 14 then
      let target2 := (value >>> 14 ||| 0x80).toUInt8
      if value ≥ (1 : UInt32) <<< 21 then
        let target3 := (value >>> 21 ||| 0x80).toUInt8
        if value ≥ (1 : UInt32) <<< 28 then
          [target0, target1, target2, target3, (value >>> 28).toUInt8]
        else [target0, target1, target2, target3 &&& 0x7F]
      else [target0, target1, target2 &&& 0x7F]
    else [target0, target1 &&& 0x7F]
  else [target0 &&& 0x7F]

/-- The size tree of `zcdr_WriteLEN64`. -/
def zcdrSize (part0 part1 part2 : UInt32) : Nat :=
  if part2 = 0 then
    if part1 = 0 then
      if part0 < (1 : UInt32) <<< 14 then
        if part0 < (1 : UInt32) <<< 7 then 1 else 2
      else
        if part0 < (1 : UInt32) <<< 21 then 3 else 4
    else
      if part1 < (1 : UInt32) <<< 14 then
        if part1 < (1 : UInt32) <<< 7 then 5 else 6
      else
        if part1 < (1 : UInt32) <<< 21 then 7 else 8
  else
    if part2 < (1 : UInt32) <<< 7 then 9 else 10

/-- `zcdr_WriteLEN64`: the labels `size10` to `size1` fill the bytes below `size`, and the last
    one loses its continuation bit. -/
def zcdrWriteLEN64 (value : UInt64) : List UInt8 :=
  let part0 := value.toUInt32
  let part1 := (value >>> 28).toUInt32
  let part2 := (value >>> 56).toUInt32
  let size := zcdrSize part0 part1 part2
  let target :=
    [(part0 ||| 0x80).toUInt8, (part0 >>> 7 ||| 0x80).toUInt8,
      (part0 >>> 14 ||| 0x80).toUInt8, (part0 >>> 21 ||| 0x80).toUInt8,
      (part1 ||| 0x80).toUInt8, (part1 >>> 7 ||| 0x80).toUInt8,
      (part1 >>> 14 ||| 0x80).toUInt8, (part1 >>> 21 ||| 0x80).toUInt8,
      (part2 ||| 0x80).toUInt8, (part2 >>> 7 ||| 0x80).toUInt8]
  (target.take size).modify (size - 1) (· &&& 0x7F)

/-- Group `i` of `n` with its continuation bit. -/
def highByte (n i : Nat) : UInt8 := UInt8.ofNat (n / 128 ^ i % 128 + 128)

theorem highByte_low (n i : Nat) : highByte n i &&& 0x7F = UInt8.ofNat (n / 128 ^ i % 128) :=
  Word.u8_and_7f_of_high _

theorem encode_of_highBytes {n k : Nat} (hlo : k = 0 ∨ 128 ^ k ≤ n) (hhi : n < 128 ^ (k + 1)) :
    Leb128.encode n = (List.range k).map (highByte n) ++ [highByte n k &&& 0x7F] := by
  have htop : n / 128 ^ k < 128 := by
    rw [Nat.div_lt_iff_lt_mul (Nat.pow_pos (by decide)), ← Nat.pow_succ']
    exact hhi
  rw [Leb128.encode_of_size hlo hhi, highByte_low, Nat.mod_eq_of_lt htop]
  rfl

/-- A byte of a 32-bit part: seven of the part's bits, moved down by `s`. -/
theorem part_byte {p s : UInt32} {n i : Nat} (hs : s.toNat < 32)
    (h : p.toNat / 2 ^ s.toNat % 128 = n / 128 ^ i % 128) :
    (p >>> s ||| 0x80).toUInt8 = highByte n i := by
  rw [Word.u32_or_80_low, Word.u32_shr _ _ hs, h]
  rfl

theorem part_byte_zero {p : UInt32} {n i : Nat} (h : p.toNat % 128 = n / 128 ^ i % 128) :
    (p ||| 0x80).toUInt8 = highByte n i := by
  rw [Word.u32_or_80_low, h]
  rfl

theorem zcrtTlvWriteLen_eq (value : UInt32) :
    zcrtTlvWriteLen value = Leb128.encode value.toNat := by
  have hlt := value.toNat_lt
  have t0 : (value ||| 0x80).toUInt8 = highByte value.toNat 0 := part_byte_zero (by simp)
  have t1 : (value >>> 7 ||| 0x80).toUInt8 = highByte value.toNat 1 := part_byte (by decide) rfl
  have t2 : (value >>> 14 ||| 0x80).toUInt8 = highByte value.toNat 2 := part_byte (by decide) rfl
  have t3 : (value >>> 21 ||| 0x80).toUInt8 = highByte value.toNat 3 := part_byte (by decide) rfl
  have t4 : (value >>> 28).toUInt8 = highByte value.toNat 4 &&& 0x7F := by
    rw [highByte_low]
    apply UInt8.toNat_inj.mp
    rw [UInt32.toNat_toUInt8, Word.u32_shr _ _ (by decide), UInt8.toNat_ofNat']
    simp only [UInt32.reduceToNat]
    omega
  unfold zcrtTlvWriteLen
  simp only [t0, t1, t2, t3, t4, ge_iff_le, UInt32.le_iff_toNat_le]
  simp only [show ((1 : UInt32) <<< 7).toNat = 128 from rfl,
    show ((1 : UInt32) <<< 14).toNat = 128 ^ 2 from rfl,
    show ((1 : UInt32) <<< 21).toNat = 128 ^ 3 from rfl,
    show ((1 : UInt32) <<< 28).toNat = 128 ^ 4 from rfl]
  split_ifs with h1 h2 h3 h4
  · exact (encode_of_highBytes (k := 4) (Or.inr h4) (by omega)).symm
  · exact (encode_of_highBytes (k := 3) (Or.inr h3) (by omega)).symm
  · exact (encode_of_highBytes (k := 2) (Or.inr h2) (by omega)).symm
  · exact (encode_of_highBytes (k := 1) (Or.inr h1) (by omega)).symm
  · exact (encode_of_highBytes (k := 0) (Or.inl rfl) (by omega)).symm

/-- The size tree finds the number of groups. -/
theorem zcdrSize_spec {n : Nat} {part0 part1 part2 : UInt32} (hn : n < 2 ^ 64)
    (h0 : part0.toNat = n % 2 ^ 32) (h1 : part1.toNat = n / 2 ^ 28 % 2 ^ 32)
    (h2 : part2.toNat = n / 2 ^ 56) :
    ∃ k, zcdrSize part0 part1 part2 = k + 1 ∧ k ≤ 9 ∧ (k = 0 ∨ 128 ^ k ≤ n) ∧
      n < 128 ^ (k + 1) := by
  unfold zcdrSize
  simp only [← UInt32.toNat_inj, UInt32.lt_iff_toNat_lt, h0, h1, h2, UInt32.toNat_zero]
  simp only [show ((1 : UInt32) <<< 7).toNat = 2 ^ 7 from rfl,
    show ((1 : UInt32) <<< 14).toNat = 2 ^ 14 from rfl,
    show ((1 : UInt32) <<< 21).toNat = 2 ^ 21 from rfl]
  split_ifs
  · exact ⟨0, rfl, by decide, Or.inl rfl, by omega⟩
  · exact ⟨1, rfl, by decide, Or.inr (by omega), by omega⟩
  · exact ⟨2, rfl, by decide, Or.inr (by omega), by omega⟩
  · exact ⟨3, rfl, by decide, Or.inr (by omega), by omega⟩
  · exact ⟨4, rfl, by decide, Or.inr (by omega), by omega⟩
  · exact ⟨5, rfl, by decide, Or.inr (by omega), by omega⟩
  · exact ⟨6, rfl, by decide, Or.inr (by omega), by omega⟩
  · exact ⟨7, rfl, by decide, Or.inr (by omega), by omega⟩
  · exact ⟨8, rfl, by decide, Or.inr (by omega), by omega⟩
  · exact ⟨9, rfl, by decide, Or.inr (by omega), by omega⟩

theorem take_modify_last (f : Nat → UInt8) {k n : Nat} (h : k < n) :
    (((List.range n).map f).take (k + 1)).modify k (· &&& 0x7F) =
      (List.range k).map f ++ [f k &&& 0x7F] := by
  rw [← List.map_take, List.take_range, Nat.min_eq_left (by omega), List.range_succ,
    List.map_append, List.map_singleton, List.modify_eq_take_cons_drop (by simp)]
  simp

theorem zcdrWriteLEN64_eq (value : UInt64) :
    zcdrWriteLEN64 value = Leb128.encode value.toNat := by
  have hlt := value.toNat_lt
  have p0 : value.toUInt32.toNat = value.toNat % 2 ^ 32 := UInt64.toNat_toUInt32 value
  have p1 : (value >>> 28).toUInt32.toNat = value.toNat / 2 ^ 28 % 2 ^ 32 := by
    rw [UInt64.toNat_toUInt32, Word.u64_shr _ _ (by decide)]
    rfl
  have p2 : (value >>> 56).toUInt32.toNat = value.toNat / 2 ^ 56 := by
    rw [UInt64.toNat_toUInt32, Word.u64_shr _ _ (by decide)]
    simp only [UInt64.reduceToNat]
    omega
  obtain ⟨k, hsize, hk, hlo, hhi⟩ := zcdrSize_spec hlt p0 p1 p2
  have htarget : [(value.toUInt32 ||| 0x80).toUInt8, (value.toUInt32 >>> 7 ||| 0x80).toUInt8,
      (value.toUInt32 >>> 14 ||| 0x80).toUInt8, (value.toUInt32 >>> 21 ||| 0x80).toUInt8,
      ((value >>> 28).toUInt32 ||| 0x80).toUInt8, ((value >>> 28).toUInt32 >>> 7 ||| 0x80).toUInt8,
      ((value >>> 28).toUInt32 >>> 14 ||| 0x80).toUInt8,
      ((value >>> 28).toUInt32 >>> 21 ||| 0x80).toUInt8,
      ((value >>> 56).toUInt32 ||| 0x80).toUInt8,
      ((value >>> 56).toUInt32 >>> 7 ||| 0x80).toUInt8] =
      (List.range 10).map (highByte value.toNat) := by
    rw [part_byte_zero (n := value.toNat) (i := 0) (by rw [p0]; omega),
      part_byte (n := value.toNat) (i := 1) (by decide)
        (by rw [p0]; simp only [UInt32.reduceToNat]; omega),
      part_byte (n := value.toNat) (i := 2) (by decide)
        (by rw [p0]; simp only [UInt32.reduceToNat]; omega),
      part_byte (n := value.toNat) (i := 3) (by decide)
        (by rw [p0]; simp only [UInt32.reduceToNat]; omega),
      part_byte_zero (n := value.toNat) (i := 4) (by rw [p1]; omega),
      part_byte (n := value.toNat) (i := 5) (by decide)
        (by rw [p1]; simp only [UInt32.reduceToNat]; omega),
      part_byte (n := value.toNat) (i := 6) (by decide)
        (by rw [p1]; simp only [UInt32.reduceToNat]; omega),
      part_byte (n := value.toNat) (i := 7) (by decide)
        (by rw [p1]; simp only [UInt32.reduceToNat]; omega),
      part_byte_zero (n := value.toNat) (i := 8) (by rw [p2]; omega),
      part_byte (n := value.toNat) (i := 9) (by decide)
        (by rw [p2]; simp only [UInt32.reduceToNat]; omega)]
    rfl
  unfold zcdrWriteLEN64
  dsimp only
  rw [htarget, hsize, Nat.add_sub_cancel, take_modify_last _ (by omega),
    encode_of_highBytes hlo hhi]

end Zcrt
