/-
  Fixed-width words read as natural numbers: masking, or-ing a shifted group into an
  accumulator, the low byte of a word with its high bit set, and counting up. General facts on
  `UInt8`, `UInt32` and `UInt64`; nothing here is about a particular program.
-/
import Mathlib

namespace Lib.Word

/-! ## Masks -/

theorem nat_and_7f (n : Nat) : n &&& 0x7F = n % 128 := Nat.and_two_pow_sub_one_eq_mod n 7

theorem u8_and_7f (b : UInt8) : (b &&& 0x7F).toNat = b.toNat % 128 := by
  rw [UInt8.toNat_and]
  exact nat_and_7f _

theorem u32_and_7f (b : UInt32) : (b &&& 0x7F).toNat = b.toNat % 128 := by
  rw [UInt32.toNat_and]
  exact nat_and_7f _

/-- Bit 7 of a word is clear exactly when its low byte is below 128. -/
theorem nat_and_80_eq_zero (n : Nat) : n &&& 0x80 = 0 ↔ n % 256 < 128 := by
  have h := Nat.and_two_pow n 7
  rw [show (0x80 : Nat) = 2 ^ 7 from rfl, h, Nat.testBit_eq_decide_div_mod_eq]
  by_cases hb : n / 2 ^ 7 % 2 = 1
  · simp only [hb, decide_true, Bool.toNat_true]
    omega
  · simp only [hb, decide_false, Bool.toNat_false]
    omega

theorem u32_and_80_eq_zero (b : UInt32) : b &&& 0x80 = 0 ↔ b.toNat % 256 < 128 := by
  rw [← UInt32.toNat_inj, UInt32.toNat_and]
  exact nat_and_80_eq_zero _

/-! ## Or-ing in a shifted group -/

/-- Or-ing `x · 2^k` into an accumulator below `2^k` adds it, modulo the word size. -/
theorem nat_or_shift {a x k w : Nat} (hk : k ≤ w) (ha : a < 2 ^ k) :
    a ||| (x <<< k % 2 ^ w) = (a + x * 2 ^ k) % 2 ^ w := by
  have hw : 2 ^ w = 2 ^ k * 2 ^ (w - k) := by rw [← Nat.pow_add]; congr 1; omega
  have hs : x <<< k % 2 ^ w = 2 ^ k * (x % 2 ^ (w - k)) := by
    rw [Nat.shiftLeft_eq, hw, Nat.mul_comm x, Nat.mul_mod_mul_left]
  have ha' : (a + x * 2 ^ k) % 2 ^ w = 2 ^ k * (x % 2 ^ (w - k)) + a := by
    rw [hw, Nat.mod_mul, Nat.add_mul_mod_self_right, Nat.mod_eq_of_lt ha,
      Nat.add_mul_div_right _ _ (Nat.two_pow_pos k), Nat.div_eq_of_lt ha, Nat.zero_add,
      Nat.add_comm]
  rw [hs, ha', Nat.or_comm, Nat.two_pow_add_eq_or_of_lt ha]

theorem u32_or_shift {a x k : UInt32} (hk : k.toNat < 32) (ha : a.toNat < 2 ^ k.toNat) :
    (a ||| x <<< k).toNat = (a.toNat + x.toNat * 2 ^ k.toNat) % 2 ^ 32 := by
  rw [UInt32.toNat_or, UInt32.toNat_shiftLeft, Nat.mod_eq_of_lt hk]
  exact nat_or_shift (by omega) ha

theorem u64_or_shift {a x k : UInt64} (hk : k.toNat < 64) (ha : a.toNat < 2 ^ k.toNat) :
    (a ||| x <<< k).toNat = (a.toNat + x.toNat * 2 ^ k.toNat) % 2 ^ 64 := by
  rw [UInt64.toNat_or, UInt64.toNat_shiftLeft, Nat.mod_eq_of_lt hk]
  exact nat_or_shift (by omega) ha

/-! ## The low byte of a word with its high bit set -/

theorem nat_or_80_low (n : Nat) : (n ||| 0x80) % 256 = n % 128 + 128 := by
  have h : ∀ i : Fin 256, (i.val ||| 0x80) % 256 = i.val % 128 + 128 := by
    decide +kernel
  have hm : (n ||| 0x80) % 2 ^ 8 = (n % 2 ^ 8 ||| 0x80 % 2 ^ 8) := Nat.or_mod_two_pow
  have := h ⟨n % 256, Nat.mod_lt _ (by decide)⟩
  have h80 : (n % 256 ||| 0x80) % 256 = n % 256 ||| 0x80 :=
    Nat.mod_eq_of_lt (Nat.or_lt_two_pow (n := 8) (Nat.mod_lt _ (by decide)) (by decide))
  simp only [h80] at this
  rw [show (256 : Nat) = 2 ^ 8 from rfl, hm]
  change n % 256 ||| 128 = _
  omega

theorem u32_or_80_low (v : UInt32) :
    (v ||| 0x80).toUInt8 = UInt8.ofNat (v.toNat % 128 + 128) := by
  apply UInt8.toNat_inj.mp
  rw [UInt32.toNat_toUInt8, UInt32.toNat_or, UInt8.toNat_ofNat']
  change (v.toNat ||| 0x80) % 256 = _
  rw [nat_or_80_low]
  omega

theorem u64_or_80_low (v : UInt64) :
    (v ||| 0x80).toUInt8 = UInt8.ofNat (v.toNat % 128 + 128) := by
  apply UInt8.toNat_inj.mp
  rw [UInt64.toNat_toUInt8, UInt64.toNat_or, UInt8.toNat_ofNat']
  have := nat_or_80_low v.toNat
  simp only [UInt64.reduceToNat]
  omega

theorem u8_and_7f_of_high (n : Nat) :
    UInt8.ofNat (n % 128 + 128) &&& 0x7F = UInt8.ofNat (n % 128) := by
  apply UInt8.toNat_inj.mp
  rw [u8_and_7f, UInt8.toNat_ofNat', UInt8.toNat_ofNat']
  omega

theorem u32_shr (v k : UInt32) (hk : k.toNat < 32) :
    (v >>> k).toNat = v.toNat / 2 ^ k.toNat := by
  rw [UInt32.toNat_shiftRight, Nat.mod_eq_of_lt hk, Nat.shiftRight_eq_div_pow]

theorem u64_shr (v k : UInt64) (hk : k.toNat < 64) :
    (v >>> k).toNat = v.toNat / 2 ^ k.toNat := by
  rw [UInt64.toNat_shiftRight, Nat.mod_eq_of_lt hk, Nat.shiftRight_eq_div_pow]

/-! ## Counting -/

theorem u32_succ {i : UInt32} (h : i.toNat + 1 < 2 ^ 32) : (i + 1).toNat = i.toNat + 1 := by
  rw [UInt32.toNat_add, show (1 : UInt32).toNat = 1 from rfl, Nat.mod_eq_of_lt h]

end Lib.Word
