/-
  The zig-zag map between signed and unsigned words, at any width: the sign moves to bit 0 and
  the other bits move up, complemented when the word is negative. Decoding undoes it.
-/
import Mathlib

namespace Lib.ZigZag

variable {w : Nat}

def enc (x : BitVec w) : BitVec w := (x <<< 1) ^^^ x.sshiftRight (w - 1)

def dec (x : BitVec w) : BitVec w := (x >>> 1) ^^^ -(x &&& 1#w)

theorem sshiftRight_of_msb (x : BitVec w) (h : x.msb = true) :
    x.sshiftRight (w - 1) = BitVec.allOnes w := by
  apply BitVec.eq_of_getLsbD_eq
  intro i hi
  rw [BitVec.getLsbD_sshiftRight, BitVec.getLsbD_allOnes]
  have hlast : x.getLsbD (w - 1) = true := by rw [← BitVec.msb_eq_getLsbD_last]; exact h
  rcases Nat.eq_zero_or_pos i with rfl | hi0
  · simp [hi, hlast, show w - 1 < w by omega, show w ≠ 0 by omega]
  · simp [hi, h, show ¬ (w - 1 + i < w) by omega]

theorem sshiftRight_of_not_msb (x : BitVec w) (h : x.msb = false) :
    x.sshiftRight (w - 1) = 0#w := by
  apply BitVec.eq_of_getLsbD_eq
  intro i hi
  rw [BitVec.getLsbD_sshiftRight, BitVec.getLsbD_zero]
  have hlast : x.getLsbD (w - 1) = false := by rw [← BitVec.msb_eq_getLsbD_last]; exact h
  rcases Nat.eq_zero_or_pos i with rfl | hi0
  · rw [Nat.add_zero, hlast]
    simp [show w - 1 < w by omega]
  · simp [h, show ¬ (w - 1 + i < w) by omega]

theorem and_one_of_odd (x : BitVec w) (h : x.getLsbD 0 = true) : x &&& 1#w = 1#w := by
  apply BitVec.eq_of_getLsbD_eq
  intro i hi
  rw [BitVec.getLsbD_and, BitVec.getLsbD_one]
  rcases Nat.eq_zero_or_pos i with rfl | hi0
  · simp [h]
  · simp [show i ≠ 0 by omega]

theorem and_one_of_even (x : BitVec w) (h : x.getLsbD 0 = false) : x &&& 1#w = 0#w := by
  apply BitVec.eq_of_getLsbD_eq
  intro i hi
  rw [BitVec.getLsbD_and, BitVec.getLsbD_one, BitVec.getLsbD_zero]
  rcases Nat.eq_zero_or_pos i with rfl | hi0
  · simp [h]
  · simp [show i ≠ 0 by omega]

/-- The sign is bit 0 of the code, so decoding knows which complement to undo. -/
theorem dec_enc (hw : 0 < w) (x : BitVec w) : dec (enc x) = x := by
  unfold dec enc
  cases hx : x.msb with
  | true =>
      rw [sshiftRight_of_msb x hx, and_one_of_odd _ (by simp [hw])]
      apply BitVec.eq_of_getLsbD_eq
      intro i hi
      rw [BitVec.neg_one_eq_allOnes]
      by_cases hi1 : 1 + i < w
      · simp [hi, hi1]
      · have : i = w - 1 := by omega
        subst this
        have hlast : x.getLsbD (w - 1) = true := by rw [← BitVec.msb_eq_getLsbD_last]; exact hx
        simp [hi, hi1, hlast]
  | false =>
      rw [sshiftRight_of_not_msb x hx, BitVec.xor_zero, and_one_of_even _ (by simp)]
      apply BitVec.eq_of_getLsbD_eq
      intro i hi
      by_cases hi1 : 1 + i < w
      · simp [hi1, BitVec.getLsbD_eq_getElem hi]
      · have : i = w - 1 := by omega
        subst this
        have hlast : x.getLsbD (w - 1) = false := by rw [← BitVec.msb_eq_getLsbD_last]; exact hx
        simp [hi1, hlast]

end Lib.ZigZag
