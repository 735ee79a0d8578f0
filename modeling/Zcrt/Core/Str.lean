/-
  `zcrtlib/zstr.c` and the C string functions it uses, on the bytes a pointer may be read for.
  A counted string is given as its bytes, a C string as its bytes without the final NUL.
-/
import Zcrt.Core.Types

namespace Zcrt

/-- The bytes of a string literal. -/
def cstr (s : String) : List UInt8 := s.toList.map fun c => UInt8.ofNat c.toNat

/-- `strncmp` on two ranges of one length, and `strcmp` on two arrays that hold their NUL: the
    difference at the first place where they differ, unless both end before. -/
def strncmp : List UInt8 → List UInt8 → Int32
  | a :: as, b :: bs =>
      if a ≠ b then a.toUInt32.toInt32 - b.toUInt32.toInt32
      else if a = 0 then 0 else strncmp as bs
  | _, _ => 0

/-- `zstr_buf_cmp(s1, buf)`. -/
def zstrBufCmp (s1 buf : List UInt8) : Int32 :=
  if s1.length ≠ buf.length then (UInt32.ofNat s1.length - UInt32.ofNat buf.length).toInt32
  else strncmp s1 buf

theorem byte_diff_ne_zero {a b : UInt8} (h : a ≠ b) :
    a.toUInt32.toInt32 - b.toUInt32.toInt32 ≠ 0 := by
  intro h0
  apply h
  have h1 : a.toUInt32.toInt32 = b.toUInt32.toInt32 := by
    rw [← Int32.sub_add_cancel a.toUInt32.toInt32, h0, Int32.zero_add]
  have h2 : a.toUInt32 = b.toUInt32 := congrArg Int32.toUInt32 h1
  apply UInt8.toNat_inj.mp
  rw [← UInt8.toNat_toUInt32, h2, UInt8.toNat_toUInt32]

/-- Against a literal the comparison is exact: no NUL ends it early. -/
theorem strncmp_eq_zero {as bs : List UInt8} (hl : as.length = bs.length) (h0 : (0 : UInt8) ∉ bs) :
    strncmp as bs = 0 ↔ as = bs := by
  induction as generalizing bs with
  | nil =>
      rw [List.length_nil] at hl
      rw [List.length_eq_zero_iff.mp hl.symm]
      exact ⟨fun _ => rfl, fun _ => rfl⟩
  | cons a as ih =>
      cases bs with
      | nil => simp at hl
      | cons b bs =>
          rw [strncmp]
          have hb : b ≠ 0 := fun hb => h0 (hb ▸ List.mem_cons_self)
          split
          · next hne =>
              refine ⟨fun h => absurd h (byte_diff_ne_zero hne), fun h => absurd ?_ hne⟩
              exact (List.cons.inj h).1
          · next heq =>
              have hab := not_not.mp heq
              subst hab
              rw [if_neg hb, ih (by simpa using hl) fun h => h0 (List.mem_cons_of_mem _ h)]
              simp

theorem zstrBufCmp_eq_zero {s1 buf : List UInt8} (hs : s1.length < 2 ^ 32)
    (hb : buf.length < 2 ^ 32) (h0 : (0 : UInt8) ∉ buf) : zstrBufCmp s1 buf = 0 ↔ s1 = buf := by
  unfold zstrBufCmp
  split
  · next hne =>
      refine ⟨fun h => absurd ?_ hne, fun h => absurd (congrArg _ h) hne⟩
      have h1 : UInt32.ofNat s1.length - UInt32.ofNat buf.length = 0 := congrArg Int32.toUInt32 h
      have h2 := congrArg UInt32.toNat (show UInt32.ofNat s1.length = UInt32.ofNat buf.length by
        rw [← UInt32.sub_add_cancel (UInt32.ofNat s1.length), h1, UInt32.zero_add])
      rwa [UInt32.toNat_ofNat', UInt32.toNat_ofNat', Nat.mod_eq_of_lt hs, Nat.mod_eq_of_lt hb] at h2
  · next heq => exact strncmp_eq_zero (not_not.mp heq) h0

/-! ## C strings in arrays -/

/-- The C string an array holds: the bytes in front of its first NUL. -/
def cstring (name : List UInt8) : List UInt8 := name.takeWhile fun c => c ≠ 0

theorem cstring_zero (cs : List UInt8) : cstring (0 :: cs) = [] := rfl

theorem cstring_cons {c : UInt8} (hc : c ≠ 0) (cs : List UInt8) :
    cstring (c :: cs) = c :: cstring cs := List.takeWhile_cons_of_pos (decide_eq_true hc)

theorem cstring_of_noNul {cs : List UInt8} (h : (0 : UInt8) ∉ cs) : cstring cs = cs :=
  List.takeWhile_eq_self_iff.mpr fun _ hc => decide_eq_true fun he => h (he ▸ hc)

theorem zero_not_mem_cstring (cs : List UInt8) : (0 : UInt8) ∉ cstring cs := fun h => by
  have htrue := List.mem_takeWhile_imp (show 0 ∈ cs.takeWhile fun c => decide (c ≠ 0) from h)
  exact of_decide_eq_true htrue rfl

/-- What follows a NUL does not matter. -/
theorem cstring_append_zero (cs rest : List UInt8) : cstring (cs ++ 0 :: rest) = cstring cs := by
  induction cs with
  | nil => rfl
  | cons c cs ih =>
      by_cases hc : c = 0
      · rw [hc]
        rfl
      · rw [List.cons_append, cstring_cons hc, cstring_cons hc, ih]

/-- `strcmp` on two arrays that hold their NUL. -/
theorem strncmp_eq_zero_iff_cstring {as bs : List UInt8} (ha : (0 : UInt8) ∈ as)
    (hb : (0 : UInt8) ∈ bs) : strncmp as bs = 0 ↔ cstring as = cstring bs := by
  induction as generalizing bs with
  | nil => exact absurd ha List.not_mem_nil
  | cons a as ih =>
      cases bs with
      | nil => exact absurd hb List.not_mem_nil
      | cons b bs =>
          rw [strncmp]
          by_cases hab : a = b
          · subst hab
            rw [if_neg (not_not.mpr rfl)]
            by_cases h0 : a = 0
            · rw [if_pos h0, h0]
              exact ⟨fun _ => rfl, fun _ => rfl⟩
            · rw [if_neg h0, cstring_cons h0, cstring_cons h0, List.cons.injEq,
                ih (List.mem_of_ne_of_mem (Ne.symm h0) ha) (List.mem_of_ne_of_mem (Ne.symm h0) hb)]
              exact ⟨fun h => ⟨rfl, h⟩, fun h => h.2⟩
          · rw [if_pos hab]
            refine ⟨fun h => absurd h (byte_diff_ne_zero hab), fun h => absurd ?_ hab⟩
            by_cases ha0 : a = 0
            · by_cases hb0 : b = 0
              · rw [ha0, hb0]
              · rw [ha0, cstring_zero, cstring_cons hb0] at h
                exact nomatch h
            · by_cases hb0 : b = 0
              · rw [hb0, cstring_zero, cstring_cons ha0] at h
                exact nomatch h
              · rw [cstring_cons ha0, cstring_cons hb0] at h
                exact (List.cons.inj h).1

end Zcrt
