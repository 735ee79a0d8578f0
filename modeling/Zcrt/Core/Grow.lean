/-
  What `zcrt_buf_realloc` and `zcrt_buf_append` do near the top of the 32-bit range, where
  `len + 1`, the doubled capacity and `v->len + len` wrap.

  * `GrowsEnough`: the doubling loop ends and asks for as many bytes as wanted.
  * `AppendsInside`: an append writes its bytes inside the block, or does nothing.
  * `growth_iff`: when the two hold.
-/
import Zcrt.Core.Buf

namespace Zcrt

open Lib

/-- The call returns with `maxlen` inside the block, and the loop, if it is run, ends with at least
    `len`. -/
structure GrowsEnough (v : ZBuf) (len : UInt32) : Prop where
  ends : len ≠ 0 → v.maxlen < len → ∃ fuel cap, growCap (len + 1) fuel 1 = some cap ∧ len ≤ cap
  inside : ∃ v', zcrtBufRealloc v len = some v' ∧ v'.maxlen.toNat ≤ v'.alloc

/-- The call returns with `bs` written inside the block and appended, or with nothing done. -/
def AppendsInside (v : ZBuf) (bs : List UInt8) : Prop :=
  ∃ v', zcrtBufAppend v bs = some v' ∧
    (v' = v ∨ Appends v v' bs ∧ v.len.toNat + bs.length ≤ v'.alloc)

/-- `n` bytes are there already, or can be reached by doubling. -/
def Reachable (v : ZBuf) (n : Nat) : Prop := n ≤ v.maxlen.toNat ∨ n < 2 ^ 31 - 1

/-! ## The loop -/

/-- The one size for which the loop ends too early: `len + 1` is 0. -/
theorem growCap_max (fuel : Nat) : growCap (0xFFFFFFFF + 1) (fuel + 1) 1 = some 1 := by
  rw [growCap, if_neg (by decide)]

theorem zcrtBufRealloc_fits {v : ZBuf} {len : UInt32} (h : len ≤ v.maxlen) :
    zcrtBufRealloc v len = some v := by
  unfold zcrtBufRealloc
  split
  · rfl
  · rw [if_neg (UInt32.not_lt.mpr h)]

/-- Growing by doubling. -/
theorem zcrtBufRealloc_grows {v : ZBuf} {len : UInt32} (hmax : v.maxlen < len)
    (h : len.toNat < 2 ^ 31 - 1) :
    ∃ cap, growCap (len + 1) 33 1 = some cap ∧ len.toNat < cap.toNat ∧
      zcrtBufRealloc v len = some { v with alloc := cap.toNat, maxlen := len } := by
  have hneed : (len + 1).toNat = len.toNat + 1 := Word.u32_succ (by omega)
  obtain ⟨cap, hcap, hlt⟩ := growCap_of_lt
    (show (len + 1).toNat < 2 ^ 31 by omega) 33 0 1 rfl rfl (by decide)
  rw [UInt32.lt_iff_toNat_lt] at hlt
  refine ⟨cap, hcap, by omega, ?_⟩
  unfold zcrtBufRealloc
  have hne : len ≠ 0 := by
    rintro rfl
    exact absurd hmax (UInt32.not_lt.mpr (UInt32.zero_le ..))
  rw [if_neg hne, if_pos hmax, hcap]
  rfl

/-- Where doubling cannot reach, the loop goes on forever, or asks for one byte. -/
theorem zcrtBufRealloc_stuck {v : ZBuf} {len : UInt32} (hmax : v.maxlen < len)
    (h : 2 ^ 31 - 1 ≤ len.toNat) :
    (∀ fuel, growCap (len + 1) fuel 1 = none) ∧ zcrtBufRealloc v len = none ∨
      len = 0xFFFFFFFF ∧ zcrtBufRealloc v len = some { v with alloc := 1, maxlen := len } := by
  have hne : len ≠ 0 := by
    rintro rfl
    simp at h
  have hrun : zcrtBufRealloc v len = (growCap (len + 1) 33 1).map fun cap =>
      { v with alloc := cap.toNat, maxlen := len } := by
    unfold zcrtBufRealloc
    rw [if_neg hne, if_pos hmax]
  have hlt := len.toNat_lt
  by_cases htop : len = 0xFFFFFFFF
  · refine Or.inr ⟨htop, ?_⟩
    rw [hrun, htop, growCap_max 32]
    rfl
  · have hnat : len.toNat ≠ 2 ^ 32 - 1 := fun he => htop (UInt32.toNat_inj.mp he)
    have hlt := len.toNat_lt
    have hneed : (len + 1).toNat = len.toNat + 1 := Word.u32_succ (by omega)
    have hnone : ∀ fuel, growCap (len + 1) fuel 1 = none := fun fuel =>
      growCap_of_ge (by omega) fuel 1 (Or.inr ⟨0, by decide, rfl⟩)
    exact Or.inl ⟨hnone, by rw [hrun, hnone]; rfl⟩

/-! ## The two calls -/

/-- The append after the test of its arguments. -/
theorem zcrtBufAppend_eq {v : ZBuf} {bs : List UInt8} (h : bs ≠ []) :
    zcrtBufAppend v bs = (zcrtBufRealloc v (v.len + UInt32.ofNat bs.length)).map fun w =>
      { w with buf := w.buf.copy w.len.toNat bs, len := v.len + UInt32.ofNat bs.length } := by
  unfold zcrtBufAppend
  rw [if_neg (by simpa using h)]

section Calls

variable {v : ZBuf} (hroom : v.maxlen.toNat ≤ v.alloc)
include hroom

theorem growsEnough_iff (len : UInt32) : GrowsEnough v len ↔ Reachable v len.toNat := by
  unfold Reachable
  by_cases hmax : v.maxlen < len
  swap
  · have hle := UInt32.not_lt.mp hmax
    refine iff_of_true ⟨fun _ h => absurd h hmax, v, zcrtBufRealloc_fits hle, hroom⟩ ?_
    exact Or.inl (UInt32.le_iff_toNat_le.mp hle)
  have hmax' := UInt32.lt_iff_toNat_lt.mp hmax
  by_cases hsmall : len.toNat < 2 ^ 31 - 1
  · obtain ⟨cap, hcap, hlt, hrun⟩ := zcrtBufRealloc_grows hmax hsmall
    refine iff_of_true ⟨fun _ _ => ⟨33, cap, hcap, ?_⟩, _, hrun, Nat.le_of_lt hlt⟩ (Or.inr hsmall)
    exact UInt32.le_iff_toNat_le.mpr (Nat.le_of_lt hlt)
  · refine iff_of_false (fun h => ?_) (not_or.mpr ⟨by omega, hsmall⟩)
    obtain ⟨v', hv', hin⟩ := h.inside
    rcases zcrtBufRealloc_stuck hmax (Nat.not_lt.mp hsmall) with ⟨-, hnone⟩ | ⟨rfl, hone⟩
    · rw [hnone] at hv'
      exact nomatch hv'
    · obtain rfl := Option.some.inj (hone.symm.trans hv')
      exact absurd hin (Nat.not_le.mpr (show 1 < 0xFFFFFFFF by decide))

theorem appendsInside_iff {bs : List UInt8} (hn : bs.length < 2 ^ 32) :
    AppendsInside v bs ↔
      bs = [] ∨ v.len.toNat + bs.length < 2 ^ 32 ∧ Reachable v (v.len.toNat + bs.length) := by
  by_cases hbs : bs = []
  · subst hbs
    exact iff_of_true ⟨v, rfl, Or.inl rfl⟩ (Or.inl rfl)
  have hpos := List.length_pos_iff.mpr hbs
  have hsum : (v.len + UInt32.ofNat bs.length).toNat = (v.len.toNat + bs.length) % 2 ^ 32 := by
    rw [UInt32.toNat_add, UInt32.toNat_ofNat', Nat.mod_eq_of_lt hn]
  -- a call that returns has moved `len`
  have hmoved : ∀ v', zcrtBufAppend v bs = some v' → v' ≠ v := by
    rintro v' hv' rfl
    rw [zcrtBufAppend_eq hbs] at hv'
    obtain ⟨w, -, hw⟩ := Option.map_eq_some_iff.mp hv'
    have hlen := congrArg (fun x : ZBuf => x.len.toNat) hw
    dsimp only at hlen
    have := v'.len.toNat_lt
    omega
  unfold Reachable
  rw [or_iff_right hbs]
  constructor
  · rintro ⟨v', hv', hsame | ⟨happ, hin⟩⟩
    · exact absurd hsame (hmoved v' hv')
    have hlen := happ.len
    have hlt := v'.len.toNat_lt
    refine ⟨by omega, ?_⟩
    by_contra hno
    obtain ⟨hmax, hbig⟩ := not_or.mp hno
    rw [Nat.mod_eq_of_lt (by omega)] at hsum
    rw [zcrtBufAppend_eq hbs] at hv'
    have hmax' : v.maxlen < v.len + UInt32.ofNat bs.length :=
      UInt32.lt_iff_toNat_lt.mpr (by omega)
    rcases zcrtBufRealloc_stuck hmax' (by omega) with ⟨-, hnone⟩ | ⟨htop, hone⟩
    · rw [hnone] at hv'
      exact nomatch hv'
    · rw [hone] at hv'
      obtain rfl := Option.some.inj hv'
      dsimp only at hin
      omega
  · rintro ⟨hlt, hreach⟩
    rw [Nat.mod_eq_of_lt hlt] at hsum
    by_cases hmax : v.maxlen < v.len + UInt32.ofNat bs.length
    · have hmax' := UInt32.lt_iff_toNat_lt.mp hmax
      obtain ⟨cap, -, hcap, hrun⟩ := zcrtBufRealloc_grows hmax (by omega)
      have hv' := zcrtBufAppend_eq (v := v) hbs
      rw [hrun] at hv'
      exact ⟨_, hv', Or.inr ⟨appends_of_append hv' hlt, by dsimp only; omega⟩⟩
    · have hle := UInt32.le_iff_toNat_le.mp (UInt32.not_lt.mp hmax)
      have hv' := zcrtBufAppend_eq (v := v) hbs
      rw [zcrtBufRealloc_fits (UInt32.not_lt.mp hmax)] at hv'
      exact ⟨_, hv', Or.inr ⟨appends_of_append hv' hlt, by dsimp only; omega⟩⟩

end Calls

/-- Both calls do what is wanted of them when the size is there or below `2^31 - 1`, and for an
    append when `len` does not wrap. -/
theorem growth_iff (v : ZBuf) (hroom : v.maxlen.toNat ≤ v.alloc) (len : UInt32) (bs : List UInt8)
    (hn : bs.length < 2 ^ 32) :
    (GrowsEnough v len ↔ Reachable v len.toNat) ∧
      (AppendsInside v bs ↔
        bs = [] ∨ v.len.toNat + bs.length < 2 ^ 32 ∧ Reachable v (v.len.toNat + bs.length)) :=
  ⟨growsEnough_iff hroom len, appendsInside_iff hroom hn⟩

/-- An empty buffer. -/
theorem growth_iff_empty :
    (GrowsEnough (zcrtBufInit 0 fun _ => 0) 10 ↔ Reachable (zcrtBufInit 0 fun _ => 0) 10) ∧
      (AppendsInside (zcrtBufInit 0 fun _ => 0) [7] ↔
        ([7] : List UInt8) = [] ∨ 0 + 1 < 2 ^ 32 ∧ Reachable (zcrtBufInit 0 fun _ => 0) (0 + 1)) :=
  growth_iff (zcrtBufInit 0 fun _ => 0) (Nat.le_refl _) 10 [7] (by decide)

/-- Asked for `2^31 - 1` bytes the loop of an empty buffer does not end, and asked for `2^32 - 1`
    it gets one byte. -/
theorem growth_stuck :
    ¬GrowsEnough (zcrtBufInit 0 fun _ => 0) 0x7FFFFFFF ∧
      ¬GrowsEnough (zcrtBufInit 0 fun _ => 0) 0xFFFFFFFF := by
  constructor
  · intro h
    obtain ⟨fuel, cap, hcap, -⟩ := h.ends (by decide) (by decide)
    rw [growCap_of_ge (by decide) fuel 1 (Or.inr ⟨0, by decide, rfl⟩)] at hcap
    exact nomatch hcap
  · intro h
    obtain ⟨v', hv', hin⟩ := h.inside
    obtain rfl := Option.some.inj hv'
    exact absurd hin (by decide)

end Zcrt
