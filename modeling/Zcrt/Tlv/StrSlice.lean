/-
  The slices `ztlv_get_string` hands out. The length comes from the message, and
  `zcrt_buf_getstr` adds it to the cursor before the test.

  * `StrSlice`: a slice of the message, behind its length field.
  * `LenFits`: the length field is one, and the sum does not wrap.
  * `ztlvGetString_inside_iff`: the slices are such exactly when the length fits.
-/
import Zcrt.Tlv.Value

namespace Zcrt

open Lib

/-- The size of the length field behind the type byte at the cursor. -/
def ZBuf.lenFieldSize (v : ZBuf) : Option Nat :=
  (zcrtTlvReadLen (v.skip 1).cursor (v.skip 1).limit).1

/-- `s` starts right behind the length field, lies in the first `len` bytes and ends at the cursor
    of `v'`, which is further on. -/
structure StrSlice (v v' : ZBuf) (s : ZStr) (start : Nat) : Prop where
  ptr : s.ptr = v.buf.shift start
  behind : ∃ n, v.lenFieldSize = some n ∧ start = v.offset.toNat + 1 + n
  inside : start + s.len.toNat ≤ v.len.toNat
  ends : v'.offset.toNat = start + s.len.toNat
  forward : v.offset < v'.offset

/-- What `ztlv_get_string` accepts is such a slice. -/
def GetsSlice (v : ZBuf) : Prop :=
  ∀ s v', ztlvGetString v = (some s, v') → v'.offset ≤ v.len ∧ ∃ start, StrSlice v v' s start

/-- The length field of a string is accepted, and the length added to the cursor behind it is
    below `2^32`. -/
def LenFits (v : ZBuf) : Prop :=
  (ztlvGetType v).1 = ZTLV_STR →
    (ztlvGetLen (ztlvGetType v).2).1.1 = true ∧
      (ztlvGetLen (ztlvGetType v).2).2.offset.toNat +
        (ztlvGetLen (ztlvGetType v).2).1.2.toNat < 2 ^ 32

instance (v : ZBuf) : Decidable (LenFits v) := inferInstanceAs (Decidable (_ → _ ∧ _))

/-! ## The two reads before the slice -/

theorem ztlvGetType_of_str {v : ZBuf} (h : (ztlvGetType v).1 = ZTLV_STR) :
    ztlvGetType v = (ZTLV_STR, v.skip 1) ∧ v.offset + 1 ≤ v.len := by
  rw [ztlvGetType_eq] at h ⊢
  by_cases hover : v.offset + 1 > v.len
  · rw [if_pos hover] at h
    exact absurd (show (0 : UInt8) = ZTLV_STR from h) (by decide)
  · rw [if_neg hover] at h ⊢
    exact ⟨Prod.ext h rfl, UInt32.not_lt.mp hover⟩

/-- The field is at most one byte longer than what is left. -/
theorem zcrtTlvReadLen_size {v : ZBuf} (ho : v.offset ≤ v.len) (hlen : v.len.toNat < 2 ^ 31)
    {n : Nat} (h : (zcrtTlvReadLen v.cursor v.limit).1 = some n) :
    v.offset.toNat + n ≤ v.len.toNat + 1 := by
  have hlim := ZBuf.limit_eq ho (by rw [ZBuf.rest_length]; omega)
  have ho' := UInt32.le_iff_toNat_le.mp ho
  rw [ZBuf.rest_length] at hlim
  rw [zcrtTlvReadLen_eq] at h
  cases hg : Leb128.group v.cursor (readable32 v.limit) with
  | none =>
      rw [hg] at h
      exact nomatch h
  | some bs =>
      rw [hg] at h
      obtain rfl := Option.some.inj h
      have hle := (Leb128.group_eq_some.mp hg).2.1
      unfold readable32 at hle
      omega

theorem ztlvGetLen_false {v : ZBuf} (h : (zcrtTlvReadLen v.cursor v.limit).1 = none) :
    ztlvGetLen v = ((false, 0), v) := by
  have hval : (zcrtTlvReadLen v.cursor v.limit).2 = 0 := by
    rw [zcrtTlvReadLen_eq] at h ⊢
    cases hg : Leb128.group v.cursor (readable32 v.limit) with
    | none => rfl
    | some bs =>
        rw [hg] at h
        exact nomatch h
  unfold ztlvGetLen
  revert h hval
  rcases zcrtTlvReadLen v.cursor v.limit with ⟨off, value⟩
  rintro rfl rfl
  rfl

theorem ztlvGetLen_true {v : ZBuf} {n : Nat} (h : (zcrtTlvReadLen v.cursor v.limit).1 = some n) :
    ztlvGetLen v = ((true, (zcrtTlvReadLen v.cursor v.limit).2), v.skip n) := by
  unfold ztlvGetLen
  revert h
  rcases zcrtTlvReadLen v.cursor v.limit with ⟨off, value⟩
  rintro rfl
  rfl

/-! ## The slice -/

/-- `zcrt_buf_getstr`, with the sum as a number. -/
theorem zcrtBufGetstr_eq (v : ZBuf) (len : UInt32) :
    zcrtBufGetstr v len =
      if v.len.toNat < (v.offset.toNat + len.toNat) % 2 ^ 32 then (none, { v with offset := v.len })
      else (some ⟨len, v.cursor⟩, { v with offset := v.offset + len }) := by
  unfold zcrtBufGetstr
  dsimp only
  refine ite_congr (propext ?_) (fun _ => rfl) fun _ => rfl
  rw [gt_iff_lt, UInt32.lt_iff_toNat_lt, UInt32.toNat_add]

/-- A string whose length field is refused is taken to be empty, and its cursor is not moved past
    the field. -/
theorem ztlvGetString_of_badLen {v : ZBuf} (hty : (ztlvGetType v).1 = ZTLV_STR)
    (hbad : (ztlvGetLen (ztlvGetType v).2).1.1 = false) :
    ztlvGetString v = (some ⟨0, (v.skip 1).cursor⟩, v.skip 1) := by
  obtain ⟨heq, hle⟩ := ztlvGetType_of_str hty
  rw [heq] at hbad
  have hnone : (zcrtTlvReadLen (v.skip 1).cursor (v.skip 1).limit).1 = none := by
    cases h : (zcrtTlvReadLen (v.skip 1).cursor (v.skip 1).limit).1 with
    | none => rfl
    | some n =>
        rw [ztlvGetLen_true h] at hbad
        exact nomatch hbad
  rw [ztlvGetString_eq, heq, if_neg (by simp), ztlvGetLen_false hnone]
  dsimp only
  have hlt := (v.skip 1).offset.toNat_lt
  have hle' : (v.skip 1).offset.toNat ≤ v.len.toNat := UInt32.le_iff_toNat_le.mp hle
  rw [zcrtBufGetstr_eq, if_neg, UInt32.add_zero]
  rw [UInt32.toNat_zero, Nat.add_zero, ZBuf.skip_len]
  omega

/-- Behind a field of `n` bytes, `len` bytes that end in the data. -/
theorem slice_of_fits {v : ZBuf} {n : Nat} {len : UInt32} (hfield : v.lenFieldSize = some n)
    (hstart : ((v.skip 1).skip n).offset.toNat = v.offset.toNat + 1 + n)
    (hin : v.offset.toNat + 1 + n + len.toNat ≤ v.len.toNat) :
    ((v.skip 1).skip n).offset + len ≤ v.len ∧ ∃ start,
      StrSlice v { (v.skip 1).skip n with offset := ((v.skip 1).skip n).offset + len }
        ⟨len, ((v.skip 1).skip n).cursor⟩ start := by
  have hlt := v.len.toNat_lt
  have hend : (((v.skip 1).skip n).offset + len).toNat =
      v.offset.toNat + 1 + n + len.toNat := by
    rw [UInt32.toNat_add, hstart]
    omega
  refine ⟨UInt32.le_iff_toNat_le.mpr (by omega), v.offset.toNat + 1 + n, ?_⟩
  exact {
    ptr := by
      unfold ZBuf.cursor
      rw [hstart]
      rfl
    behind := ⟨n, hfield, rfl⟩
    inside := hin
    ends := hend
    forward := UInt32.lt_iff_toNat_lt.mpr (by dsimp only; omega) }

/-- The field is not one, yet a slice is handed out. -/
theorem getsSlice_of_badField {v : ZBuf} (hty : (ztlvGetType v).1 = ZTLV_STR)
    (hfield : v.lenFieldSize = none) : ¬GetsSlice v ∧ ¬LenFits v := by
  obtain ⟨heq, -⟩ := ztlvGetType_of_str hty
  have hbad : (ztlvGetLen (ztlvGetType v).2).1.1 = false := by
    rw [heq, ztlvGetLen_false hfield]
  constructor
  · intro h
    obtain ⟨-, start, hs⟩ := h _ _ (ztlvGetString_of_badLen hty hbad)
    obtain ⟨n, hn, -⟩ := hs.behind
    rw [hfield] at hn
    exact nomatch hn
  · intro h
    exact absurd (h hty).1 (by rw [hbad]; decide)

/-- Behind a field of `n` bytes only the sum decides. -/
theorem getsSlice_of_field {v : ZBuf} (ho : v.offset ≤ v.len) (hlen : v.len.toNat < 2 ^ 31)
    (hty : (ztlvGetType v).1 = ZTLV_STR) {n : Nat} (hfield : v.lenFieldSize = some n) :
    GetsSlice v ↔ LenFits v := by
  obtain ⟨heq, hle⟩ := ztlvGetType_of_str hty
  have ho' := UInt32.le_iff_toNat_le.mp ho
  have hle' := UInt32.le_iff_toNat_le.mp hle
  have hoff : (v.skip 1).offset.toNat = v.offset.toNat + 1 := Word.u32_succ (by omega)
  have hsize := zcrtTlvReadLen_size (v := v.skip 1) hle hlen hfield
  have hget := ztlvGetLen_true hfield
  generalize (zcrtTlvReadLen (v.skip 1).cursor (v.skip 1).limit).2 = len at hget
  have hlenlt := len.toNat_lt
  rw [ZBuf.skip_len, hoff] at hsize
  have hstart : ((v.skip 1).skip n).offset.toNat = v.offset.toNat + 1 + n := by
    change ((v.skip 1).offset + UInt32.ofNat n).toNat = _
    rw [UInt32.toNat_add, hoff, UInt32.toNat_ofNat']
    omega
  have hstr : ztlvGetString v = zcrtBufGetstr ((v.skip 1).skip n) len := by
    rw [ztlvGetString_eq, heq, if_neg (by simp), hget]
  have hfits : LenFits v ↔ v.offset.toNat + 1 + n + len.toNat < 2 ^ 32 := by
    unfold LenFits
    rw [heq, hget]
    simp only [hstart, true_and, forall_const]
  rw [hfits]
  constructor
  · intro h
    by_contra hwrap
    have hnot : ¬v.len.toNat < (((v.skip 1).skip n).offset.toNat + len.toNat) % 2 ^ 32 := by
      rw [hstart]
      omega
    obtain ⟨-, start, hs⟩ := h _ _ (hstr.trans ((zcrtBufGetstr_eq _ _).trans (if_neg hnot)))
    obtain ⟨m, hm, rfl⟩ := hs.behind
    obtain rfl := Option.some.inj (hfield.symm.trans hm)
    have := hs.inside
    dsimp only at this
    omega
  · intro hlt s v' h
    rw [hstr, zcrtBufGetstr_eq] at h
    split at h
    · exact nomatch h
    · next hover =>
        rw [hstart, ZBuf.skip_len, ZBuf.skip_len, Nat.mod_eq_of_lt hlt] at hover
        obtain ⟨hs, rfl⟩ := Prod.mk.inj h
        obtain rfl := Option.some.inj hs
        exact slice_of_fits hfield hstart (Nat.not_lt.mp hover)

/-- For a cursor in the data, `ztlv_get_string` hands out slices of the message exactly when the
    length fits. -/
theorem ztlvGetString_inside_iff (v : ZBuf) (ho : v.offset ≤ v.len) (hlen : v.len.toNat < 2 ^ 31) :
    GetsSlice v ↔ LenFits v := by
  by_cases hty : (ztlvGetType v).1 = ZTLV_STR
  · cases hfield : v.lenFieldSize with
    | none =>
        obtain ⟨hnot, hno⟩ := getsSlice_of_badField hty hfield
        exact iff_of_false hnot hno
    | some n => exact getsSlice_of_field ho hlen hty hfield
  · -- nothing is handed out, and nothing is asked of the length
    refine iff_of_true (fun s v' h => ?_) fun h => absurd h hty
    rw [ztlvGetString_eq, if_pos hty] at h
    exact nomatch h

/-- The string "G". -/
theorem ztlvGetString_inside_one :
    GetsSlice (recycled [0x11, 1, 71] 0) ↔ LenFits (recycled [0x11, 1, 71] 0) :=
  ztlvGetString_inside_iff _ (by decide) (by decide)

/-- A declared length of `2^32 - 1` moves the cursor back by one byte, and the slice goes on far
    behind the six bytes received. -/
theorem ztlvGetString_backwards :
    (recycled [0x11, 0xFF, 0xFF, 0xFF, 0xFF, 0x0F] 0).offset ≤
        (recycled [0x11, 0xFF, 0xFF, 0xFF, 0xFF, 0x0F] 0).len ∧
      (recycled [0x11, 0xFF, 0xFF, 0xFF, 0xFF, 0x0F] 0).len.toNat < 2 ^ 31 ∧
      ¬GetsSlice (recycled [0x11, 0xFF, 0xFF, 0xFF, 0xFF, 0x0F] 0) := by
  refine ⟨by decide, by decide, fun h => ?_⟩
  obtain ⟨-, start, hs⟩ := h _ _ rfl
  exact absurd hs.inside (Nat.not_le.mpr (Nat.lt_of_lt_of_le (by decide) (Nat.le_add_left _ start)))

end Zcrt
