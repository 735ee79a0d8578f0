/-
  `zstr_cmp` as an order on counted strings.

  * `ZStr.rank`: what the comparison looks at, the length and then the bytes in front of the first
    NUL. `zstrCmp_lt` and `zstrCmp_eq_zero`: the result is the order of the ranks.
  * `HiddenDiff`: two strings of one length that agree up to a NUL and differ behind it.
  * `zstrCmp_order`: signs and transitivity always hold, and 0 means equal contents exactly where
    no difference is hidden.
-/
import Zcrt.Core.Str

namespace Zcrt

open Lib

/-- `zstr_cmp`. -/
def zstrCmp (s1 s2 : ZStr) : Int32 :=
  if s1.len ≠ s2.len then (s1.len - s2.len).toInt32
  else strncmp (s1.ptr.slice 0 s1.len.toNat) (s2.ptr.slice 0 s1.len.toNat)

/-! ## Signs of differences -/

theorem u32_toInt32_toInt {x : UInt32} (h : x.toNat < 2 ^ 31) : x.toInt32.toInt = x.toNat := by
  have hbmod : x.toInt32.toInt = (x.toNat : Int).bmod (2 ^ 32) :=
    BitVec.toInt_eq_toNat_bmod x.toBitVec
  rw [hbmod, Int.bmod_def]
  omega

/-- The cast keeps a difference of two lengths below `2^31`. -/
theorem u32_diff_toInt {x y : UInt32} (hx : x.toNat < 2 ^ 31) (hy : y.toNat < 2 ^ 31) :
    (x - y).toInt32.toInt = (x.toNat : Int) - y.toNat := by
  rw [UInt32.toInt32_sub, Int32.toInt_sub, u32_toInt32_toInt hx, u32_toInt32_toInt hy,
    Int.bmod_def]
  omega

theorem byte_diff_toInt (a b : UInt8) :
    (a.toUInt32.toInt32 - b.toUInt32.toInt32).toInt = (a.toNat : Int) - b.toNat := by
  have ha := a.toNat_lt
  have hb := b.toNat_lt
  rw [← UInt32.toInt32_sub, u32_diff_toInt (by simp; omega) (by simp; omega)]
  simp

/-! ## The rank -/

/-- The bytes in front of the first NUL, as numbers. -/
def cstringNats (bs : List UInt8) : List Nat := (cstring bs).map UInt8.toNat

theorem cstringNats_zero (cs : List UInt8) : cstringNats (0 :: cs) = [] := rfl

theorem cstringNats_cons {c : UInt8} (hc : c ≠ 0) (cs : List UInt8) :
    cstringNats (c :: cs) = c.toNat :: cstringNats cs := by
  unfold cstringNats
  rw [cstring_cons hc, List.map_cons]

/-- What `zstr_cmp` looks at, in its order. -/
def ZStr.rank (s : ZStr) : ℕ ×ₗ List ℕ := toLex (s.len.toNat, cstringNats s.bytes)

/-- The sign of an order: negative below, 0 on equal ranks. -/
structure Orders {α : Type} [LT α] (c : Int) (x y : α) : Prop where
  lt : c < 0 ↔ x < y
  gt : 0 < c ↔ y < x
  eq : c = 0 ↔ x = y

theorem strncmp_orders {as bs : List UInt8} (hl : as.length = bs.length) :
    Orders (strncmp as bs).toInt (cstringNats as) (cstringNats bs) := by
  induction as generalizing bs with
  | nil =>
      have hb : bs = [] := List.length_eq_zero_iff.mp hl.symm
      subst hb
      exact ⟨by simp [strncmp, cstringNats], by simp [strncmp, cstringNats],
        by simp [strncmp, cstringNats]⟩
  | cons a as ih =>
      cases bs with
      | nil => simp at hl
      | cons b bs =>
          rw [strncmp]
          by_cases hab : a = b
          · subst hab
            rw [if_neg (not_not.mpr rfl)]
            by_cases h0 : a = 0
            · subst h0
              rw [if_pos rfl, cstringNats_zero, cstringNats_zero]
              exact ⟨by simp, by simp, by simp⟩
            · have hrec := ih (by simpa using hl)
              rw [if_neg h0, cstringNats_cons h0, cstringNats_cons h0]
              refine ⟨hrec.lt.trans ?_, hrec.gt.trans ?_, hrec.eq.trans ?_⟩
              · simp
              · simp
              · simp
          · have hne : a.toNat ≠ b.toNat := fun h => hab (UInt8.toNat_inj.mp h)
            rw [if_pos hab, byte_diff_toInt]
            -- a NUL is below every other byte, as the end of a string is below every other list
            by_cases ha : a = 0
            · subst ha
              have hb : b ≠ 0 := fun hb => hab hb.symm
              rw [cstringNats_zero, cstringNats_cons hb]
              have : (0 : UInt8).toNat = 0 := rfl
              exact ⟨by simp; omega, by simp, by simp; omega⟩
            · by_cases hb : b = 0
              · subst hb
                rw [cstringNats_zero, cstringNats_cons ha]
                have : (0 : UInt8).toNat = 0 := rfl
                exact ⟨by simp, by simp; omega, by simp; omega⟩
              · rw [cstringNats_cons ha, cstringNats_cons hb]
                refine ⟨?_, ?_, ?_⟩
                · simp only [List.cons_lt_cons_iff]
                  omega
                · simp only [List.cons_lt_cons_iff]
                  omega
                · simp only [List.cons.injEq]
                  omega

/-- The result of `zstr_cmp` is the order of the ranks. -/
theorem zstrCmp_orders {s1 s2 : ZStr} (h1 : s1.len.toNat < 2 ^ 31) (h2 : s2.len.toNat < 2 ^ 31) :
    Orders (zstrCmp s1 s2).toInt s1.rank s2.rank := by
  unfold zstrCmp ZStr.rank
  by_cases hlen : s1.len = s2.len
  · rw [if_neg (not_not.mpr hlen)]
    have hbytes : s1.bytes.length = s2.bytes.length := by
      unfold ZStr.bytes
      rw [Mem.slice_length, Mem.slice_length, hlen]
    have hs := strncmp_orders hbytes
    unfold ZStr.bytes at hs
    rw [hlen] at hs ⊢
    refine ⟨hs.lt.trans ?_, hs.gt.trans ?_, hs.eq.trans ?_⟩
    · simp [Prod.Lex.toLex_lt_toLex, ZStr.bytes, hlen]
    · simp [Prod.Lex.toLex_lt_toLex, ZStr.bytes, hlen]
    · simp [ZStr.bytes, hlen]
  · have hne : s1.len.toNat ≠ s2.len.toNat := fun h => hlen (UInt32.toNat_inj.mp h)
    rw [if_pos hlen, u32_diff_toInt h1 h2]
    refine ⟨?_, ?_, ?_⟩
    · simp only [Prod.Lex.toLex_lt_toLex]
      omega
    · simp only [Prod.Lex.toLex_lt_toLex]
      omega
    · rw [EmbeddingLike.apply_eq_iff_eq, Prod.mk.injEq]
      omega

/-! ## Hidden differences -/

/-- One length, the same bytes up to and including a NUL, and a difference behind it. -/
def HiddenDiff (s1 s2 : ZStr) : Prop :=
  s1.len = s2.len ∧ ∃ i j, i < j ∧ j < s1.len.toNat ∧ (∀ k, k ≤ i → s1.ptr k = s2.ptr k) ∧
    s1.ptr i = 0 ∧ s1.ptr j ≠ s2.ptr j

/-- Two ranges with one C string in front: they are equal, or differ behind a common NUL. -/
theorem cstring_slice_eq {m m' : Mem} {s n : Nat}
    (h : cstring (m.slice s n) = cstring (m'.slice s n)) :
    m.slice s n = m'.slice s n ∨ ∃ i j, s ≤ i ∧ i < j ∧ j < s + n ∧
      (∀ k, s ≤ k → k ≤ i → m k = m' k) ∧ m i = 0 ∧ m j ≠ m' j := by
  induction n generalizing s with
  | zero => exact Or.inl rfl
  | succ n ih =>
      rw [Mem.slice_succ, Mem.slice_succ] at h ⊢
      have hhead : m s = m' s := by
        by_cases h0 : m s = 0
        · by_cases h0' : m' s = 0
          · rw [h0, h0']
          · rw [h0, cstring_zero, cstring_cons h0'] at h
            exact absurd h.symm (List.cons_ne_nil _ _)
        · by_cases h0' : m' s = 0
          · rw [h0', cstring_zero, cstring_cons h0] at h
            exact absurd h (List.cons_ne_nil _ _)
          · rw [cstring_cons h0, cstring_cons h0'] at h
            exact (List.cons.inj h).1
      by_cases h0 : m s = 0
      · by_cases hrest : m.slice (s + 1) n = m'.slice (s + 1) n
        · exact Or.inl (by rw [hhead, hrest])
        · have hdiff : ∃ j, j < n ∧ m (s + 1 + j) ≠ m' (s + 1 + j) := by
            by_contra hno
            push Not at hno
            exact hrest (Mem.slice_congr hno)
          obtain ⟨j, hj, hne⟩ := hdiff
          refine Or.inr ⟨s, s + 1 + j, Nat.le_refl s, by omega, by omega, ?_, h0, hne⟩
          intro k hsk hks
          rw [Nat.le_antisymm hks hsk, hhead]
      · rw [← hhead, cstring_cons h0, cstring_cons h0] at h
        rcases ih (List.cons.inj h).2 with heq | ⟨i, j, hsi, hij, hjn, hk, hi0, hne⟩
        · exact Or.inl (by rw [hhead, heq])
        · refine Or.inr ⟨i, j, by omega, hij, by omega, ?_, hi0, hne⟩
          intro k hsk hki
          rcases Nat.eq_or_lt_of_le hsk with rfl | hlt
          · exact hhead
          · exact hk k hlt hki

/-- The converse: what lies behind a common NUL does not reach the C string. -/
theorem cstring_slice_of_nul {m m' : Mem} {s n i : Nat} (hsi : s ≤ i) (hin : i < s + n)
    (hk : ∀ k, s ≤ k → k ≤ i → m k = m' k) (h0 : m i = 0) :
    cstring (m.slice s n) = cstring (m'.slice s n) := by
  have hn : n = (i - s) + (1 + (s + n - i - 1)) := by omega
  have h0' : m' i = 0 := hk i hsi (Nat.le_refl i) ▸ h0
  have hpre : m.slice s (i - s) = m'.slice s (i - s) :=
    Mem.slice_congr fun j hj => hk (s + j) (by omega) (by omega)
  rw [hn, Mem.slice_add m, Mem.slice_add m', hpre, Nat.add_comm 1, Mem.slice_succ, Mem.slice_succ,
    show s + (i - s) = i by omega, h0, h0', cstring_append_zero, cstring_append_zero]

theorem cstringNats_inj {as bs : List UInt8} :
    cstringNats as = cstringNats bs ↔ cstring as = cstring bs := by
  have hinj : Function.Injective UInt8.toNat := fun a b h => UInt8.toNat_inj.mp h
  exact (List.map_injective_iff.mpr hinj).eq_iff

/-- Equal ranks are equal contents, but for a hidden difference. -/
theorem rank_eq_iff {a b : ZStr} :
    a.rank = b.rank ↔ (a.len = b.len ∧ a.bytes = b.bytes) ∨ HiddenDiff a b := by
  have hrank : a.rank = b.rank ↔ a.len = b.len ∧ cstring a.bytes = cstring b.bytes := by
    unfold ZStr.rank
    rw [EmbeddingLike.apply_eq_iff_eq, Prod.mk.injEq, cstringNats_inj, UInt32.toNat_inj]
  rw [hrank]
  constructor
  · rintro ⟨hlen, hstr⟩
    unfold ZStr.bytes at hstr ⊢
    rw [← hlen] at hstr ⊢
    rcases cstring_slice_eq hstr with heq | ⟨i, j, -, hij, hj, hk, h0, hne⟩
    · exact Or.inl ⟨rfl, heq⟩
    · exact Or.inr ⟨hlen, i, j, hij, by omega, fun k hki => hk k (Nat.zero_le k) hki, h0, hne⟩
  · rintro (⟨hlen, hbytes⟩ | ⟨hlen, i, j, hij, hj, hk, h0, -⟩)
    · exact ⟨hlen, congrArg cstring hbytes⟩
    · refine ⟨hlen, ?_⟩
      unfold ZStr.bytes
      rw [← hlen]
      exact cstring_slice_of_nul (Nat.zero_le i) (by omega) (fun k _ hki => hk k hki) h0

theorem HiddenDiff.bytes_ne {a b : ZStr} (h : HiddenDiff a b) : a.bytes ≠ b.bytes := by
  obtain ⟨hlen, i, j, -, hj, -, -, hne⟩ := h
  intro heq
  unfold ZStr.bytes at heq
  rw [← hlen] at heq
  have hlt : j < (a.ptr.slice 0 a.len.toNat).length := by simpa using hj
  have ha := Mem.apply_of_slice heq (by simpa using hj)
  rw [Mem.getElem_slice, Nat.zero_add] at ha
  exact hne ha

/-! ## The order -/

/-- `zstr_cmp` is a total order on contents, as far as `a`, `b` and `c` can tell. -/
structure ComparesContents (a b c : ZStr) : Prop where
  zero : zstrCmp a b = 0 ↔ a.len = b.len ∧ a.bytes = b.bytes
  signs : (zstrCmp a b).toInt.sign = -(zstrCmp b a).toInt.sign
  trans_le : zstrCmp a b ≤ 0 → zstrCmp b c ≤ 0 → zstrCmp a c ≤ 0
  trans_lt : zstrCmp a b < 0 → zstrCmp b c < 0 → zstrCmp a c < 0

theorem Orders.sign {α : Type} [LinearOrder α] {c d : Int} {x y : α} (hc : Orders c x y)
    (hd : Orders d y x) : c.sign = -d.sign := by
  rcases lt_trichotomy x y with h | h | h
  · rw [Int.sign_eq_neg_one_of_neg (hc.lt.mpr h), Int.sign_eq_one_of_pos (hd.gt.mpr h)]
  · rw [hc.eq.mpr h, hd.eq.mpr h.symm]
    rfl
  · rw [Int.sign_eq_one_of_pos (hc.gt.mpr h), Int.sign_eq_neg_one_of_neg (hd.lt.mpr h)]
    rfl

theorem Orders.le {α : Type} [LinearOrder α] {c : Int} {x y : α} (h : Orders c x y) :
    c ≤ 0 ↔ x ≤ y := by
  rw [← not_lt, h.gt, not_lt]

section Order

variable {a b c : ZStr} (ha : a.len.toNat < 2 ^ 31) (hb : b.len.toNat < 2 ^ 31)
include ha hb

theorem zstrCmp_eq_zero : zstrCmp a b = 0 ↔ a.rank = b.rank := by
  rw [← (zstrCmp_orders ha hb).eq, ← Int32.toInt_inj]
  rfl

theorem zstrCmp_le : zstrCmp a b ≤ 0 ↔ a.rank ≤ b.rank := by
  rw [Int32.le_iff_toInt_le, ← (zstrCmp_orders ha hb).le]
  rfl

theorem zstrCmp_lt : zstrCmp a b < 0 ↔ a.rank < b.rank := by
  rw [Int32.lt_iff_toInt_lt, ← (zstrCmp_orders ha hb).lt]
  rfl

end Order

/-- The comparison is a total order on contents exactly where no difference hides behind a NUL. -/
theorem zstrCmp_contents {a b c : ZStr} (ha : a.len.toNat < 2 ^ 31) (hb : b.len.toNat < 2 ^ 31)
    (hc : c.len.toNat < 2 ^ 31) : ComparesContents a b c ↔ ¬ HiddenDiff a b := by
  constructor
  · intro h hdiff
    have hzero : zstrCmp a b = 0 := (zstrCmp_eq_zero ha hb).mpr (rank_eq_iff.mpr (Or.inr hdiff))
    exact hdiff.bytes_ne (h.zero.mp hzero).2
  · intro hdiff
    refine ⟨?_, (zstrCmp_orders ha hb).sign (zstrCmp_orders hb ha), ?_, ?_⟩
    · rw [zstrCmp_eq_zero ha hb, rank_eq_iff, or_iff_left hdiff]
    · rw [zstrCmp_le ha hb, zstrCmp_le hb hc, zstrCmp_le ha hc]
      exact le_trans
    · rw [zstrCmp_lt ha hb, zstrCmp_lt hb hc, zstrCmp_lt ha hc]
      exact lt_trans

/-- `"a\0b"` and `"a\0c"` as counted strings of length 3. -/
def nulStrings : ZStr × ZStr :=
  (⟨3, fun i => [0x61, 0, 0x62].getD i 0⟩, ⟨3, fun i => [0x61, 0, 0x63].getD i 0⟩)

/-- `"a\0b"` and `"c\0b"`, and `"a\0b"` again: what differs is in front of the NUL. -/
theorem zstrCmp_contents_plain :
    ComparesContents nulStrings.1 ⟨3, fun i => [0x63, 0, 0x62].getD i 0⟩ nulStrings.1 := by
  refine (zstrCmp_contents (by decide) (by decide) (by decide)).mpr ?_
  rintro ⟨-, i, j, -, -, hsame, -, -⟩
  exact absurd (hsame 0 (Nat.zero_le i)) (by decide)

/-- They compare as equal, and their contents differ. -/
theorem nulStrings_equal :
    zstrCmp nulStrings.1 nulStrings.2 = 0 ∧
      ¬ (nulStrings.1.len = nulStrings.2.len ∧ nulStrings.1.bytes = nulStrings.2.bytes) := by
  decide

end Zcrt
