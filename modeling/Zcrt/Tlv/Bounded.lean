/-
  The bytes the two varint readers examine. The readers are written here as programs of byte reads,
  so that a run has a record of them.

  * `zcrtTlvReadLenProg_eq`, `zcdrReadLEN64Prog_eq`: these are the readers of `Tlv.Varint`.
  * `BoundedDecoder`: what a varint reader that keeps to its limit does.
  * `zcrtTlvReadLen_bounded_iff`, `zcdrReadLEN64_bounded_iff`: when the readers keep to it.
-/
import Zcrt.Lib.Prog
import Zcrt.Tlv.Varint

namespace Zcrt

open Lib

/-- Reads of single bytes. -/
abbrev ByteI : Interface := ⟨Nat, fun _ => UInt8⟩

def readByte (i : Nat) : Prog ByteI UInt8 := Prog.op (I := ByteI) i

/-- A read, and the record of the bytes examined so far. -/
def examine (buf : Mem) (i : Nat) (examined : List Nat) : UInt8 × List Nat :=
  (buf i, examined ++ [i])

/-- The result of a run, and the bytes examined in their order. -/
def ByteProg.run {α : Type} (buf : Mem) (p : Prog ByteI α) : α × List Nat :=
  Prog.run (I := ByteI) (examine buf) p []

/-- `_zcrt_tlv_read_len` -/
def zcrtTlvReadLenProg (limit : Int) : Prog ByteI (Option Nat × UInt32) :=
  if 0 > limit then pure (none, 0) else do
  let b := charToUInt32 (← readByte 0)
  let result := b &&& 0x7F
  if b &&& 0x80 = 0 then pure (some 1, result) else
  if 0 > limit - 1 then pure (none, 0) else do
  let b := charToUInt32 (← readByte 1)
  let result := result ||| (b &&& 0x7F) <<< 7
  if b &&& 0x80 = 0 then pure (some 2, result) else
  if 0 > limit - 2 then pure (none, 0) else do
  let b := charToUInt32 (← readByte 2)
  let result := result ||| (b &&& 0x7F) <<< 14
  if b &&& 0x80 = 0 then pure (some 3, result) else
  if 0 > limit - 3 then pure (none, 0) else do
  let b := charToUInt32 (← readByte 3)
  let result := result ||| (b &&& 0x7F) <<< 21
  if b &&& 0x80 = 0 then pure (some 4, result) else
  if 0 > limit - 4 then pure (none, 0) else do
  let b := charToUInt32 (← readByte 4)
  let result := result ||| b <<< 28
  if b &&& 0x80 = 0 then pure (some 5, result) else
  pure (none, 0)

theorem run_ite {α : Type} (buf : Mem) (c : Prop) [Decidable c] (p q : Prog ByteI α)
    (s : List Nat) : Prog.run (I := ByteI) (examine buf) (if c then p else q) s =
      if c then Prog.run (I := ByteI) (examine buf) p s
      else Prog.run (I := ByteI) (examine buf) q s := by
  split <;> rfl

theorem zcrtTlvReadLenProg_eq (buf : Mem) (limit : Int) :
    (ByteProg.run buf (zcrtTlvReadLenProg limit)).1 = zcrtTlvReadLen buf limit := by
  unfold ByteProg.run zcrtTlvReadLenProg readByte
  simp only [run_ite, Prog.run_bind, Prog.run_pure, apply_ite Prod.fst]
  rfl

/-- `zcdr_ReadLEN64` -/
def zcdrReadLEN64Prog (limit : Int) : Prog ByteI (Option (Nat × UInt64)) :=
  let done (n : Nat) (result0 result1 result2 : UInt32) : Prog ByteI (Option (Nat × UInt64)) :=
    pure (some (n, result0.toUInt64 ||| result1.toUInt64 <<< 28 ||| result2.toUInt64 <<< 56))
  if 0 > limit then pure none else do
  let b := (← readByte 0).toUInt32
  let result0 := b &&& 0x7F
  if b &&& 0x80 = 0 then done 1 result0 0 0 else
  if 0 > limit - 1 then pure none else do
  let b := (← readByte 1).toUInt32
  let result0 := result0 ||| (b &&& 0x7F) <<< 7
  if b &&& 0x80 = 0 then done 2 result0 0 0 else
  if 0 > limit - 2 then pure none else do
  let b := (← readByte 2).toUInt32
  let result0 := result0 ||| (b &&& 0x7F) <<< 14
  if b &&& 0x80 = 0 then done 3 result0 0 0 else
  if 0 > limit - 3 then pure none else do
  let b := (← readByte 3).toUInt32
  let result0 := result0 ||| (b &&& 0x7F) <<< 21
  if b &&& 0x80 = 0 then done 4 result0 0 0 else
  if 0 > limit - 4 then pure none else do
  let b := (← readByte 4).toUInt32
  let result1 := b &&& 0x7F
  if b &&& 0x80 = 0 then done 5 result0 result1 0 else
  if 0 > limit - 5 then pure none else do
  let b := (← readByte 5).toUInt32
  let result1 := result1 ||| (b &&& 0x7F) <<< 7
  if b &&& 0x80 = 0 then done 6 result0 result1 0 else
  if 0 > limit - 6 then pure none else do
  let b := (← readByte 6).toUInt32
  let result1 := result1 ||| (b &&& 0x7F) <<< 14
  if b &&& 0x80 = 0 then done 7 result0 result1 0 else
  if 0 > limit - 7 then pure none else do
  let b := (← readByte 7).toUInt32
  let result1 := result1 ||| (b &&& 0x7F) <<< 21
  if b &&& 0x80 = 0 then done 8 result0 result1 0 else do
  let b := (← readByte 8).toUInt32
  let result2 := b &&& 0x7F
  if b &&& 0x80 = 0 then done 9 result0 result1 result2 else
  if 0 > limit - 8 then pure none else do
  let b := (← readByte 9).toUInt32
  let result2 := result2 ||| (b &&& 0x7F) <<< 7
  if b &&& 0x80 = 0 then done 10 result0 result1 result2 else
  pure none

theorem zcdrReadLEN64Prog_eq (buf : Mem) (limit : Int) :
    (ByteProg.run buf (zcdrReadLEN64Prog limit)).1 = zcdrReadLEN64 buf limit := by
  unfold ByteProg.run zcdrReadLEN64Prog readByte
  simp only [run_ite, Prog.run_bind, Prog.run_pure, apply_ite Prod.fst]
  rfl

/-! ## The bytes examined -/

/-- The bytes up to the end of the group found, or all `k`. -/
def examinedOf (k : Nat) : Option (List UInt8) → List Nat
  | some bs => List.range bs.length
  | none => List.range k

/-- The reads stop where the bound is. -/
theorem examinedOf_none {k i : Nat} (hle : k ≤ i) (hge : i ≤ k) :
    List.range i = examinedOf k none := by
  obtain rfl := Nat.le_antisymm hle hge
  rfl

theorem zcrtTlvReadLenProg_examined (buf : Mem) (limit : Int) :
    (ByteProg.run buf (zcrtTlvReadLenProg limit)).2 =
      examinedOf (readable32 limit) (Leb128.group buf (readable32 limit)) := by
  have lim : ∀ i : Nat, i < 5 → (0 > limit - i ↔ readable32 limit ≤ i) := by
    intro i hi
    unfold readable32
    omega
  have last : readable32 limit ≤ 5 := by
    unfold readable32
    omega
  unfold ByteProg.run zcrtTlvReadLenProg readByte
  simp only [run_ite, Prog.run_bind, Prog.run_pure, apply_ite Prod.snd]
  rw [← Leb128.tail_zero (examinedOf (readable32 limit)), Leb128.tail_step]
  refine ite_congr (propext (by simpa using lim 0 (by decide)))
    (fun h => examinedOf_none h (Nat.zero_le _)) fun h0 => ?_
  refine ite_congr (propext (char_high _)) (fun _ => rfl) fun _ => ?_
  rw [Leb128.tail_step]
  refine ite_congr (propext (lim 1 (by decide)))
    (fun h => examinedOf_none h (Nat.not_le.mp h0)) fun h1 => ?_
  refine ite_congr (propext (char_high _)) (fun _ => rfl) fun _ => ?_
  rw [Leb128.tail_step]
  refine ite_congr (propext (lim 2 (by decide)))
    (fun h => examinedOf_none h (Nat.not_le.mp h1)) fun h2 => ?_
  refine ite_congr (propext (char_high _)) (fun _ => rfl) fun _ => ?_
  rw [Leb128.tail_step]
  refine ite_congr (propext (lim 3 (by decide)))
    (fun h => examinedOf_none h (Nat.not_le.mp h2)) fun h3 => ?_
  refine ite_congr (propext (char_high _)) (fun _ => rfl) fun _ => ?_
  rw [Leb128.tail_step]
  refine ite_congr (propext (lim 4 (by decide)))
    (fun h => examinedOf_none h (Nat.not_le.mp h3)) fun h4 => ?_
  refine ite_congr (propext (char_high _)) (fun _ => rfl) fun _ => ?_
  rw [Leb128.tail_of_le _ _ _ last]
  exact examinedOf_none last (Nat.not_le.mp h4)

theorem zcdrReadLEN64Prog_examined (buf : Mem) (limit : Int) :
    (ByteProg.run buf (zcdrReadLEN64Prog limit)).2 =
      examinedOf (readable64 limit) (Leb128.group buf (readable64 limit)) := by
  have lim : ∀ i : Nat, i < 8 → (0 > limit - i ↔ readable64 limit ≤ i) := by
    intro i hi
    unfold readable64
    split_ifs <;> omega
  have lim9 : 0 > limit - 8 ↔ readable64 limit ≤ 9 := by
    unfold readable64
    split_ifs <;> omega
  have last : readable64 limit ≤ 10 := by
    unfold readable64
    split_ifs <;> omega
  unfold ByteProg.run zcdrReadLEN64Prog readByte
  simp only [run_ite, Prog.run_bind, Prog.run_pure, apply_ite Prod.snd]
  rw [← Leb128.tail_zero (examinedOf (readable64 limit)), Leb128.tail_step]
  refine ite_congr (propext (by simpa using lim 0 (by decide)))
    (fun h => examinedOf_none h (Nat.zero_le _)) fun h0 => ?_
  refine ite_congr (propext (byte_high _)) (fun _ => rfl) fun _ => ?_
  rw [Leb128.tail_step]
  refine ite_congr (propext (lim 1 (by decide)))
    (fun h => examinedOf_none h (Nat.not_le.mp h0)) fun h1 => ?_
  refine ite_congr (propext (byte_high _)) (fun _ => rfl) fun _ => ?_
  rw [Leb128.tail_step]
  refine ite_congr (propext (lim 2 (by decide)))
    (fun h => examinedOf_none h (Nat.not_le.mp h1)) fun h2 => ?_
  refine ite_congr (propext (byte_high _)) (fun _ => rfl) fun _ => ?_
  rw [Leb128.tail_step]
  refine ite_congr (propext (lim 3 (by decide)))
    (fun h => examinedOf_none h (Nat.not_le.mp h2)) fun h3 => ?_
  refine ite_congr (propext (byte_high _)) (fun _ => rfl) fun _ => ?_
  rw [Leb128.tail_step]
  refine ite_congr (propext (lim 4 (by decide)))
    (fun h => examinedOf_none h (Nat.not_le.mp h3)) fun h4 => ?_
  refine ite_congr (propext (byte_high _)) (fun _ => rfl) fun _ => ?_
  rw [Leb128.tail_step]
  refine ite_congr (propext (lim 5 (by decide)))
    (fun h => examinedOf_none h (Nat.not_le.mp h4)) fun h5 => ?_
  refine ite_congr (propext (byte_high _)) (fun _ => rfl) fun _ => ?_
  rw [Leb128.tail_step]
  refine ite_congr (propext (lim 6 (by decide)))
    (fun h => examinedOf_none h (Nat.not_le.mp h5)) fun h6 => ?_
  refine ite_congr (propext (byte_high _)) (fun _ => rfl) fun _ => ?_
  rw [Leb128.tail_step]
  refine ite_congr (propext (lim 7 (by decide)))
    (fun h => examinedOf_none h (Nat.not_le.mp h6)) fun h7 => ?_
  refine ite_congr (propext (byte_high _)) (fun _ => rfl) fun _ => ?_
  -- no test before byte 8
  have h8 : 9 ≤ readable64 limit := by
    unfold readable64 at h7 ⊢
    split_ifs at h7 ⊢ <;> omega
  rw [Leb128.tail_of_lt _ _ _ h8]
  refine ite_congr (propext (byte_high _)) (fun _ => rfl) fun _ => ?_
  rw [Leb128.tail_step]
  refine ite_congr (propext lim9) (fun h => examinedOf_none h h8) fun h9 => ?_
  refine ite_congr (propext (byte_high _)) (fun _ => rfl) fun _ => ?_
  rw [Leb128.tail_of_le _ _ _ last]
  exact examinedOf_none last (Nat.not_le.mp h9)

/-! ## Keeping to the limit -/

/-- The continuation bit is clear. -/
def Ends (b : UInt8) : Prop := b &&& 0x80 = 0

instance (b : UInt8) : Decidable (Ends b) := inferInstanceAs (Decidable (_ = _))

/-- What a varint reader of at most `most` bytes and a word of `w` bits does that keeps to `limit`:
    `ret` is the number of bytes and the value read. -/
structure BoundedDecoder (buf : Mem) (limit : Int) (most w : Nat) (ret : Option (Nat × Nat))
    (examined : List Nat) : Prop where
  succeeds : ret.isSome ↔ ∃ j < (min limit most).toNat, Ends (buf j)
  first : ∀ j < (min limit most).toNat, Ends (buf j) → (∀ i < j, ¬Ends (buf i)) →
    ret = some (j + 1, (∑ i ∈ Finset.range (j + 1), (buf i &&& 0x7F).toNat * 128 ^ i) % 2 ^ w) ∧
      examined = List.range (j + 1)
  inside : ∀ i ∈ examined, (i : Int) < limit

theorem ends_iff (b : UInt8) : Ends b ↔ b.toNat < 128 := by
  unfold Ends
  rw [← UInt8.toNat_inj, UInt8.toNat_and]
  change b.toNat &&& 0x80 = 0 ↔ _
  rw [Word.nat_and_80_eq_zero, Nat.mod_eq_of_lt b.toNat_lt]

theorem value_range (buf : Mem) (n : Nat) :
    Leb128.value ((List.range n).map buf) =
      ∑ i ∈ Finset.range n, (buf i &&& 0x7F).toNat * 128 ^ i := by
  induction n with
  | zero => rfl
  | succ n ih =>
      rw [List.range_succ, List.map_append, Leb128.value_append, ih, Finset.sum_range_succ,
        Word.u8_and_7f]
      simp only [List.map_cons, List.map_nil, Leb128.value, List.length_map, List.length_range]
      ring

/-- A group found is the bytes up to the first one that ends it. -/
theorem group_first {buf : Mem} {k j : Nat} (hj : j < k) (hend : Ends (buf j))
    (hbefore : ∀ i < j, ¬Ends (buf i)) :
    Leb128.group buf k = some ((List.range (j + 1)).map buf) :=
  Leb128.group_of_first hj ((ends_iff _).mp hend) fun i hi =>
    Nat.not_lt.mp fun hlt => hbefore i hi ((ends_iff _).mpr hlt)

theorem group_isSome {buf : Mem} {k : Nat} :
    (Leb128.group buf k).isSome ↔ ∃ j < k, Ends (buf j) := by
  rw [← Option.ne_none_iff_isSome, Ne, Leb128.group_eq_none]
  push Not
  simp only [ends_iff]

/-- Where no byte below `n` ends a group, byte `n` is examined. -/
theorem mem_examinedOf {buf : Mem} {n k : Nat} (hn : n < k) (hno : ∀ j < n, ¬Ends (buf j)) :
    n ∈ examinedOf k (Leb128.group buf k) := by
  cases hg : Leb128.group buf k with
  | none => exact List.mem_range.mpr hn
  | some bs =>
      refine List.mem_range.mpr (Nat.not_le.mp fun hle => ?_)
      have hsome : (Leb128.group buf n).isSome := by
        rw [Leb128.group_eq_some] at hg
        rw [Leb128.group_eq_some.mpr ⟨hg.1, hle, hg.2.2⟩]
        rfl
      obtain ⟨j, hj, hend⟩ := group_isSome.mp hsome
      exact hno j hj hend

theorem examinedOf_lt {buf : Mem} {n k : Nat} (hn : n ≤ k)
    (h : k = n ∨ ∃ j < n, Ends (buf j)) :
    ∀ i ∈ examinedOf k (Leb128.group buf k), i < n := by
  intro i hi
  rcases h with rfl | hend
  · cases hg : Leb128.group buf k with
    | none =>
        rw [hg] at hi
        exact List.mem_range.mp hi
    | some bs =>
        rw [hg] at hi
        exact (List.mem_range.mp hi).trans_le (Leb128.group_eq_some.mp hg).2.1
  · obtain ⟨bs, hbs⟩ := Option.isSome_iff_exists.mp (group_isSome.mpr hend)
    rw [Leb128.group_mono hn hbs] at hi
    exact (List.mem_range.mp hi).trans_le (Leb128.group_eq_some.mp hbs).2.1

theorem lt_limit {i most : Nat} {limit : Int} (h : i < (min limit most).toNat) :
    (i : Int) < limit := by
  omega

/-- A reader that finds the first group among the `k` bytes it lets itself examine keeps to the
    limit if these are within it, or the group is. -/
theorem boundedDecoder_iff {buf : Mem} {limit : Int} {most w k : Nat} {ret : Option (Nat × Nat)}
    {examined : List Nat} (hk : (min limit most).toNat ≤ k) (hmost : k ≤ most)
    (hlim : k = (min limit most).toNat ↔ limit < 0 ∨ most ≤ limit)
    (hret : ret = (Leb128.group buf k).map fun bs => (bs.length, Leb128.value bs % 2 ^ w))
    (hexamined : examined = examinedOf k (Leb128.group buf k)) :
    BoundedDecoder buf limit most w ret examined ↔
      limit < 0 ∨ most ≤ limit ∨ ∃ j : Nat, j < limit ∧ Ends (buf j) := by
  have hcond : (limit < 0 ∨ most ≤ limit ∨ ∃ j : Nat, j < limit ∧ Ends (buf j)) ↔
      k = (min limit most).toNat ∨ ∃ j < (min limit most).toNat, Ends (buf j) := by
    rw [← or_assoc, ← hlim]
    by_cases heq : k = (min limit most).toNat
    · simp only [heq, true_or]
    · have hlt : limit < most := by
        by_contra hge
        exact heq (hlim.mpr (Or.inr (Int.not_lt.mp hge)))
      refine or_congr Iff.rfl (exists_congr fun j => and_congr_left fun _ => ?_)
      omega
  rw [hcond]
  subst hret hexamined
  constructor
  · intro h
    by_contra hno
    obtain ⟨hne, hno⟩ := not_or.mp hno
    have hlt : (min limit most).toNat < k := by omega
    have hin := h.inside _ (mem_examinedOf hlt fun j hj hend => hno ⟨j, hj, hend⟩)
    omega
  · intro h
    refine ⟨?_, fun j hj hend hbefore => ?_, fun i hi => ?_⟩
    · rw [Option.isSome_map, group_isSome]
      constructor
      · rintro ⟨j, hj, hend⟩
        rcases h with rfl | hin
        · exact ⟨j, hj, hend⟩
        · exact hin
      · rintro ⟨j, hj, hend⟩
        exact ⟨j, hj.trans_le hk, hend⟩
    · rw [group_first (hj.trans_le hk) hend hbefore, Option.map_some, value_range, List.length_map,
        List.length_range]
      refine ⟨rfl, ?_⟩
      change List.range (List.map buf _).length = _
      rw [List.length_map, List.length_range]
    · exact lt_limit (examinedOf_lt hk h i hi)

/-! ## The two readers -/

/-- A run of `_zcrt_tlv_read_len`: what it returns with the value it stores, and the bytes
    examined. -/
def TlvReadLenBounded (buf : Mem) (limit : Int) : Prop :=
  let r := ByteProg.run buf (zcrtTlvReadLenProg limit)
  BoundedDecoder buf limit 5 32 (r.1.1.map fun n => (n, r.1.2.toNat)) r.2

/-- A run of `zcdr_ReadLEN64`. -/
def ReadLEN64Bounded (buf : Mem) (limit : Int) : Prop :=
  let r := ByteProg.run buf (zcdrReadLEN64Prog limit)
  BoundedDecoder buf limit 10 64 (r.1.map fun x => (x.1, x.2.toNat)) r.2

/-- `_zcrt_tlv_read_len` keeps to its limit if this is negative or at least 5, or one of the bytes
    within it ends the code. -/
theorem zcrtTlvReadLen_bounded_iff (buf : Mem) (limit : Int) :
    TlvReadLenBounded buf limit ↔
      limit < 0 ∨ 5 ≤ limit ∨ ∃ j : Nat, j < limit ∧ Ends (buf j) := by
  refine boundedDecoder_iff (k := readable32 limit) ?_ ?_ ?_ ?_
    (zcrtTlvReadLenProg_examined buf limit)
  · unfold readable32
    omega
  · unfold readable32
    omega
  · unfold readable32
    omega
  · rw [zcrtTlvReadLenProg_eq, zcrtTlvReadLen_eq]
    cases Leb128.group buf (readable32 limit) with
    | none => rfl
    | some bs => simp [readResult32]

/-- One byte 0x80, with a limit of 1: byte 1 is examined. -/
theorem readLen_examinesPastLimit :
    ¬TlvReadLenBounded (fun i => if i = 0 then 0x80 else 0) 1 := fun h =>
  absurd (h.inside 1 (by decide)) (by decide)

/-- `zcdr_ReadLEN64` keeps to its limit if this is negative or at least 10, or one of the bytes
    within it ends the code. -/
theorem zcdrReadLEN64_bounded_iff (buf : Mem) (limit : Int) :
    ReadLEN64Bounded buf limit ↔
      limit < 0 ∨ 10 ≤ limit ∨ ∃ j : Nat, j < limit ∧ Ends (buf j) := by
  refine boundedDecoder_iff (k := readable64 limit) ?_ ?_ ?_ ?_
    (zcdrReadLEN64Prog_examined buf limit)
  · unfold readable64
    split_ifs <;> omega
  · unfold readable64
    split_ifs <;> omega
  · unfold readable64
    split_ifs <;> omega
  · rw [zcdrReadLEN64Prog_eq, zcdrReadLEN64_eq]
    cases Leb128.group buf (readable64 limit) with
    | none => rfl
    | some bs => simp [readResult64]

/-- Eight bytes 0x80, with a limit of 7: without the test before byte 8, bytes 7 and 8 are
    examined. -/
theorem readLEN64_examinesPastLimit :
    ¬ReadLEN64Bounded (fun i => if i < 8 then 0x80 else 0) 7 := fun h =>
  absurd (h.inside 8 (by decide)) (by decide)

end Zcrt
