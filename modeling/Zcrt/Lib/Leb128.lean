/-
  Base-128 varints: seven payload bits a byte, least significant group first, the high bit
  set on every byte but the last.

  * `encode` is the shortest code of a number, `value` the number a group stands for, and
    `Terminated` the shape of one group: high bits on all bytes but the last.
  * `group m k` is the reader's view: the first terminated group among the `k` bytes that may
    be read at `m`. `group_eq_some` says exactly when there is one.
-/
import Mathlib

namespace Lib.Leb128

/-- The number a group of bytes stands for, first byte least significant. -/
def value : List UInt8 → Nat
  | [] => 0
  | b :: bs => b.toNat % 128 + 128 * value bs

/-- High bit set on every byte but the last. -/
def Terminated : List UInt8 → Prop
  | [] => False
  | [b] => b.toNat < 128
  | b :: bs => 128 ≤ b.toNat ∧ Terminated bs

/-- The shortest code of `n`. -/
def encode (n : Nat) : List UInt8 :=
  if n < 128 then [UInt8.ofNat n] else UInt8.ofNat (n % 128 + 128) :: encode (n / 128)
termination_by n
decreasing_by omega

/-- The first terminated group in `m 0, …, m (k-1)`. -/
def group (m : Nat → UInt8) : Nat → Option (List UInt8)
  | 0 => none
  | k + 1 =>
      if (m 0).toNat < 128 then some [m 0]
      else (group (fun i => m (i + 1)) k).map (m 0 :: ·)

/-! ## One group -/

theorem terminated_cons {b : UInt8} {bs : List UInt8} (h : bs ≠ []) :
    Terminated (b :: bs) ↔ 128 ≤ b.toNat ∧ Terminated bs := by
  cases bs with
  | nil => exact absurd rfl h
  | cons c cs => rfl

theorem Terminated.ne_nil {bs : List UInt8} (h : Terminated bs) : bs ≠ [] := by
  rintro rfl
  exact h

theorem Terminated.length_pos {bs : List UInt8} (h : Terminated bs) : 0 < bs.length :=
  List.length_pos_iff.mpr h.ne_nil

/-- A terminated group that starts with a low byte is that byte alone. -/
theorem Terminated.tail_nil {b : UInt8} {bs : List UInt8} (h : Terminated (b :: bs))
    (hb : b.toNat < 128) : bs = [] := by
  by_contra hne
  have := ((terminated_cons hne).mp h).1
  omega

theorem value_lt (bs : List UInt8) : value bs < 128 ^ bs.length := by
  induction bs with
  | nil => simp [value]
  | cons b bs ih =>
      simp only [value, List.length_cons, Nat.pow_succ]
      have := Nat.mod_lt b.toNat (show 0 < 128 by decide)
      omega

theorem value_append (a b : List UInt8) : value (a ++ b) = value a + 128 ^ a.length * value b := by
  induction a with
  | nil => simp [value]
  | cons x a ih =>
      rw [List.cons_append, value, value, ih, List.length_cons, Nat.pow_succ, Nat.mul_add,
        Nat.mul_comm (128 ^ a.length) 128, Nat.mul_assoc, Nat.add_assoc]

/-! ## The shortest code -/

theorem encode_of_lt {n : Nat} (h : n < 128) : encode n = [UInt8.ofNat n] := by
  rw [encode, if_pos h]

theorem encode_of_ge {n : Nat} (h : 128 ≤ n) :
    encode n = UInt8.ofNat (n % 128 + 128) :: encode (n / 128) := by
  rw [encode, if_neg (by omega)]

theorem terminated_encode (n : Nat) : Terminated (encode n) := by
  induction n using Nat.strongRecOn with
  | ind n ih =>
      rcases Nat.lt_or_ge n 128 with h | h
      · rw [encode_of_lt h]
        change (UInt8.ofNat n).toNat < 128
        rw [UInt8.toNat_ofNat']
        omega
      · have hrec := ih (n / 128) (by omega)
        rw [encode_of_ge h, terminated_cons hrec.ne_nil, UInt8.toNat_ofNat']
        exact ⟨by omega, hrec⟩

theorem value_encode (n : Nat) : value (encode n) = n := by
  induction n using Nat.strongRecOn with
  | ind n ih =>
      rcases Nat.lt_or_ge n 128 with h | h
      · rw [encode_of_lt h]
        simp only [value, UInt8.toNat_ofNat']
        omega
      · rw [encode_of_ge h]
        simp only [value, UInt8.toNat_ofNat', ih (n / 128) (by omega)]
        omega

theorem length_encode_pos (n : Nat) : 0 < (encode n).length := (terminated_encode n).length_pos

/-- `k` groups are enough for every number below `128^k`. -/
theorem length_encode_le {n k : Nat} (hk : 0 < k) (h : n < 128 ^ k) : (encode n).length ≤ k := by
  induction k generalizing n with
  | zero => omega
  | succ k ih =>
      rcases Nat.lt_or_ge n 128 with hn | hn
      · rw [encode_of_lt hn]
        simp
      · have hk0 : 0 < k := by
          rcases Nat.eq_zero_or_pos k with rfl | hk0
          · simp at h
            omega
          · exact hk0
        have hdiv : n / 128 < 128 ^ k := by
          rw [Nat.div_lt_iff_lt_mul (by decide), ← Nat.pow_succ]
          exact h
        rw [encode_of_ge hn, List.length_cons]
        exact Nat.succ_le_succ (ih hk0 hdiv)

/-- `code` stands for `n`, and no terminated group that does is shorter. -/
structure IsShortest (code : List UInt8) (n : Nat) : Prop where
  terminated : Terminated code
  stands : value code = n
  least : ∀ bs, Terminated bs → value bs = n → code.length ≤ bs.length

theorem isShortest_encode (n : Nat) : IsShortest (encode n) n := by
  refine ⟨terminated_encode n, value_encode n, ?_⟩
  intro bs ht hv
  have hlt : n < 128 ^ bs.length := hv ▸ value_lt bs
  exact length_encode_le ht.length_pos hlt

/-- The bytes of a number with `k` groups above group 0: `k` high bytes, then the top group. -/
theorem encode_of_size {n k : Nat} (hlo : k = 0 ∨ 128 ^ k ≤ n) (hhi : n < 128 ^ (k + 1)) :
    encode n = (List.range k).map (fun i => UInt8.ofNat (n / 128 ^ i % 128 + 128)) ++
      [UInt8.ofNat (n / 128 ^ k)] := by
  induction k generalizing n with
  | zero =>
      rw [encode_of_lt (by simpa using hhi)]
      simp
  | succ k ih =>
      have hge : 128 ^ (k + 1) ≤ n := by simpa using hlo
      have hpow : 128 ^ (k + 1) = 128 ^ k * 128 := Nat.pow_succ ..
      have hpos : 0 < 128 ^ k := Nat.pow_pos (by decide)
      have hdiv : ∀ i, n / 128 / 128 ^ i = n / 128 ^ (i + 1) := by
        intro i
        rw [Nat.div_div_eq_div_mul, Nat.pow_succ, Nat.mul_comm]
      rw [encode_of_ge (by omega), ih (n := n / 128) ?_ ?_, List.range_succ_eq_map, List.map_cons,
        List.map_map, hdiv]
      · simp only [hdiv, Function.comp_def, Nat.pow_zero, Nat.div_one, List.cons_append,
          Nat.succ_eq_add_one]
      · exact Or.inr ((Nat.le_div_iff_mul_le (by decide)).mpr (by omega))
      · exact (Nat.div_lt_iff_lt_mul (by decide)).mpr (by rw [← Nat.pow_succ]; exact hhi)

/-! ## Reading a group -/

/-- The reader finds exactly the terminated groups that fit in what it may read. -/
theorem group_eq_some {m : Nat → UInt8} {k : Nat} {bs : List UInt8} :
    group m k = some bs ↔
      Terminated bs ∧ bs.length ≤ k ∧ ∀ i (h : i < bs.length), m i = bs[i] := by
  induction k generalizing m bs with
  | zero =>
      simp only [group, reduceCtorEq, false_iff, not_and]
      intro h hl
      have := h.length_pos
      omega
  | succ k ih =>
      rw [group]
      split
      · next hlow =>
          constructor
          · rintro ⟨rfl⟩
            exact ⟨hlow, by simp, by simp⟩
          · rintro ⟨ht, -, hm⟩
            cases bs with
            | nil => exact absurd rfl ht.ne_nil
            | cons b bs =>
                have hb : m 0 = b := hm 0 (by simp)
                rw [ht.tail_nil (hb ▸ hlow), hb]
      · next hhigh =>
          rw [Option.map_eq_some_iff]
          constructor
          · rintro ⟨cs, hcs, rfl⟩
            obtain ⟨ht, hl, hm⟩ := ih.mp hcs
            refine ⟨(terminated_cons ht.ne_nil).mpr ⟨by omega, ht⟩, by simpa using hl, ?_⟩
            intro i hi
            cases i with
            | zero => rfl
            | succ i => exact hm i (by simpa using hi)
          · rintro ⟨ht, hl, hm⟩
            cases bs with
            | nil => exact absurd rfl ht.ne_nil
            | cons b cs =>
                have hb : m 0 = b := hm 0 (by simp)
                have hne : cs ≠ [] := by
                  rintro rfl
                  exact hhigh (hb ▸ ht)
                refine ⟨cs, ih.mpr ⟨((terminated_cons hne).mp ht).2, by simpa using hl, ?_⟩, ?_⟩
                · intro i hi
                  exact hm (i + 1) (by simpa using hi)
                · rw [hb]

/-- There is no group exactly when every byte that may be read has its high bit set. -/
theorem group_eq_none {m : Nat → UInt8} {k : Nat} :
    group m k = none ↔ ∀ i, i < k → 128 ≤ (m i).toNat := by
  induction k generalizing m with
  | zero => simp [group]
  | succ k ih =>
      rw [group]
      split
      · next hlow =>
          simp only [reduceCtorEq, false_iff]
          intro h
          have := h 0 (by omega)
          omega
      · next hhigh =>
          rw [Option.map_eq_none_iff, ih]
          constructor
          · intro h i hi
            cases i with
            | zero => omega
            | succ i => exact h i (by omega)
          · intro h i hi
            exact h (i + 1) (by omega)

/-- The group found ends with the first low byte. -/
theorem group_of_first {m : Nat → UInt8} {k j : Nat} (hj : j < k) (hlow : (m j).toNat < 128)
    (hhigh : ∀ i, i < j → 128 ≤ (m i).toNat) : group m k = some ((List.range (j + 1)).map m) := by
  obtain ⟨k, rfl⟩ : ∃ k', k = k' + 1 := ⟨k - 1, by omega⟩
  induction j generalizing m k with
  | zero =>
      rw [group, if_pos hlow]
      rfl
  | succ j ih =>
      obtain ⟨k, rfl⟩ : ∃ k', k = k' + 1 := ⟨k - 1, by omega⟩
      have h0 := hhigh 0 (Nat.succ_pos j)
      have hrec := ih (m := fun i => m (i + 1)) hlow (fun i hi => hhigh (i + 1) (by omega)) k
        (by omega)
      rw [group, if_neg (by omega), hrec, List.range_succ_eq_map (n := j + 1), List.map_cons,
        List.map_map]
      rfl

/-- Reading more bytes finds the same group. -/
theorem group_mono {m : Nat → UInt8} {k k' : Nat} {bs : List UInt8} (hk : k ≤ k')
    (h : group m k = some bs) : group m k' = some bs := by
  obtain ⟨ht, hl, hm⟩ := group_eq_some.mp h
  exact group_eq_some.mpr ⟨ht, by omega, hm⟩

theorem group_agree {m m' : Nat → UInt8} {k : Nat} (h : ∀ i, i < k → m i = m' i) :
    group m k = group m' k := by
  induction k generalizing m m' with
  | zero => rfl
  | succ k ih =>
      rw [group, group, h 0 (by omega), ih fun i hi => h (i + 1) (by omega)]

section Tail

variable {α : Type} (R : Option (List UInt8) → α) (m : Nat → UInt8) (k : Nat)

/-- What a reader that turns the group found into `R` still has to answer after the high bytes
    `m 0, …, m (i-1)`. -/
def tail (i : Nat) : α :=
  R ((group (fun j => m (i + j)) (k - i)).map ((List.range i).map m ++ ·))

theorem tail_zero : tail R m k 0 = R (group m k) := by
  simp [tail]

theorem tail_of_le {i : Nat} (h : k ≤ i) : tail R m k i = R none := by
  unfold tail
  rw [Nat.sub_eq_zero_of_le h]
  rfl

/-- One more byte may be read: it ends the group, or the reader goes on. -/
theorem tail_of_lt {i : Nat} (h : i < k) :
    tail R m k i =
      if (m i).toNat < 128 then R (some ((List.range (i + 1)).map m)) else tail R m k (i + 1) := by
  have hk : k - i = k - (i + 1) + 1 := by omega
  have hm : (fun j => m (i + (j + 1))) = fun j => m (i + 1 + j) :=
    funext fun j => by rw [Nat.add_assoc, Nat.add_comm 1 j]
  unfold tail
  rw [hk, group, Nat.add_zero, hm, List.range_succ, List.map_append]
  by_cases hlow : (m i).toNat < 128
  · rw [if_pos hlow, if_pos hlow]
    rfl
  · rw [if_neg hlow, if_neg hlow, Option.map_map]
    refine congrArg (fun f => R (Option.map f _)) (funext fun x => ?_)
    simp

/-- A test of the limit before each byte. -/
theorem tail_step (i : Nat) :
    tail R m k i = if k ≤ i then R none
      else if (m i).toNat < 128 then R (some ((List.range (i + 1)).map m))
      else tail R m k (i + 1) := by
  split
  · next h => exact tail_of_le R m k h
  · next h => exact tail_of_lt R m k (by omega)

end Tail

end Lib.Leb128
