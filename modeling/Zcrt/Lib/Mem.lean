/-
  Byte memory seen from an address on: `m i` is the byte `i` places after the address. A block
  copy, the list of bytes in a range, and how the two meet.
-/
import Mathlib

namespace Lib

/-- The bytes from some address on. -/
abbrev Mem := Nat → UInt8

namespace Mem

/-- The memory seen from `i` bytes further on. -/
def shift (m : Mem) (i : Nat) : Mem := fun j => m (i + j)

/-- The `n` bytes starting at `i`. -/
def slice (m : Mem) (i n : Nat) : List UInt8 := (List.range n).map fun j => m (i + j)

/-- Copy the bytes `src` to `dst`. -/
def copy (m : Mem) (dst : Nat) (src : List UInt8) : Mem := fun i =>
  if dst ≤ i ∧ i < dst + src.length then src.getD (i - dst) 0 else m i

/-- `n` bytes set to `b` from `dst` on. -/
def fill (m : Mem) (dst n : Nat) (b : UInt8) : Mem := fun i =>
  if dst ≤ i ∧ i < dst + n then b else m i

@[simp] theorem shift_apply (m : Mem) (i j : Nat) : m.shift i j = m (i + j) := rfl

theorem slice_shift (m : Mem) (p i n : Nat) : (m.shift p).slice i n = m.slice (p + i) n := by
  unfold slice
  exact List.map_congr_left fun j _ => congrArg m (Nat.add_assoc p i j).symm

@[simp] theorem slice_length (m : Mem) (i n : Nat) : (m.slice i n).length = n := by simp [slice]

@[simp] theorem slice_zero (m : Mem) (i : Nat) : m.slice i 0 = [] := rfl

@[simp] theorem getElem_slice (m : Mem) (i n j : Nat) (h : j < (m.slice i n).length) :
    (m.slice i n)[j] = m (i + j) := by
  simp [slice]

theorem slice_succ (m : Mem) (i n : Nat) : m.slice i (n + 1) = m i :: m.slice (i + 1) n := by
  unfold slice
  rw [List.range_succ_eq_map, List.map_cons, List.map_map]
  refine congrArg₂ _ rfl (List.map_congr_left fun j _ => ?_)
  change m (i + (j + 1)) = m (i + 1 + j)
  rw [Nat.add_assoc, Nat.add_comm 1 j]

theorem slice_add (m : Mem) (i a b : Nat) :
    m.slice i (a + b) = m.slice i a ++ m.slice (i + a) b := by
  unfold slice
  rw [List.range_add, List.map_append, List.map_map]
  refine congrArg _ (List.map_congr_left fun j _ => ?_)
  change m (i + (a + j)) = m (i + a + j)
  rw [Nat.add_assoc]

theorem slice_congr {m m' : Mem} {i n : Nat} (h : ∀ j, j < n → m (i + j) = m' (i + j)) :
    m.slice i n = m'.slice i n :=
  List.map_congr_left fun j hj => h j (List.mem_range.mp hj)

/-- A range that holds `a ++ b` holds `a`, and `b` right after it. -/
theorem slice_eq_append {m : Mem} {i n : Nat} {a b : List UInt8} (h : m.slice i n = a ++ b) :
    m.slice i a.length = a ∧ m.slice (i + a.length) (n - a.length) = b ∧ a.length ≤ n := by
  have hl : n = a.length + b.length := by
    have := congrArg List.length h
    simpa using this
  rw [hl, slice_add] at h
  obtain ⟨h1, h2⟩ := List.append_inj h (by simp)
  refine ⟨h1, ?_, by omega⟩
  rw [hl, Nat.add_sub_cancel_left]
  exact h2

theorem apply_of_slice {m : Mem} {i n : Nat} {bs : List UInt8} (h : m.slice i n = bs)
    {j : Nat} (hj : j < bs.length) : m (i + j) = bs[j] := by
  subst h
  rw [getElem_slice]

/-- Bytes outside the copied range are kept. -/
theorem copy_of_outside {m : Mem} {dst i : Nat} {src : List UInt8}
    (h : i < dst ∨ dst + src.length ≤ i) : m.copy dst src i = m i := by
  unfold copy
  rw [if_neg (by omega)]

theorem copy_inside {m : Mem} {dst j : Nat} {src : List UInt8} (h : j < src.length) :
    m.copy dst src (dst + j) = src[j] := by
  unfold copy
  rw [if_pos (by omega), Nat.add_sub_cancel_left, List.getD_eq_getElem _ _ h]

/-- A range beside the copied one is kept. -/
theorem slice_copy_of_outside {m : Mem} {dst i n : Nat} {src : List UInt8}
    (h : i + n ≤ dst ∨ dst + src.length ≤ i) : (m.copy dst src).slice i n = m.slice i n :=
  slice_congr fun j hj => copy_of_outside (by omega)

@[simp] theorem slice_copy_self (m : Mem) (dst : Nat) (src : List UInt8) :
    (m.copy dst src).slice dst src.length = src := by
  apply List.ext_getElem (by simp)
  intro j h1 h2
  rw [getElem_slice, copy_inside h2]

end Mem

end Lib
