/-
  `zcrtlib/zarraylist.c`: the growable array `ZArrayList` of elements of one size.

  Lengths, sizes and their products are 32-bit as in the source and wrap. `data` is the memory
  from the start of the block on, `block` the size last asked of the allocator, which always
  succeeds here. A failed `ZCRT_ASSERT` and an access outside the block end the run.

  * `zarraySetlength_ok`: with no size wrapping, the array has the length asked for and its
    elements are inside the block.
  * `ZArrayList.elem_store`: an element stored is that element, the others are kept.
-/
import Zcrt.Core.Types

namespace Zcrt

open Lib

/-- `ZArrayList`. -/
structure ZArrayList where
  /-- number of active elem -/
  len : UInt32
  /-- the sizeof the elem -/
  unitsize : UInt32
  /-- number of allocated elem -/
  alloced : UInt32
  /-- realloc for step -/
  step : UInt32
  data : Mem
  /-- size of the block behind `data` -/
  block : Nat

/-- What ends a run before it returns. -/
inductive ArrFault
  /-- `ZCRT_ASSERT` -/
  | assertion
  /-- a pointer that is `NULL` or leaves the block -/
  | pointer
deriving DecidableEq, Repr

/-- `zarray_new`; `mem` is the memory the allocator hands out, which `zcrt_malloc` clears. -/
def zarrayNew (size unitsize step : UInt32) (mem : Mem) : ZArrayList :=
  let size := if size = 0 then 1 else size
  { len := 0, unitsize := unitsize, alloced := size, step := step
    data := mem.fill 0 (unitsize * size).toNat 0
    block := (unitsize * size).toNat }

/-- `zarray_setlength`. -/
def zarraySetlength (v : ZArrayList) (len : UInt32) : Except ArrFault ZArrayList :=
  let nlen := len
  let v := { v with len := len }
  if ¬len < 0xfffff then .error .assertion
  else if v.alloced > len then .ok v
  else
    let nlen := if len - v.alloced < v.step then v.alloced + v.step else nlen
    let block := (v.unitsize * nlen).toNat
    let start := (v.alloced * v.unitsize).toNat
    let size := (v.unitsize * (nlen - v.alloced)).toNat
    -- the range of `memset`
    if start + size ≤ block then
      .ok { v with data := v.data.fill start size 0, block := block, alloced := nlen }
    else .error .pointer

/-- `zarray_getlength`. -/
def zarrayGetlength (v : ZArrayList) : UInt32 := v.len

/-- `zarray_get`: the place of the element in `data`; `none` is `NULL`. -/
def zarrayGet (v : ZArrayList) (idx : UInt32) : Option Nat :=
  if idx ≥ v.len then none else some (idx * v.unitsize).toNat

namespace ZArrayList

/-- The place `zarray_get` gives when a whole element can be accessed there. -/
def place (v : ZArrayList) (idx : UInt32) : Option Nat :=
  (zarrayGet v idx).filter fun p => p + v.unitsize.toNat ≤ v.block

/-- The array with the element at `p` as it is at `m`. -/
def store (v : ZArrayList) (p : Nat) (m : Mem) : ZArrayList :=
  { v with data := v.data.copy p (m.slice 0 v.unitsize.toNat) }

/-- The bytes of element `i`. -/
def elem (v : ZArrayList) (i : Nat) : List UInt8 :=
  v.data.slice (i * v.unitsize.toNat) v.unitsize.toNat

@[simp] theorem store_len (v : ZArrayList) (p : Nat) (m : Mem) : (v.store p m).len = v.len := rfl
@[simp] theorem store_unitsize (v : ZArrayList) (p : Nat) (m : Mem) :
    (v.store p m).unitsize = v.unitsize := rfl
@[simp] theorem store_block (v : ZArrayList) (p : Nat) (m : Mem) :
    (v.store p m).block = v.block := rfl

/-- The block is the one asked for, and holds the active elements. -/
structure Ok (v : ZArrayList) : Prop where
  block : v.block = v.unitsize.toNat * v.alloced.toNat
  size : v.block < 2 ^ 32
  len : v.unitsize.toNat * v.len.toNat ≤ v.block

/-- The elements allocated once the length is `n`, as a natural number. -/
def capacity (v : ZArrayList) (n : Nat) : Nat :=
  if n < v.alloced.toNat then v.alloced.toNat
  else if n - v.alloced.toNat < v.step.toNat then v.alloced.toNat + v.step.toNat
  else n

theorem Ok.place {v : ZArrayList} (hv : v.Ok) {idx : UInt32} (h : idx < v.len) :
    v.place idx = some (idx.toNat * v.unitsize.toNat) := by
  have hlt := UInt32.lt_iff_toNat_lt.mp h
  have hin : idx.toNat * v.unitsize.toNat + v.unitsize.toNat ≤ v.block := by
    have hmul := Nat.mul_le_mul_right v.unitsize.toNat (Nat.succ_le_of_lt hlt)
    rw [Nat.succ_mul, Nat.mul_comm v.len.toNat] at hmul
    exact hmul.trans hv.len
  have hsize := hv.size
  have hp : (idx * v.unitsize).toNat = idx.toNat * v.unitsize.toNat := by
    rw [UInt32.toNat_mul, Nat.mod_eq_of_lt (by omega)]
  unfold ZArrayList.place zarrayGet
  rw [if_neg (UInt32.not_le.mpr h), hp, Option.filter_some, if_pos (decide_eq_true hin)]

theorem Ok.store {v : ZArrayList} (hv : v.Ok) (p : Nat) (m : Mem) : (v.store p m).Ok :=
  ⟨hv.block, hv.size, hv.len⟩

theorem elem_store (v : ZArrayList) (i : Nat) (m : Mem) (j : Nat) :
    (v.store (i * v.unitsize.toNat) m).elem j =
      if j = i then m.slice 0 v.unitsize.toNat else v.elem j := by
  unfold elem store
  dsimp only
  split
  · next h =>
      subst h
      have := Mem.slice_copy_self v.data (j * v.unitsize.toNat) (m.slice 0 v.unitsize.toNat)
      rwa [Mem.slice_length] at this
  · next h =>
      apply Mem.slice_copy_of_outside
      rw [Mem.slice_length]
      rcases Nat.lt_or_gt_of_ne h with h | h
      · left
        have := Nat.mul_le_mul_right v.unitsize.toNat (Nat.succ_le_of_lt h)
        rwa [Nat.succ_mul] at this
      · right
        have := Nat.mul_le_mul_right v.unitsize.toNat (Nat.succ_le_of_lt h)
        rwa [Nat.succ_mul] at this

end ZArrayList

theorem zarrayNew_ok {size unitsize : UInt32} (step : UInt32) (mem : Mem)
    (h : unitsize.toNat * max 1 size.toNat < 2 ^ 32) : (zarrayNew size unitsize step mem).Ok := by
  have hmax : (if size = 0 then 1 else size).toNat = max 1 size.toNat := by
    split
    · next h0 => rw [h0]; rfl
    · next h0 =>
        have : size.toNat ≠ 0 := fun he => h0 (UInt32.toNat_inj.mp he)
        omega
  unfold zarrayNew
  dsimp only
  refine ⟨?_, ?_, Nat.zero_le _⟩ <;> dsimp only <;>
    rw [UInt32.toNat_mul, hmax, Nat.mod_eq_of_lt h]
  exact h

/-- The number of elements `zarray_setlength` asks for when the block is too small. -/
def ZArrayList.nlen (v : ZArrayList) (len : UInt32) : UInt32 :=
  if len - v.alloced < v.step then v.alloced + v.step else len

theorem nlen_toNat {v : ZArrayList} {len : UInt32} (hge : v.alloced ≤ len)
    (hsum : len.toNat - v.alloced.toNat < v.step.toNat →
      v.alloced.toNat + v.step.toNat < 2 ^ 32) : (v.nlen len).toNat = v.capacity len.toNat := by
  have hge' := UInt32.le_iff_toNat_le.mp hge
  have hsub := UInt32.toNat_sub_of_le _ _ hge
  unfold ZArrayList.nlen ZArrayList.capacity
  rw [if_neg (show ¬len.toNat < v.alloced.toNat by omega)]
  by_cases hstep : len - v.alloced < v.step
  · have hstep' := UInt32.lt_iff_toNat_lt.mp hstep
    rw [hsub] at hstep'
    rw [if_pos hstep, if_pos hstep', UInt32.toNat_add, Nat.mod_eq_of_lt (hsum hstep')]
  · have hstep' : ¬len.toNat - v.alloced.toNat < v.step.toNat := by
      rw [← hsub]
      exact fun hc => hstep (UInt32.lt_iff_toNat_lt.mpr hc)
    rw [if_neg hstep, if_neg hstep']

theorem le_capacity (v : ZArrayList) (n : Nat) : n ≤ v.capacity n := by
  unfold ZArrayList.capacity
  split_ifs <;> omega

theorem alloced_le_capacity (v : ZArrayList) (n : Nat) : v.alloced.toNat ≤ v.capacity n := by
  unfold ZArrayList.capacity
  split_ifs <;> omega

/-- With room in the block only the length changes. -/
theorem zarraySetlength_fits {v : ZArrayList} {len : UInt32} (h : len < 0xfffff)
    (hfit : v.alloced > len) : zarraySetlength v len = .ok { v with len := len } := by
  unfold zarraySetlength
  dsimp only
  rw [if_neg (not_not.mpr h), if_pos hfit]

/-- Without, the block grows to `capacity` elements and the new ones are cleared. -/
theorem zarraySetlength_grows {v : ZArrayList} (hv : v.Ok) {len : UInt32} (h : len < 0xfffff)
    (hge : v.alloced ≤ len) (hnlen : (v.nlen len).toNat = v.capacity len.toNat)
    (hroom : v.unitsize.toNat * v.capacity len.toNat < 2 ^ 32) :
    zarraySetlength v len = .ok
      { v with len := len, alloced := v.nlen len
               data := v.data.fill v.block
                 (v.unitsize.toNat * (v.capacity len.toNat - v.alloced.toNat)) 0
               block := v.unitsize.toNat * v.capacity len.toNat } := by
  have hle := alloced_le_capacity v len.toNat
  have hmul : (v.unitsize * v.nlen len).toNat = v.unitsize.toNat * v.capacity len.toNat := by
    rw [UInt32.toNat_mul, hnlen, Nat.mod_eq_of_lt hroom]
  have hstart : (v.alloced * v.unitsize).toNat = v.block := by
    have := hv.size
    rw [hv.block] at this ⊢
    rw [UInt32.toNat_mul, Nat.mul_comm, Nat.mod_eq_of_lt this]
  have hsize : (v.unitsize * (v.nlen len - v.alloced)).toNat =
      v.unitsize.toNat * (v.capacity len.toNat - v.alloced.toNat) := by
    have hle' : v.alloced ≤ v.nlen len := UInt32.le_iff_toNat_le.mpr (by omega)
    rw [UInt32.toNat_mul, UInt32.toNat_sub_of_le _ _ hle', hnlen,
      Nat.mod_eq_of_lt (Nat.lt_of_le_of_lt (Nat.mul_le_mul_left _ (Nat.sub_le ..)) hroom)]
  have hin : v.block + v.unitsize.toNat * (v.capacity len.toNat - v.alloced.toNat) ≤
      v.unitsize.toNat * v.capacity len.toNat := by
    rw [hv.block, ← Nat.mul_add, Nat.add_sub_cancel' hle]
  unfold zarraySetlength
  dsimp only
  rw [if_neg (not_not.mpr h), if_neg (UInt32.not_lt.mpr hge),
    show (if len - v.alloced < v.step then v.alloced + v.step else len) = v.nlen len from rfl,
    hstart, hsize, hmul, if_pos hin]

/-- A length below the bound of the assertion, all sizes in bytes below `2^32`. -/
theorem zarraySetlength_ok {v : ZArrayList} (hv : v.Ok) {len : UInt32} (h : len < 0xfffff)
    (hroom : v.unitsize.toNat * v.capacity len.toNat < 2 ^ 32) :
    ∃ w, zarraySetlength v len = .ok w ∧ w.Ok ∧ w.len = len ∧ w.unitsize = v.unitsize := by
  by_cases hfit : v.alloced > len
  · have hlt := UInt32.lt_iff_toNat_lt.mp hfit
    refine ⟨_, zarraySetlength_fits h hfit, ⟨hv.block, hv.size, ?_⟩, rfl, rfl⟩
    rw [hv.block]
    exact Nat.mul_le_mul_left _ (Nat.le_of_lt hlt)
  have hge := UInt32.not_lt.mp hfit
  by_cases hunit : v.unitsize = 0
  · -- elements of no size: nothing is asked for and nothing cleared
    unfold zarraySetlength
    dsimp only
    rw [if_neg (not_not.mpr h), if_neg hfit, hunit, UInt32.mul_zero, UInt32.zero_mul,
      UInt32.zero_mul, if_pos (by decide)]
    refine ⟨_, rfl, ⟨?_, ?_, ?_⟩, rfl, rfl⟩
    · exact (Nat.zero_mul _).symm
    · exact (by decide : 0 < 2 ^ 32)
    · exact (Nat.zero_mul _).le
  have hpos : 0 < v.unitsize.toNat := Nat.pos_of_ne_zero fun he => hunit (UInt32.toNat_inj.mp he)
  have hge' := UInt32.le_iff_toNat_le.mp hge
  have hnlen : (v.nlen len).toNat = v.capacity len.toNat := by
    refine nlen_toNat hge fun hstep => ?_
    have hcap := Nat.lt_of_le_of_lt (Nat.le_mul_of_pos_left _ hpos) hroom
    unfold ZArrayList.capacity at hcap
    rwa [if_neg (by omega), if_pos hstep] at hcap
  refine ⟨_, zarraySetlength_grows hv h hge hnlen hroom, ⟨?_, hroom, ?_⟩, rfl, rfl⟩
  · dsimp only
    rw [hnlen]
  · exact Nat.mul_le_mul_left _ (le_capacity v len.toNat)

end Zcrt
