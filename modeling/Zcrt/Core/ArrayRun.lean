/-
  Runs of `ZArrayList`: `zarray_setlength`, `zarray_increase`, `zarray_decrease` and writes through
  `zarray_get`, in any order.

  * `ZArrayList.Held`: the active elements are allocated, and the block is theirs.
  * `zarraySetlength_held`: a new length keeps this, and the elements below both lengths.
  * `arrSys_refines`: the array along every run of calls whose sizes do not wrap.
  * `bigStep_short`: where the sum of `alloced` and `step` wraps, elements of no size get a length
    above `alloced`.
-/
import Zcrt.Core.ArrayList
import Zcrt.Lib.Steps

namespace Zcrt

open Lib

/-- `zarray_increase`. -/
def zarrayIncrease (v : ZArrayList) : Except ArrFault (ZArrayList × Option Nat) := do
  let len := zarrayGetlength v
  let v ← zarraySetlength v (len + 1)
  return (v, zarrayGet v len)

/-- `zarray_decrease`. -/
def zarrayDecrease (v : ZArrayList) : Except ArrFault ZArrayList :=
  zarraySetlength v (zarrayGetlength v - 1)

/-- The calls of a run; `write` stores an element at the place `zarray_get` gives. -/
inductive ArrOp
  | setlength (len : UInt32)
  | increase
  | decrease
  | write (idx : UInt32) (mem : Mem)

namespace ArrOp

def run (v : ZArrayList) : ArrOp → Except ArrFault ZArrayList
  | setlength len => zarraySetlength v len
  | increase => (zarrayIncrease v).map Prod.fst
  | decrease => zarrayDecrease v
  | write idx mem =>
      match v.place idx with
      | some p => .ok (v.store p mem)
      | none => .error .pointer

/-- The length after the call. -/
def length (v : ZArrayList) : ArrOp → Nat
  | setlength len => len.toNat
  | increase => v.len.toNat + 1
  | decrease => v.len.toNat - 1
  | write _ _ => v.len.toNat

/-- The element `i` after the call. -/
def value (v : ZArrayList) (i : Nat) : ArrOp → List UInt8
  | write idx mem => if i = idx.toNat then mem.slice 0 v.unitsize.toNat else v.elem i
  | _ => v.elem i

/-- `zarray_decrease` is for arrays that are not empty, a write for active elements. -/
def Defined (v : ZArrayList) : ArrOp → Prop
  | decrease => 0 < v.len
  | write idx _ => idx < v.len
  | _ => True

/-- The lengths and the products of a call. -/
structure Fits (v : ZArrayList) (op : ArrOp) : Prop where
  defined : op.Defined v
  len : op.length v < 0xfffff
  product : v.unitsize.toNat * op.length v < 2 ^ 32
  grown : v.unitsize.toNat * (v.alloced.toNat + v.step.toNat) < 2 ^ 32

/-- `Fits`, and the sum of `alloced` and `step` does not wrap. -/
structure FitsSum (v : ZArrayList) (op : ArrOp) : Prop extends Fits v op where
  sum : v.alloced.toNat + v.step.toNat < 2 ^ 32

end ArrOp

/-- The arrays that `zarray_new` with these arguments and the calls lead to. -/
def arrSys (size unitsize step : UInt32) (mem : Mem) : Sys ZArrayList ArrOp where
  init v := v = zarrayNew size unitsize step mem
  next v op := (op.run v).toOption

/-! ## The invariant -/

/-- The active elements are allocated, and the block is that of the elements allocated. -/
structure ZArrayList.Held (v : ZArrayList) : Prop where
  len : v.len ≤ v.alloced
  block : v.block = v.alloced.toNat * v.unitsize.toNat
  size : v.block < 2 ^ 32

theorem ZArrayList.Held.ok {v : ZArrayList} (hv : v.Held) : v.Ok := by
  have hblock : v.block = v.unitsize.toNat * v.alloced.toNat := by rw [hv.block, Nat.mul_comm]
  refine ⟨hblock, hv.size, ?_⟩
  rw [hblock]
  exact Nat.mul_le_mul_left _ (UInt32.le_iff_toNat_le.mp hv.len)

theorem zarrayNew_held {size unitsize : UInt32} (step : UInt32) (mem : Mem)
    (h : unitsize.toNat * size.toNat < 2 ^ 32) : (zarrayNew size unitsize step mem).Held := by
  have hroom : unitsize.toNat * max 1 size.toNat < 2 ^ 32 := by
    rcases Nat.eq_zero_or_pos size.toNat with h0 | h0
    · rw [h0, Nat.max_eq_left (by decide), Nat.mul_one]
      exact unitsize.toNat_lt
    · rwa [Nat.max_eq_right h0]
  have hok := zarrayNew_ok step mem hroom
  exact ⟨UInt32.zero_le, by rw [hok.block, Nat.mul_comm], hok.size⟩

/-- What a length set leaves. -/
structure KeepsBelow (v w : ZArrayList) : Prop where
  unitsize : w.unitsize = v.unitsize
  step : w.step = v.step
  elem : ∀ i, i < v.len.toNat → w.elem i = v.elem i

theorem zarraySetlength_held {v : ZArrayList} (hv : v.Held) {len : UInt32} (h : len < 0xfffff)
    (hlen : v.unitsize.toNat * len.toNat < 2 ^ 32)
    (hgrown : v.unitsize.toNat * (v.alloced.toNat + v.step.toNat) < 2 ^ 32)
    (hsum : v.alloced.toNat + v.step.toNat < 2 ^ 32) :
    ∃ w, zarraySetlength v len = .ok w ∧ w.Held ∧ w.len = len ∧ KeepsBelow v w := by
  by_cases hfit : v.alloced > len
  · refine ⟨_, zarraySetlength_fits h hfit, ⟨?_, hv.block, hv.size⟩, rfl, rfl, rfl, fun _ _ => rfl⟩
    exact UInt32.le_of_lt hfit
  · have hge := UInt32.not_lt.mp hfit
    have hnlen := nlen_toNat hge fun _ => hsum
    have hroom : v.unitsize.toNat * v.capacity len.toNat < 2 ^ 32 := by
      have hle := UInt32.le_iff_toNat_le.mp hge
      unfold ZArrayList.capacity
      rw [if_neg (by omega)]
      split_ifs
      · exact hgrown
      · exact hlen
    refine ⟨_, zarraySetlength_grows hv.ok h hge hnlen hroom, ⟨?_, ?_, hroom⟩, rfl, rfl, rfl, ?_⟩
    · apply UInt32.le_iff_toNat_le.mpr
      dsimp only
      rw [hnlen]
      exact le_capacity v len.toNat
    · dsimp only
      rw [hnlen, Nat.mul_comm]
    · -- the elements cleared lie behind the old block
      intro i hi
      refine Mem.slice_congr fun j hj => ?_
      have hin : (i + 1) * v.unitsize.toNat ≤ v.block := by
        have hle := UInt32.le_iff_toNat_le.mp hv.len
        rw [hv.block]
        exact Nat.mul_le_mul_right _ (by omega)
      rw [Nat.succ_mul] at hin
      have hj' : j < v.unitsize.toNat := hj
      have hlt : i * v.unitsize.toNat + j < v.block := by omega
      exact if_neg fun hc => absurd hc.1 (Nat.not_le_of_lt hlt)

/-! ## A call -/

/-- What a call does: the length is the one asked for, and the elements below both lengths are
    those of before but for the one written. -/
structure ArrStep (v w : ZArrayList) (op : ArrOp) : Prop where
  held : w.Held
  len : (zarrayGetlength w).toNat = op.length v
  unitsize : w.unitsize = v.unitsize
  step : w.step = v.step
  elem : ∀ i, i < v.len.toNat → i < w.len.toNat → w.elem i = op.value v i

theorem setlength_step {v : ZArrayList} (hv : v.Held) {len : UInt32} {op : ArrOp}
    (hop : op.FitsSum v) (hlen : len.toNat = op.length v)
    (hvalue : ∀ i, op.value v i = v.elem i) :
    ∃ w, zarraySetlength v len = .ok w ∧ ArrStep v w op := by
  have hlt : len < 0xfffff := UInt32.lt_iff_toNat_lt.mpr (hlen ▸ hop.len)
  obtain ⟨w, hw, hheld, hwlen, hkeep⟩ :=
    zarraySetlength_held hv hlt (hlen ▸ hop.product) hop.grown hop.sum
  refine ⟨w, hw, hheld, ?_, hkeep.unitsize, hkeep.step, fun i hi _ => ?_⟩
  · rw [← hlen, ← hwlen]
    rfl
  · rw [hvalue, hkeep.elem i hi]

theorem ArrOp.run_step {v : ZArrayList} (hv : v.Held) {op : ArrOp} (hop : op.FitsSum v) :
    ∃ w, op.run v = .ok w ∧ ArrStep v w op := by
  match op with
  | setlength len => exact setlength_step hv hop rfl fun _ => rfl
  | increase =>
      have hlen : (v.len + 1).toNat = v.len.toNat + 1 := by
        have hlt : v.len.toNat + 1 < 0xfffff := hop.len
        exact Word.u32_succ (by omega)
      obtain ⟨w, hw, hs⟩ := setlength_step hv hop hlen fun _ => rfl
      refine ⟨w, ?_, hs⟩
      change ((zarraySetlength v (v.len + 1)).bind fun w => .ok (w, zarrayGet w v.len)).map
        Prod.fst = .ok w
      rw [hw]
      rfl
  | decrease =>
      have hpos : 0 < v.len := hop.defined
      have hlen : (v.len - 1).toNat = v.len.toNat - 1 := by
        have hle : (1 : UInt32) ≤ v.len :=
          UInt32.le_iff_toNat_le.mpr (UInt32.lt_iff_toNat_lt.mp hpos)
        exact UInt32.toNat_sub_of_le _ _ hle
      exact setlength_step hv hop hlen fun _ => rfl
  | write idx mem =>
      have hidx : idx < v.len := hop.defined
      have hrun : (write idx mem).run v = .ok (v.store (idx.toNat * v.unitsize.toNat) mem) := by
        change (match v.place idx with
          | some p => Except.ok (v.store p mem)
          | none => Except.error ArrFault.pointer) = _
        rw [hv.ok.place hidx]
      refine ⟨_, hrun, ⟨hv.len, hv.block, hv.size⟩, rfl, rfl, rfl, fun i _ _ => ?_⟩
      exact ZArrayList.elem_store v idx.toNat mem i

/-- `zarray_increase` gives the new element. -/
theorem zarrayIncrease_place {v : ZArrayList} (hv : v.Held) (hop : ArrOp.increase.FitsSum v) :
    ∃ w, zarrayIncrease v = .ok (w, some (v.len.toNat * v.unitsize.toNat)) := by
  have hlen : (v.len + 1).toNat = v.len.toNat + 1 := by
    have hlt : v.len.toNat + 1 < 0xfffff := hop.len
    exact Word.u32_succ (by omega)
  obtain ⟨w, hw, hs⟩ := setlength_step hv hop hlen fun _ => rfl
  have hwlen : w.len.toNat = v.len.toNat + 1 := hs.len
  have hin : v.len < w.len := UInt32.lt_iff_toNat_lt.mpr (by omega)
  have hplace := hs.held.ok.place hin
  have hget : zarrayGet w v.len = some (v.len.toNat * v.unitsize.toNat) := by
    unfold ZArrayList.place at hplace
    rw [← hs.unitsize]
    exact (Option.filter_eq_some_iff.mp hplace).1
  refine ⟨w, ?_⟩
  change ((zarraySetlength v (v.len + 1)).bind fun w => .ok (w, zarrayGet w v.len)) = _
  rw [hw]
  exact congrArg (fun p => Except.ok (w, p)) hget

/-! ## Runs -/

/-- `zarray_get`: `NULL` behind the active elements; else a slot inside the block that meets no
    other. -/
structure Slots (v : ZArrayList) : Prop where
  null : ∀ i, zarrayGet v i = none ↔ v.len ≤ i
  place : ∀ i p, zarrayGet v i = some p → p = i.toNat * v.unitsize.toNat
  inside : ∀ i p, zarrayGet v i = some p → p + v.unitsize.toNat ≤ v.block
  disjoint : ∀ i j p q, i ≠ j → zarrayGet v i = some p → zarrayGet v j = some q →
    p + v.unitsize.toNat ≤ q ∨ q + v.unitsize.toNat ≤ p

theorem ZArrayList.Held.slots {v : ZArrayList} (hv : v.Held) : Slots v := by
  have hnull : ∀ i, zarrayGet v i = none ↔ v.len ≤ i := by
    intro i
    unfold zarrayGet
    split_ifs with h
    · exact ⟨fun _ => h, fun _ => rfl⟩
    · exact ⟨fun hc => absurd hc (by simp), fun hc => absurd hc h⟩
  have hplace : ∀ i p, zarrayGet v i = some p →
      p = i.toNat * v.unitsize.toNat ∧ p + v.unitsize.toNat ≤ v.block := by
    intro i p hp
    have hlt : i < v.len := by
      refine UInt32.not_le.mp fun hle => ?_
      rw [(hnull i).mpr hle] at hp
      exact Option.some_ne_none p hp.symm
    have hfull := hv.ok.place hlt
    unfold ZArrayList.place at hfull
    rw [hp, Option.filter_some] at hfull
    split_ifs at hfull with hin
    exact ⟨Option.some.inj hfull, of_decide_eq_true hin⟩
  refine ⟨hnull, fun i p hp => (hplace i p hp).1, fun i p hp => (hplace i p hp).2, ?_⟩
  intro i j p q hij hp hq
  rw [(hplace i p hp).1, (hplace j q hq).1, ← Nat.succ_mul, ← Nat.succ_mul]
  have hne : i.toNat ≠ j.toNat := fun h => hij (UInt32.toNat_inj.mp h)
  rcases Nat.lt_or_gt_of_ne hne with h | h
  · exact Or.inl (Nat.mul_le_mul_right _ h)
  · exact Or.inr (Nat.mul_le_mul_right _ h)

section Runs

variable {size unitsize step : UInt32} {mem : Mem}

/-- The array along a run. -/
structure ArrayAt (unitsize step : UInt32) (v : ZArrayList) : Prop where
  held : v.Held
  slots : Slots v
  unitsize : v.unitsize = unitsize
  step : v.step = step
  next : ∀ op : ArrOp, op.FitsSum v → ∃ w, op.run v = .ok w ∧ ArrStep v w op
  increase : ArrOp.increase.FitsSum v →
    ∃ w, zarrayIncrease v = .ok (w, some (v.len.toNat * v.unitsize.toNat))

theorem ZArrayList.Held.arrayAt {v : ZArrayList} (hv : v.Held) :
    ArrayAt v.unitsize v.step v :=
  ⟨hv, hv.slots, rfl, rfl, fun _ hop => ArrOp.run_step hv hop, zarrayIncrease_place hv⟩

/-- Along every run of calls whose sizes stay below `2^32` the array is the list of elements of
    the last length set. -/
theorem arrSys_refines (hsize : unitsize.toNat * size.toNat < 2 ^ 32) {v : ZArrayList}
    (h : (arrSys size unitsize step mem).Reach (fun v op => op.FitsSum v) v) :
    ArrayAt unitsize step v := by
  have hinv : v.Held ∧ v.unitsize = unitsize ∧ v.step = step := by
    refine h.invariant (I := fun v => v.Held ∧ v.unitsize = unitsize ∧ v.step = step) ?_ ?_
    · rintro v rfl
      exact ⟨zarrayNew_held step mem hsize, rfl, rfl⟩
    · rintro v op v' ⟨hheld, hu, hs⟩ hop hn
      obtain ⟨w, hw, hstep⟩ := ArrOp.run_step hheld hop
      have hv' : v' = w := by
        change (op.run v).toOption = some v' at hn
        rw [hw] at hn
        exact (Option.some.inj hn).symm
      subst hv'
      exact ⟨hstep.held, hstep.unitsize.trans hu, hstep.step.trans hs⟩
  obtain ⟨hheld, rfl, rfl⟩ := hinv
  exact hheld.arrayAt

end Runs

/-- Four-byte elements, room for one: the array after the first call. -/
theorem arrSys_refines_one :
    ∃ v, (arrSys 1 4 2 fun _ => 0).Reach (fun v op => op.FitsSum v) v ∧ v.len = 1 ∧
      ArrayAt 4 2 v := by
  have hfits : ArrOp.increase.FitsSum (zarrayNew 1 4 2 fun _ => 0) :=
    ⟨⟨trivial, by decide, by decide, by decide⟩, by decide⟩
  have hone : (arrSys 1 4 2 fun _ => 0).Reach (fun v op => op.FitsSum v)
      { len := 1, unitsize := 4, alloced := 3, step := 2
        data := Mem.fill (Mem.fill (fun _ => 0) 0 4 0) 4 8 0, block := 12 } :=
    Sys.Reach.step (Sys.Reach.init rfl) hfits rfl
  exact ⟨_, hone, rfl, arrSys_refines (by decide) hone⟩

/-- Elements of no size and a step of `2^32 - 1`: all products are 0, and `alloced` goes down from
    10 to 9 when the length becomes 10. -/
theorem bigStep_short :
    ∃ v, (arrSys 10 0 0xFFFFFFFF fun _ => 0).Reach (fun v op => op.Fits v) v ∧
      ¬v.len ≤ v.alloced := by
  have hfits : (ArrOp.setlength 10).Fits (zarrayNew 10 0 0xFFFFFFFF fun _ => 0) :=
    ⟨trivial, by decide, by decide, by decide⟩
  have hset : (arrSys 10 0 0xFFFFFFFF fun _ => 0).Reach (fun v op => op.Fits v)
      { len := 10, unitsize := 0, alloced := 9, step := 0xFFFFFFFF
        data := Mem.fill (Mem.fill (fun _ => 0) 0 0 0) 0 0 0, block := 0 } :=
    Sys.Reach.step (Sys.Reach.init rfl) hfits rfl
  exact ⟨_, hset, by decide⟩

end Zcrt
