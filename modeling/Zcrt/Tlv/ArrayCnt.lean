/-
  The lengths an array decoder gives `zarray_setlength`. The count is a length field of the message
  and nothing is compared with it before the call.

  * `ArrayDecoder.run_lens`: the calls, whatever the elements and their reader.
  * `CountFits`: the length field behind a table tag stands for few enough elements.
  * `ArrayDecoder.lens_iff`: the calls are harmless exactly then.
-/
import Zcrt.Tlv.Array

namespace Zcrt

open Lib

/-- A decoder with what its call or the use of the macro fixes. -/
inductive ArrayDecoder
  | array (arr : ZArrayList) (fn : ZtlvTypeGet)
  | basetype {α : Type} (size : UInt32) (btycall : ZBuf → Option α × ZBuf)
      (cast : α → List UInt8) (mem : Mem) (arrv : ZArrayList)

/-- The decoder run on a message. -/
def ArrayDecoder.run (buf : ZBuf) : ArrayDecoder → ArrRun
  | array arr fn => ztlvGetArray buf arr fn
  | basetype size btycall cast mem arrv => ztlvGetArrayBasetype size btycall cast mem buf arrv

/-- Every length is below the bound of the assertion and at most the bytes left. -/
def Harmless (lens : List (UInt32 × Nat)) : Prop :=
  ∀ call ∈ lens, call.1 < 0xfffff ∧ call.1.toNat ≤ call.2

instance (lens : List (UInt32 × Nat)) : Decidable (Harmless lens) :=
  inferInstanceAs (Decidable (∀ call ∈ lens, _))

/-- The bytes of the length field behind a table tag at the cursor: the first ones that end in a
    byte below 128, at most five and at most one past the data. -/
def countField (v : ZBuf) : Option (List UInt8) :=
  if (ztlvGetType v).1 = ZTLV_TABLE then
    Leb128.group (v.skip 1).cursor (readable32 (v.skip 1).limit)
  else none

/-- What the field stands for is below the bound of the assertion, and at most the number of bytes
    behind the field. -/
def CountFits (v : ZBuf) : Prop :=
  ∀ field ∈ countField v, UInt32.ofNat (Leb128.value field) < 0xfffff ∧
    (UInt32.ofNat (Leb128.value field)).toNat ≤ (v.skip (1 + field.length)).rest.length

theorem ztlvGetType_skip {v : ZBuf} (h : (ztlvGetType v).1 ≠ 0) : (ztlvGetType v).2 = v.skip 1 := by
  rw [ztlvGetType_eq] at h ⊢
  split at h
  · exact absurd rfl h
  · next hin => rw [if_neg hin]

/-- `ztlv_get_table_cnt` reads the field and moves behind it. -/
theorem ztlvGetTableCnt_field (v : ZBuf) :
    match countField v with
    | none => (ztlvGetTableCnt v).1 = none
    | some field => ztlvGetTableCnt v =
        (some (UInt32.ofNat (Leb128.value field)), v.skip (1 + field.length)) := by
  unfold countField ztlvGetTableCnt
  by_cases hty : (ztlvGetType v).1 = ZTLV_TABLE
  · have hskip := ztlvGetType_skip (v := v) (by rw [hty]; decide)
    have heq : ztlvGetType v = (ZTLV_TABLE, v.skip 1) := Prod.ext hty hskip
    rw [if_pos hty, heq]
    dsimp only
    rw [if_neg (not_not.mpr rfl)]
    unfold ztlvGetLen
    rw [zcrtTlvReadLen_eq]
    cases Leb128.group (v.skip 1).cursor (readable32 (v.skip 1).limit) with
    | none => rfl
    | some field =>
        simp only [readResult32]
        rw [ZBuf.skip_skip]
        rfl
  · rw [if_neg hty]
    dsimp only
    rw [if_pos hty]

namespace ArrayDecoder

/-- A decoder asks for one length: the count, when there is one. -/
theorem run_lens (dec : ArrayDecoder) (v : ZBuf) :
    (dec.run v).lens = match countField v with
      | none => []
      | some field =>
          [(UInt32.ofNat (Leb128.value field), (v.skip (1 + field.length)).rest.length)] := by
  have hcnt := ztlvGetTableCnt_field v
  have hfill : ∀ turn buf arr cnt,
      (fillArray turn buf arr cnt).lens = [(cnt, buf.rest.length)] := by
    intro turn buf arr cnt
    unfold fillArray
    dsimp only
    split <;> rfl
  cases dec with
  | array arr fn =>
      unfold run ztlvGetArray
      revert hcnt
      cases countField v with
      | none =>
          intro hcnt
          rw [show ztlvGetTableCnt v = (none, (ztlvGetTableCnt v).2) from Prod.ext hcnt rfl]
      | some field =>
          intro hcnt
          rw [show ztlvGetTableCnt v = _ from hcnt]
          exact hfill _ _ _ _
  | basetype size btycall cast mem arrv =>
      unfold run ztlvGetArrayBasetype
      revert hcnt
      cases countField v with
      | none =>
          intro hcnt
          rw [show ztlvGetTableCnt v = (none, (ztlvGetTableCnt v).2) from Prod.ext hcnt rfl]
      | some field =>
          intro hcnt
          rw [show ztlvGetTableCnt v = _ from hcnt]
          exact hfill _ _ _ _

/-- Whatever the decoder, the elements and their reader. -/
theorem lens_iff (dec : ArrayDecoder) (v : ZBuf) : Harmless (dec.run v).lens ↔ CountFits v := by
  unfold Harmless CountFits
  rw [dec.run_lens v]
  cases countField v with
  | none => simp
  | some field => simp

/-- A count of `2^32 - 1` with nothing behind it, given to both decoders. -/
theorem lens_hostile :
    let v := recycled [0x12, 0xFF, 0xFF, 0xFF, 0xFF, 0x0F] 0
    let arr := zarrayNew 10 1 5 fun _ => 0
    (∀ dec ∈ [array arr getBoolElem,
        basetype 1 ztlvGetBool (fun b => [b.toUInt8]) (fun _ => 0) arr],
      (dec.run v).lens = [(0xFFFFFFFF, 0)] ∧ (dec.run v).ret = .error .assertion ∧
        ¬Harmless (dec.run v).lens) := by
  intro v arr dec hdec
  rcases List.mem_pair.mp hdec with rfl | rfl
  · exact ⟨by decide, by decide, by decide⟩
  · exact ⟨by decide, by decide, by decide⟩

end ArrayDecoder

end Zcrt
