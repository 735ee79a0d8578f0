/-
  The six structures of `build/tests/test_api_decode_def.h`.

  * `TestStuct1`, `TestStuct2`, …: the structures and their tables.
  * `ipcStruct_roundTrip`: what an encoder wrote, the decoder reads back, exactly if no string and
    no array in it is `NULL` and no array too long; `ipcStruct_arrayRoundTrip`: arrays of them.
  * `ipcStruct_tableRead`: what a decoder makes of a table some other program wrote.
-/
import Zcrt.Api.Record

namespace Zcrt

open Lib

/-! ## The structures -/

structure TestStuct1 where
  p0 : Bool
  p1 : UInt8
  p2 : UInt32
  p3 : Int8
  p4 : Int32
  p5 : Option (List UInt8)

structure TestStuct2 where
  p0 : Bool
  p1 : UInt8

structure TestStuct3 where
  p0 : Bool
  p1 : TestStuct2

structure TestStuctIsArray where
  p0 : Bool
  pa1 : Option (List TestStuct2)

structure TestStructDefault where
  p1 : Int8
  p2 : Bool
  p3 : Int32
  p4 : Option (List UInt8)
  p5 : UInt32

/-- An enumeration is an `int32_t` on the wire, and no value of it is refused. -/
abbrev ETest := Int32

structure TestStructEnum where
  p1 : ETest

namespace TestStuct1

def fields : List (StructField TestStuct1) :=
  [⟨cstr "p0", Bool, .bool, p0, fun st a => { st with p0 := a }, true⟩,
   ⟨cstr "p1", UInt8, .uint8, p1, fun st a => { st with p1 := a }, true⟩,
   ⟨cstr "p2", UInt32, .uint32, p2, fun st a => { st with p2 := a }, true⟩,
   ⟨cstr "p3", Int8, .int8, p3, fun st a => { st with p3 := a }, true⟩,
   ⟨cstr "p4", Int32, .int32, p4, fun st a => { st with p4 := a }, true⟩,
   ⟨cstr "p5", Option (List UInt8), .str, p5, fun st a => { st with p5 := a }, true⟩]

def table : StructTable TestStuct1 where
  fields := fields
  need := 6
  init := ⟨false, 0, 0, 0, 0, none⟩
  nodup := by decide
  literal := by decide
  enough := by decide
  build _ := rfl

end TestStuct1

namespace TestStuct2

def fields : List (StructField TestStuct2) :=
  [⟨cstr "p0", Bool, .bool, p0, fun st a => { st with p0 := a }, true⟩,
   ⟨cstr "p1", UInt8, .uint8, p1, fun st a => { st with p1 := a }, true⟩]

def table : StructTable TestStuct2 where
  fields := fields
  need := 2
  init := ⟨false, 0⟩
  nodup := by decide
  literal := by decide
  enough := by decide
  build _ := rfl

end TestStuct2

namespace TestStuct3

def fields : List (StructField TestStuct3) :=
  [⟨cstr "p0", Bool, .bool, p0, fun st a => { st with p0 := a }, true⟩,
   ⟨cstr "p1", TestStuct2, TestStuct2.table.codec, p1, fun st a => { st with p1 := a }, true⟩]

def table : StructTable TestStuct3 where
  fields := fields
  need := 2
  init := ⟨false, ⟨false, 0⟩⟩
  nodup := by decide
  literal := by decide
  enough := by decide
  build _ := rfl

end TestStuct3

namespace TestStuctIsArray

def fields : List (StructField TestStuctIsArray) :=
  [⟨cstr "p0", Bool, .bool, p0, fun st a => { st with p0 := a }, true⟩,
   ⟨cstr "pa1", Option (List TestStuct2), .structArray TestStuct2.table.codec, pa1,
     fun st a => { st with pa1 := a }, true⟩]

def table : StructTable TestStuctIsArray where
  fields := fields
  need := 2
  init := ⟨false, none⟩
  nodup := by decide
  literal := by decide
  enough := by decide
  build _ := rfl

end TestStuctIsArray

namespace TestStructDefault

/-- Only `p1` has to be there. -/
def fields : List (StructField TestStructDefault) :=
  [⟨cstr "p1", Int8, .int8, p1, fun st a => { st with p1 := a }, true⟩,
   ⟨cstr "p2", Bool, .bool, p2, fun st a => { st with p2 := a }, false⟩,
   ⟨cstr "p3", Int32, .int32, p3, fun st a => { st with p3 := a }, false⟩,
   ⟨cstr "p4", Option (List UInt8), .str, p4, fun st a => { st with p4 := a }, false⟩,
   ⟨cstr "p5", UInt32, .uint32, p5, fun st a => { st with p5 := a }, false⟩]

def table : StructTable TestStructDefault where
  fields := fields
  need := 1
  init := ⟨0, true, 305419896, some (cstr "test"), 12345⟩
  nodup := by decide
  literal := by decide
  enough := by decide
  build _ := rfl

end TestStructDefault

namespace TestStructEnum

def fields : List (StructField TestStructEnum) :=
  [⟨cstr "p1", ETest, .int32, p1, fun st a => { st with p1 := a }, true⟩]

def table : StructTable TestStructEnum where
  fields := fields
  need := 1
  init := ⟨0⟩
  nodup := by decide
  literal := by decide
  enough := by decide
  build _ := rfl

end TestStructEnum

/-! ## The generated functions -/

def ipcStructTestStuct1Decode : TlvRead TestStuct1 := structDecode TestStuct1.table

def ipcStructTestStuct1Encode : ZBuf → TestStuct1 → Option ZBuf := structEncode TestStuct1.table

def ipcStructTestStuct1ArrayDecode : TlvRead (List TestStuct1) :=
  arrayRead ipcStructTestStuct1Decode

def ipcStructTestStuct1ArrayEncode : ZBuf → Option (List TestStuct1) → Option ZBuf :=
  fun obuf v => arrayPut ipcStructTestStuct1Encode v obuf

def ipcStructTestStuct2Decode : TlvRead TestStuct2 := structDecode TestStuct2.table

def ipcStructTestStuct2Encode : ZBuf → TestStuct2 → Option ZBuf := structEncode TestStuct2.table

def ipcStructTestStuct2ArrayDecode : TlvRead (List TestStuct2) :=
  arrayRead ipcStructTestStuct2Decode

def ipcStructTestStuct2ArrayEncode : ZBuf → Option (List TestStuct2) → Option ZBuf :=
  fun obuf v => arrayPut ipcStructTestStuct2Encode v obuf

def ipcStructTestStuct3Decode : TlvRead TestStuct3 := structDecode TestStuct3.table

def ipcStructTestStuct3Encode : ZBuf → TestStuct3 → Option ZBuf := structEncode TestStuct3.table

def ipcStructTestStuct3ArrayDecode : TlvRead (List TestStuct3) :=
  arrayRead ipcStructTestStuct3Decode

def ipcStructTestStuct3ArrayEncode : ZBuf → Option (List TestStuct3) → Option ZBuf :=
  fun obuf v => arrayPut ipcStructTestStuct3Encode v obuf

def ipcStructTestStuctIsArrayDecode : TlvRead TestStuctIsArray :=
  structDecode TestStuctIsArray.table

def ipcStructTestStuctIsArrayEncode : ZBuf → TestStuctIsArray → Option ZBuf :=
  structEncode TestStuctIsArray.table

def ipcStructTestStuctIsArrayArrayDecode : TlvRead (List TestStuctIsArray) :=
  arrayRead ipcStructTestStuctIsArrayDecode

def ipcStructTestStuctIsArrayArrayEncode : ZBuf → Option (List TestStuctIsArray) → Option ZBuf :=
  fun obuf v => arrayPut ipcStructTestStuctIsArrayEncode v obuf

def ipcStructTestStructDefaultDecode : TlvRead TestStructDefault :=
  structDecode TestStructDefault.table

def ipcStructTestStructDefaultEncode : ZBuf → TestStructDefault → Option ZBuf :=
  structEncode TestStructDefault.table

def ipcStructTestStructDefaultArrayDecode : TlvRead (List TestStructDefault) :=
  arrayRead ipcStructTestStructDefaultDecode

def ipcStructTestStructDefaultArrayEncode : ZBuf → Option (List TestStructDefault) → Option ZBuf :=
  fun obuf v => arrayPut ipcStructTestStructDefaultEncode v obuf

def ipcStructTestStructEnumDecode : TlvRead TestStructEnum := structDecode TestStructEnum.table

def ipcStructTestStructEnumEncode : ZBuf → TestStructEnum → Option ZBuf :=
  structEncode TestStructEnum.table

def ipcStructTestStructEnumArrayDecode : TlvRead (List TestStructEnum) :=
  arrayRead ipcStructTestStructEnumDecode

def ipcStructTestStructEnumArrayEncode : ZBuf → Option (List TestStructEnum) → Option ZBuf :=
  fun obuf v => arrayPut ipcStructTestStructEnumEncode v obuf

/-- The structures by name. -/
inductive TestStruct
  | testStuct1
  | testStuct2
  | testStuct3
  | testStuctIsArray
  | testStructDefault
  | testStructEnum

namespace TestStruct

/-- The values of a structure. -/
abbrev Val : TestStruct → Type
  | testStuct1 => TestStuct1
  | testStuct2 => TestStuct2
  | testStuct3 => TestStuct3
  | testStuctIsArray => TestStuctIsArray
  | testStructDefault => TestStructDefault
  | testStructEnum => TestStructEnum

/-- Its table. -/
def table : (s : TestStruct) → StructTable s.Val
  | testStuct1 => TestStuct1.table
  | testStuct2 => TestStuct2.table
  | testStuct3 => TestStuct3.table
  | testStuctIsArray => TestStuctIsArray.table
  | testStructDefault => TestStructDefault.table
  | testStructEnum => TestStructEnum.table

/-- Its decoder. -/
def decode : (s : TestStruct) → TlvRead s.Val
  | testStuct1 => ipcStructTestStuct1Decode
  | testStuct2 => ipcStructTestStuct2Decode
  | testStuct3 => ipcStructTestStuct3Decode
  | testStuctIsArray => ipcStructTestStuctIsArrayDecode
  | testStructDefault => ipcStructTestStructDefaultDecode
  | testStructEnum => ipcStructTestStructEnumDecode

/-- Its encoder. -/
def encode : (s : TestStruct) → ZBuf → s.Val → Option ZBuf
  | testStuct1 => ipcStructTestStuct1Encode
  | testStuct2 => ipcStructTestStuct2Encode
  | testStuct3 => ipcStructTestStuct3Encode
  | testStuctIsArray => ipcStructTestStuctIsArrayEncode
  | testStructDefault => ipcStructTestStructDefaultEncode
  | testStructEnum => ipcStructTestStructEnumEncode

/-- The decoder of its arrays. -/
def arrayDecode : (s : TestStruct) → TlvRead (List s.Val)
  | testStuct1 => ipcStructTestStuct1ArrayDecode
  | testStuct2 => ipcStructTestStuct2ArrayDecode
  | testStuct3 => ipcStructTestStuct3ArrayDecode
  | testStuctIsArray => ipcStructTestStuctIsArrayArrayDecode
  | testStructDefault => ipcStructTestStructDefaultArrayDecode
  | testStructEnum => ipcStructTestStructEnumArrayDecode

/-- The encoder of its arrays. -/
def arrayEncode : (s : TestStruct) → ZBuf → Option (List s.Val) → Option ZBuf
  | testStuct1 => ipcStructTestStuct1ArrayEncode
  | testStuct2 => ipcStructTestStuct2ArrayEncode
  | testStuct3 => ipcStructTestStuct3ArrayEncode
  | testStuctIsArray => ipcStructTestStuctIsArrayArrayEncode
  | testStructDefault => ipcStructTestStructDefaultArrayEncode
  | testStructEnum => ipcStructTestStructEnumArrayEncode

/-- No pointer in the structure is `NULL`, and its array is not too long for `zarray_setlength`. -/
def Whole : (s : TestStruct) → s.Val → Prop
  | testStuct1, st => st.p5 ≠ none
  | testStuctIsArray, st => ∃ as, st.pa1 = some as ∧ as.length < 0xfffff
  | testStructDefault, st => st.p4 ≠ none
  | testStuct2, _ | testStuct3, _ | testStructEnum, _ => True

theorem decode_eq (s : TestStruct) : s.decode = structDecode s.table := by cases s <;> rfl

theorem encode_eq (s : TestStruct) : s.encode = structEncode s.table := by cases s <;> rfl

theorem arrayDecode_eq (s : TestStruct) : s.arrayDecode = arrayRead s.decode := by
  cases s <;> rfl

theorem arrayEncode_eq (s : TestStruct) :
    s.arrayEncode = fun obuf v => arrayPut s.encode v obuf := by cases s <;> rfl

/-! ## Round trips -/

theorem back_testStuct2 (st : TestStuct2) : TestStuct2.table.codec.back st = .ok (some st) :=
  TestStuct2.table.back_self fun f hf => by
    rcases List.mem_pair.mp hf with rfl | rfl
    · rfl
    · rfl

/-- A structure comes back exactly if it is whole. -/
theorem back_iff (s : TestStruct) (st : s.Val) :
    s.table.codec.back st = .ok (some st) ↔ s.Whole st := by
  cases s with
  | testStuct1 =>
      obtain ⟨p0, p1, p2, p3, p4, p5⟩ := st
      cases p5 with
      | none => exact ⟨fun h => (by cases h), fun h => absurd rfl h⟩
      | some bs => exact ⟨fun _ => by simp [Whole], fun _ => rfl⟩
  | testStuct2 => exact ⟨fun _ => trivial, fun _ => rfl⟩
  | testStuct3 => exact ⟨fun _ => trivial, fun _ => rfl⟩
  | testStuctIsArray =>
      obtain ⟨p0, pa1⟩ := st
      have hback : (TestStuctIsArray.table.codec.back ⟨p0, pa1⟩) =
          (TestStuct2.table.codec.structArray.back pa1).bind
            fun arr => .ok (some ⟨p0, arr⟩) :=
        Outcome.bind_bind (TestStuct2.table.codec.structArray.back pa1)
          (fun arr => .ok (some (⟨p0, arr⟩ : TestStuctIsArray))) fun st => .ok (some st)
      change TestStuctIsArray.table.codec.back ⟨p0, pa1⟩ = .ok (some ⟨p0, pa1⟩) ↔
        ∃ as, pa1 = some as ∧ as.length < 0xfffff
      rw [hback, Outcome.bind_eq_value]
      constructor
      · rintro ⟨arr, harr, h⟩
        obtain rfl : arr = pa1 :=
          (TestStuctIsArray.mk.inj (Option.some.inj (Except.ok.inj h))).2
        obtain ⟨as, has, hlen, -⟩ := (TlvCodec.structArray_back _).mp harr
        exact ⟨as, has, hlen⟩
      · rintro ⟨as, has, hlen⟩
        have harr := (TlvCodec.structArray_back _).mpr ⟨as, has, hlen, fun a _ => back_testStuct2 a⟩
        exact ⟨pa1, harr, rfl⟩
  | testStructDefault =>
      obtain ⟨p1, p2, p3, p4, p5⟩ := st
      cases p4 with
      | none => exact ⟨fun h => (by cases h), fun h => absurd rfl h⟩
      | some bs => exact ⟨fun _ => by simp [Whole], fun _ => rfl⟩
  | testStructEnum => exact ⟨fun _ => trivial, fun _ => rfl⟩

/-- What an encoder appends. -/
def bytes (s : TestStruct) (st : s.Val) : List UInt8 := s.table.codec.code st

/-- An encoder appends the structure's bytes; wherever these come to stand in front of a decoder,
    it takes them for the structure that was written, exactly if that is whole. -/
theorem ipcStruct_roundTrip (s : TestStruct) (st : s.Val) {v : ZBuf}
    (hv : v.len.toNat + (s.bytes st).length + 10 < 2 ^ 31 - 1) :
    ∃ v', s.encode v st = some v' ∧ Appends v v' (s.bytes st) ∧
      ∀ (u : ZBuf) (r : List UInt8), u.len.toNat < 2 ^ 31 → u.rest = s.bytes st ++ r →
        (s.decode.run u = (.ok (some st), u.skip (s.bytes st).length) ↔ s.Whole st) := by
  obtain ⟨v', hput, happ⟩ := s.table.codec.writes st v hv
  rw [s.encode_eq, s.decode_eq]
  refine ⟨v', hput, happ, fun u r hu hrest => ?_⟩
  rw [← s.back_iff st]
  exact (s.table.codec.comes st).run_eq_iff hu hrest st

theorem ipcStruct_roundTrip_seven :
    ∃ v', testStuct2.encode (zcrtBufInit 0 fun _ => 0) ⟨true, 7⟩ = some v' ∧
      Appends (zcrtBufInit 0 fun _ => 0) v' (testStuct2.bytes ⟨true, 7⟩) ∧
      ∀ (u : ZBuf) (r : List UInt8), u.len.toNat < 2 ^ 31 →
        u.rest = testStuct2.bytes ⟨true, 7⟩ ++ r →
        (testStuct2.decode.run u =
            (.ok (some ⟨true, 7⟩), u.skip (testStuct2.bytes ⟨true, 7⟩).length) ↔
          testStuct2.Whole ⟨true, 7⟩) := by
  have hlen : (testStuct2.bytes ⟨true, 7⟩).length = 13 := by
    change (tlvTable 2 ++ ((tlvStr (cstr "p0") ++ [ZTLV_TRUE]) ++
      ((tlvStr (cstr "p1") ++ tlvInt 7) ++ []))).length = _
    rw [tlvTable, tlvInt, tlvStr, tlvStr]
    repeat rw [Leb128.encode_of_lt (by decide)]
    rfl
  exact ipcStruct_roundTrip testStuct2 ⟨true, 7⟩ (by rw [hlen]; decide)

/-- What an encoder appends for an array of structures. -/
def arrayBytes (s : TestStruct) (arr : Option (List s.Val)) : List UInt8 :=
  s.table.codec.structArray.code arr

/-- An array of structures is read back exactly if it is shorter than `zarray_setlength` allows and
    its elements are whole; a `NULL` array is read back as one without elements. -/
theorem ipcStruct_arrayRoundTrip (s : TestStruct) (arr : Option (List s.Val)) {v : ZBuf}
    (hv : v.len.toNat + (s.arrayBytes arr).length + 10 < 2 ^ 31 - 1) :
    ∃ v', s.arrayEncode v arr = some v' ∧ Appends v v' (s.arrayBytes arr) ∧
      ∀ (u : ZBuf) (r : List UInt8), u.len.toNat < 2 ^ 31 → u.rest = s.arrayBytes arr ++ r →
        (s.arrayDecode.run u = (.ok (some (arr.getD [])), u.skip (s.arrayBytes arr).length) ↔
          (arr.getD []).length < 0xfffff ∧ ∀ st ∈ arr.getD [], s.Whole st) := by
  obtain ⟨v', hput, happ⟩ := s.table.codec.structArray.writes arr v hv
  rw [s.arrayEncode_eq, s.arrayDecode_eq, s.encode_eq, s.decode_eq]
  refine ⟨v', hput, happ, fun u r hu hrest => ?_⟩
  have hback : arrayBack s.table.codec.back (arr.getD []) = .ok (some (arr.getD [])) ↔
      (arr.getD []).length < 0xfffff ∧ ∀ st ∈ arr.getD [], s.Whole st := by
    rw [arrayBack_eq_self]
    simp only [s.back_iff]
  rw [← hback]
  exact (arrayRead_comes s.table.codec.comes (arr.getD [])).run_eq_iff hu hrest (arr.getD [])

def twoStructs : List TestStuct2 := [⟨true, 7⟩, ⟨false, 9⟩]

theorem ipcStruct_arrayRoundTrip_two :
    ∃ v', testStuct2.arrayEncode (zcrtBufInit 0 fun _ => 0) (some twoStructs) = some v' ∧
      Appends (zcrtBufInit 0 fun _ => 0) v' (testStuct2.arrayBytes (some twoStructs)) ∧
      ∀ (u : ZBuf) (r : List UInt8), u.len.toNat < 2 ^ 31 →
        u.rest = testStuct2.arrayBytes (some twoStructs) ++ r →
        testStuct2.arrayDecode.run u =
          (.ok (some twoStructs), u.skip (testStuct2.arrayBytes (some twoStructs)).length) := by
  have hlen : (testStuct2.arrayBytes (some twoStructs)).length = 32 := by
    change (tlvTable 2 ++ (tlvInt 1 ++ (testStuct2.bytes ⟨true, 7⟩ ++
      (tlvInt 2 ++ (testStuct2.bytes ⟨false, 9⟩ ++ []))))).length = _
    have hbytes : ∀ b n, testStuct2.bytes ⟨b, n⟩ = tlvTable 2 ++
        ((tlvStr (cstr "p0") ++ [if b then ZTLV_TRUE else ZTLV_FALSE]) ++
          ((tlvStr (cstr "p1") ++ tlvInt n.toUInt32.toInt32) ++ [])) := fun _ _ => rfl
    rw [hbytes, hbytes, tlvTable, tlvInt, tlvInt, tlvInt, tlvInt, tlvStr, tlvStr]
    repeat rw [Leb128.encode_of_lt (by decide)]
    rfl
  have hroom : (zcrtBufInit 0 fun _ => 0).len.toNat +
      (testStuct2.arrayBytes (some twoStructs)).length + 10 < 2 ^ 31 - 1 := by
    rw [hlen]
    decide
  obtain ⟨v', hput, happ, hread⟩ := ipcStruct_arrayRoundTrip testStuct2 (some twoStructs) hroom
  refine ⟨v', hput, happ, fun u r hu hrest => (hread u r hu hrest).mpr ⟨by decide, ?_⟩⟩
  exact fun _ _ => trivial

/-! ## Tables of other programs -/

/-- A decoder at a table of entries, in any order, some perhaps repeated and some under other keys:
    each sets its field, so that the last one of a field counts, and the table is accepted exactly
    if there are enough entries of fields that must be there, a repeated one counted again. -/
theorem ipcStruct_tableRead (s : TestStruct) {es : List (StructEntry s.Val)}
    (hes : ∀ e ∈ es, e.Ok s.table.fields ∧ e.Whole) {v : ZBuf} {r : List UInt8}
    (hv : v.len.toNat < 2 ^ 31) (hrest : v.rest = tableBytes es ++ r) :
    (s.decode.run v).1 = .ok (if es.countP (·.counted) < s.table.need.toNat then none
        else some (es.foldl StructEntry.apply s.table.init)) ∧
      (s.table.need.toNat ≤ es.countP (·.counted) →
        (s.decode.run v).2 = v.skip (tableBytes es).length) := by
  obtain ⟨hval, hcur⟩ := structDecode_comes s.table (fun e he => (hes e he).1) v r hv hrest
  have hout : tableOutcome s.table es = .ok (if es.countP (·.counted) < s.table.need.toNat then none
      else some (es.foldl StructEntry.apply s.table.init)) := by
    rw [tableOutcome, setEntries_whole fun e he => (hes e he).2]
    rfl
  rw [s.decode_eq, ← hout]
  refine ⟨hval, fun hle => hcur (es.foldl StructEntry.apply s.table.init) ?_⟩
  rw [hout, if_neg (Nat.not_lt.mpr hle)]

/-- `p1` of `TestStuct2` as an entry. -/
def p1Entry (n : UInt8) : StructEntry TestStuct2 :=
  .field ⟨cstr "p1", UInt8, .uint8, TestStuct2.p1, fun st a => { st with p1 := a }, true⟩ n

/-- An unknown key, and `p1` twice. -/
def p1Twice : List (StructEntry TestStuct2) := [.other (cstr "x") .nil, p1Entry 7, p1Entry 9]

/-- The table received. -/
def p1TwiceBuf : ZBuf where
  maxlen := 18
  len := 18
  offset := 0
  buf i := (tableBytes p1Twice).getD i 0
  alloc := 18

theorem p1Twice_bytes : tableBytes p1Twice = [ZTLV_TABLE, 3, ZTLV_STR, 1, 120, ZTLV_NIL,
    ZTLV_STR, 2, 112, 49, ZTLV_INT, 14, ZTLV_STR, 2, 112, 49, ZTLV_INT, 18] := by
  change tlvTable 3 ++ ((tlvStr (cstr "x") ++ [ZTLV_NIL]) ++
    ((tlvStr (cstr "p1") ++ tlvInt 7) ++ ((tlvStr (cstr "p1") ++ tlvInt 9) ++ []))) = _
  rw [tlvTable, tlvInt, tlvInt, tlvStr, tlvStr]
  repeat rw [Leb128.encode_of_lt (by decide)]
  rfl

theorem p1Twice_ok : ∀ e ∈ p1Twice, e.Ok TestStuct2.fields ∧ e.Whole := by
  intro e he
  rcases List.mem_cons.mp he with rfl | he
  · exact ⟨⟨by decide, fun _ _ _ _ => trivial⟩, trivial⟩
  have hp1 : ∀ n, (p1Entry n).Ok TestStuct2.fields ∧ (p1Entry n).Whole := fun n =>
    ⟨List.mem_cons_of_mem _ List.mem_cons_self, rfl⟩
  rcases List.mem_pair.mp he with rfl | rfl
  · exact hp1 7
  · exact hp1 9

/-- The second `p1` stands, and `p0` is not missed. -/
theorem ipcStruct_tableRead_twice :
    (testStuct2.decode.run p1TwiceBuf).1 = .ok (some ⟨false, 9⟩) ∧
      (2 ≤ p1Twice.countP (·.counted) →
        (testStuct2.decode.run p1TwiceBuf).2 = p1TwiceBuf.skip (tableBytes p1Twice).length) := by
  have hrest : p1TwiceBuf.rest = tableBytes p1Twice ++ [] := by
    change Mem.slice (fun i => (tableBytes p1Twice).getD i 0) 0 18 = _
    rw [p1Twice_bytes]
    rfl
  exact ipcStruct_tableRead testStuct2 p1Twice_ok (by decide) hrest

end TestStruct

end Zcrt
