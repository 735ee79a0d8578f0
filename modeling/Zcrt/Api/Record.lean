/-
  The generated structures (`build/tests/test_api_decode.c`): each is a table of named fields on the
  wire, read in any order, the fields that must be there counted.

  * `StructTable`: the fields of a structure; `structEncode` and `structDecode`, the two functions
    generated for it.
  * `structDecode_comes`: what any table of entries comes to, known fields in any order and number,
    and entries with other keys.
  * `StructTable.codec`: the two belong together; `back_self`: when a structure comes back.
-/
import Zcrt.Api.Codec

namespace Zcrt

open Lib

variable {S : Type}

/-- A field of a generated structure: its key, how its values are written and read, where it is, and
    whether `paramcnt` counts it. -/
structure StructField (S : Type) where
  key : List UInt8
  Val : Type
  codec : TlvCodec Val
  get : S → Val
  set : S → Val → S
  counted : Bool

/-- The fields of a generated structure, how many of them must be there, and the structure before
    any is read. -/
structure StructTable (S : Type) where
  fields : List (StructField S)
  need : UInt32
  init : S
  nodup : (fields.map StructField.key).Nodup
  literal : ∀ f ∈ fields, (0 : UInt8) ∉ f.key ∧ f.key.length < 2 ^ 32
  enough : need.toNat ≤ fields.countP (·.counted)
  build : ∀ st, fields.foldl (fun st' f => f.set st' (f.get st)) init = st

/-! ## The two functions -/

/-- The fields written, each under its key. -/
def putFields (st : S) : List (StructField S) → ZBuf → Option ZBuf
  | [], obuf => some obuf
  | f :: fs, obuf =>
      (ztlvPutLstring obuf (some f.key)).bind fun obuf =>
        (f.codec.put obuf (f.get st)).bind (putFields st fs)

/-- A generated encoder. -/
def structEncode (T : StructTable S) (obuf : ZBuf) (st : S) : Option ZBuf :=
  (ztlvPutTableCnt obuf (UInt32.ofNat T.fields.length)).bind (putFields st T.fields)

/-- The first field that compares equal to a key. -/
def fieldOf (fields : List (StructField S)) (key : List UInt8) : Option (StructField S) :=
  fields.find? fun f => zstrBufCmp key f.key = 0

/-- The loop over the entries left: the structure and `paramcnt`. -/
def structLoop (fields : List (StructField S)) : Nat → S → UInt32 → TlvRead (S × UInt32)
  | 0, st, paramcnt => .value (st, paramcnt)
  | n + 1, st, paramcnt => TlvRead.string.andThen fun key =>
      match fieldOf fields key with
      | some f => f.codec.read.andThen fun a =>
          structLoop fields n (f.set st a) (if f.counted then paramcnt + 1 else paramcnt)
      | none => Prog.bind TlvProg.getIgnore fun _ => structLoop fields n st paramcnt

/-- A generated decoder. -/
def structDecode (T : StructTable S) : TlvRead S :=
  TlvRead.tableCnt.andThen fun cnt =>
    (structLoop T.fields cnt.toNat T.init 0).andThen fun r =>
      .result (if r.2 < T.need then none else some r.1)

/-! ## Fields and keys -/

theorem fieldOf_key {fields : List (StructField S)}
    (hnodup : (fields.map StructField.key).Nodup)
    (hlit : ∀ f ∈ fields, (0 : UInt8) ∉ f.key ∧ f.key.length < 2 ^ 32) {f : StructField S}
    (hf : f ∈ fields) : fieldOf fields f.key = some f := by
  induction fields with
  | nil => exact absurd hf List.not_mem_nil
  | cons g fields ih =>
      obtain ⟨hnul, hlen⟩ := hlit g List.mem_cons_self
      rw [List.map_cons, List.nodup_cons] at hnodup
      rw [fieldOf, List.find?_cons]
      rcases List.mem_cons.mp hf with rfl | hmem
      · rw [decide_eq_true ((zstrBufCmp_eq_zero hlen hlen hnul).mpr rfl)]
      · have hne : ¬ zstrBufCmp f.key g.key = 0 := fun h => by
          have hkey := (zstrBufCmp_eq_zero (hlit f hf).2 hlen hnul).mp h
          exact hnodup.1 (List.mem_map.mpr ⟨f, hmem, hkey⟩)
        rw [decide_eq_false hne]
        exact ih hnodup.2 (fun f hf => hlit f (List.mem_cons_of_mem _ hf)) hmem

theorem fieldOf_other {fields : List (StructField S)}
    (hlit : ∀ f ∈ fields, (0 : UInt8) ∉ f.key ∧ f.key.length < 2 ^ 32) {key : List UInt8}
    (hlen : key.length < 2 ^ 32) (hkey : key ∉ fields.map StructField.key) :
    fieldOf fields key = none := by
  refine List.find?_eq_none.mpr fun f hf h => hkey ?_
  obtain ⟨hnul, hf32⟩ := hlit f hf
  rw [(zstrBufCmp_eq_zero hlen hf32 hnul).mp (of_decide_eq_true h)]
  exact List.mem_map_of_mem hf

/-! ## Entries -/

/-- An entry of a table: a field with a value, or something under another key. -/
inductive StructEntry (S : Type)
  | field (f : StructField S) (a : f.Val)
  | other (key : List UInt8) (val : TlvVal)

namespace StructEntry

/-- The bytes of an entry. -/
def bytes : StructEntry S → List UInt8
  | field f a => tlvStr f.key ++ f.codec.code a
  | other key val => tlvStr key ++ val.encode

/-- Whether `paramcnt` counts it. -/
def counted : StructEntry S → Bool
  | field f _ => f.counted
  | other _ _ => false

/-- The field is one of the structure's; another key is none of theirs, and `ztlv_get_ignore` skips
    its value. -/
def Ok (fields : List (StructField S)) : StructEntry S → Prop
  | field f _ => f ∈ fields
  | other key val => key ∉ fields.map StructField.key ∧
      ∀ (v : ZBuf) (r : List UInt8), v.len.toNat < 2 ^ 31 → v.rest = val.encode ++ r →
        SkipOk v r val

/-- What an entry sets. -/
def apply (st : S) : StructEntry S → S
  | field f a => f.set st a
  | other _ _ => st

/-- Its value is read back as it is. -/
def Whole : StructEntry S → Prop
  | field f a => f.codec.back a = .ok (some a)
  | other _ _ => True

end StructEntry

/-- What entries make of a structure. -/
def setEntries : List (StructEntry S) → S → Outcome S
  | [], st => .ok (some st)
  | .field f a :: es, st => (f.codec.back a).bind fun b => setEntries es (f.set st b)
  | .other _ _ :: es, st => setEntries es st

/-- The bytes of a table. -/
def tableBytes (es : List (StructEntry S)) : List UInt8 :=
  tlvTable (UInt32.ofNat es.length) ++ es.flatMap StructEntry.bytes

/-- What a table comes to: its entries in their order, and there are enough of them. -/
def tableOutcome (T : StructTable S) (es : List (StructEntry S)) : Outcome S :=
  (setEntries es T.init).bind fun st =>
    .ok (if es.countP (·.counted) < T.need.toNat then none else some st)

section Decode

variable (T : StructTable S)

/-- One turn of the loop. -/
theorem structLoop_entry {e : StructEntry S} (he : e.Ok T.fields) (es : List (StructEntry S))
    (st : S) (paramcnt : UInt32) {bs : List UInt8} {n : Nat} {y : S → Outcome (S × UInt32)}
    (hy : ∀ st, (structLoop T.fields n st (if e.counted then paramcnt + 1 else paramcnt)).Comes bs
      ((setEntries es st).bind y)) :
    (structLoop T.fields (n + 1) st paramcnt).Comes (e.bytes ++ bs)
      ((setEntries (e :: es) st).bind y) := by
  cases e with
  | field f a =>
      rw [StructEntry.bytes, List.append_assoc]
      refine (TlvRead.Comes.string f.key).andThen ?_
      rw [fieldOf_key T.nodup T.literal he, setEntries, Outcome.bind_bind]
      exact (f.codec.comes a).andThen fun b _ => hy (f.set st b)
  | other key val =>
      obtain ⟨hkey, hskip⟩ := he
      rw [StructEntry.bytes, List.append_assoc]
      intro v r hv hrest
      have hlen : key.length < 2 ^ 32 := by
        have hshort := rest_lt hv
        rw [hrest, tlvStr] at hshort
        simp only [List.length_append, List.length_cons] at hshort
        omega
      refine (TlvRead.Comes.string key).andThen ?_ v r hv hrest
      rw [fieldOf_other T.literal hlen hkey]
      intro v r hv hrest
      rw [List.append_assoc] at hrest
      have hignore := (ztlvGetIgnore_exact hv hrest).mpr (hskip v _ hv hrest)
      have hrun : TlvProg.run (Prog.bind TlvProg.getIgnore fun _ =>
          structLoop T.fields n st paramcnt) v =
          (structLoop T.fields n st paramcnt).run (v.skip val.encode.length) := by
        refine (TlvProg.run_bind TlvProg.getIgnore _ v).trans ?_
        rw [TlvProg.run_getIgnore, hignore]
      obtain ⟨hval, hcur⟩ := hy st (v.skip val.encode.length) r hv (ZBuf.rest_skip hrest)
      rw [hrun, setEntries]
      refine ⟨hval, fun b hb => (hcur b hb).trans ?_⟩
      rw [ZBuf.skip_skip, List.length_append]

theorem structLoop_entries {es : List (StructEntry S)} (hes : ∀ e ∈ es, e.Ok T.fields) (st : S)
    (paramcnt : UInt32) :
    (structLoop T.fields es.length st paramcnt).Comes (es.flatMap StructEntry.bytes)
      ((setEntries es st).bind fun st =>
        .ok (some (st, paramcnt + UInt32.ofNat (es.countP (·.counted))))) := by
  induction es generalizing st paramcnt with
  | nil =>
      have hzero : paramcnt + UInt32.ofNat 0 = paramcnt := UInt32.add_zero _
      rw [List.countP_nil, hzero]
      exact TlvRead.Comes.value _
  | cons e es ih =>
      have hcnt : paramcnt + UInt32.ofNat ((e :: es).countP (·.counted)) =
          (if e.counted then paramcnt + 1 else paramcnt) +
            UInt32.ofNat (es.countP (·.counted)) := by
        rw [List.countP_cons]
        split
        · rw [UInt32.ofNat_add, UInt32.add_comm (UInt32.ofNat _), ← UInt32.add_assoc]
          rfl
        · rfl
      rw [hcnt]
      exact structLoop_entry T (hes e List.mem_cons_self) es st paramcnt fun st =>
        ih (fun e he => hes e (List.mem_cons_of_mem _ he)) st _

/-- A decoder at any table. -/
theorem structDecode_comes {es : List (StructEntry S)} (hes : ∀ e ∈ es, e.Ok T.fields) :
    (structDecode T).Comes (tableBytes es) (tableOutcome T es) := by
  intro v r hv hrest
  -- the counts are those of the list: its entries take more bytes than there are
  have hlen : es.length < 2 ^ 31 := by
    have hle : es.length ≤ (es.flatMap StructEntry.bytes).length := by
      clear hes hrest
      induction es with
      | nil => exact Nat.le_refl 0
      | cons e es ih =>
          rw [List.flatMap_cons, List.length_append, List.length_cons]
          have : 0 < e.bytes.length := by
            cases e <;> (rw [StructEntry.bytes, tlvStr]; simp)
          omega
    have hshort := rest_lt hv
    rw [hrest, tableBytes] at hshort
    simp only [List.length_append] at hshort
    omega
  have hcnt : (UInt32.ofNat es.length).toNat = es.length := by
    rw [UInt32.toNat_ofNat']
    omega
  have hcounted : (0 + UInt32.ofNat (es.countP (·.counted))).toNat = es.countP (·.counted) := by
    have hle := List.countP_le_length (p := fun e : StructEntry S => e.counted) (l := es)
    rw [UInt32.zero_add, UInt32.toNat_ofNat']
    omega
  refine (TlvRead.Comes.tableCnt _).andThen ?_ v r hv hrest
  have hloop := structLoop_entries T hes T.init 0
  have hall := hloop.check fun r => if r.2 < T.need then none else some r.1
  rw [Outcome.bind_bind] at hall
  rw [hcnt, tableOutcome]
  simp only [Outcome.bind_value, UInt32.lt_iff_toNat_lt, hcounted] at hall
  exact hall

/-- Entries whose values are read back as they are set them, one after the other. -/
theorem setEntries_whole {es : List (StructEntry S)} (h : ∀ e ∈ es, e.Whole) (st : S) :
    setEntries es st = .ok (some (es.foldl StructEntry.apply st)) := by
  induction es generalizing st with
  | nil => rfl
  | cons e es ih =>
      have hrest := ih fun e he => h e (List.mem_cons_of_mem _ he)
      cases e with
      | field f a =>
          rw [setEntries, h (.field f a) List.mem_cons_self, Outcome.bind_value, hrest]
          rfl
      | other key val =>
          rw [setEntries, hrest]
          rfl

end Decode

/-! ## Both functions -/

section Codec

variable (T : StructTable S)

/-- The entries of a structure. -/
def structEntries (st : S) : List (StructEntry S) := T.fields.map fun f => .field f (f.get st)

theorem putFields_writes (st : S) (fs : List (StructField S)) :
    Writes (putFields st fs)
      ((fs.map fun f => StructEntry.field f (f.get st)).flatMap StructEntry.bytes) := by
  induction fs with
  | nil => exact Writes.done
  | cons f fs ih =>
      rw [List.map_cons, List.flatMap_cons, StructEntry.bytes, List.append_assoc]
      exact (Writes.str f.key).bind ((f.codec.writes (f.get st)).bind ih)

/-- The encoder and the decoder of a structure. -/
def StructTable.codec : TlvCodec S where
  put := structEncode T
  read := structDecode T
  code st := tableBytes (structEntries T st)
  back st := tableOutcome T (structEntries T st)
  writes st := by
    rw [tableBytes, structEntries, List.length_map]
    exact (Writes.tableCnt _).bind (putFields_writes st T.fields)
  comes st := structDecode_comes T fun e he => by
    obtain ⟨f, hf, rfl⟩ := List.mem_map.mp he
    exact hf

/-- A structure comes back if the values of its fields do. -/
theorem StructTable.back_self {st : S}
    (h : ∀ f ∈ T.fields, f.codec.back (f.get st) = .ok (some (f.get st))) :
    T.codec.back st = .ok (some st) := by
  have hcnt : (structEntries T st).countP (·.counted) = T.fields.countP (·.counted) :=
    List.countP_map
  have hwhole : ∀ e ∈ structEntries T st, e.Whole := fun e he => by
    obtain ⟨f, hf, rfl⟩ := List.mem_map.mp he
    exact h f hf
  have hbuild : (structEntries T st).foldl StructEntry.apply T.init = st := by
    rw [structEntries, List.foldl_map]
    exact T.build st
  change tableOutcome T (structEntries T st) = _
  rw [tableOutcome, setEntries_whole hwhole, Outcome.bind_value, hcnt,
    if_neg (Nat.not_lt.mpr T.enough), hbuild]

end Codec

end Zcrt
