/-
  A sequence of typed values written into one buffer and read back.

  `TlvItem.put` picks the writer of an item, `TlvKind.get` the reader of its kind; `putAll` and
  `getAll` are the two runs. `putMarks` lists the end of the data after each write, which is where
  the next item starts.

  * `Writes`, `Writes.bind`: a writer appends certain bytes; two in a row append both.
  * `putAll_writes`: the writers lay the encodings one after another.
  * `ztlv_roundtrip`: reading gives back every item, with the cursor on every mark.
-/
import Zcrt.Tlv.Value

namespace Zcrt

open Lib

/-- The readers a sequence of calls may use. -/
inductive TlvKind
  | bool
  | int
  | uint32
  | int64
  | lstring
  | tableCnt

/-- A value and the writer it goes through. -/
inductive TlvItem
  | bool (b : Bool)
  | int (n : Int32)
  | uint32 (n : UInt32)
  | int64 (n : Int64)
  | lstring (bs : List UInt8)
  | tableCnt (cnt : UInt32)

namespace TlvItem

/-- The reader that matches the item's writer. -/
def kind : TlvItem → TlvKind
  | bool _ => .bool
  | int _ => .int
  | uint32 _ => .uint32
  | int64 _ => .int64
  | lstring _ => .lstring
  | tableCnt _ => .tableCnt

/-- The call that writes the item. -/
def put (v : ZBuf) : TlvItem → Option ZBuf
  | bool b => ztlvPutBool v b
  | int n => ztlvPutInt v n
  | uint32 n => ztlvPutUint32 v n
  | int64 n => ztlvPutInt64 v n
  | lstring bs => ztlvPutLstring v (some bs)
  | tableCnt cnt => ztlvPutTableCnt v cnt

/-- The bytes of the item. -/
def encoding : TlvItem → List UInt8
  | bool b => [if b then ZTLV_TRUE else ZTLV_FALSE]
  | int n => tlvInt n
  | uint32 n => tlvUint32 n
  | int64 n => tlvLong n
  | lstring bs => tlvStr bs
  | tableCnt cnt => tlvTable cnt

end TlvItem

/-- The call that reads a value of the kind: the value, or `none` when it returns `false`. -/
def TlvKind.get (v : ZBuf) : TlvKind → Option TlvItem × ZBuf
  | bool => ((ztlvGetBool v).1.map .bool, (ztlvGetBool v).2)
  | int => ((ztlvGetInt v).1.map .int, (ztlvGetInt v).2)
  | uint32 => ((ztlvGetUint32 v).1.map .uint32, (ztlvGetUint32 v).2)
  | int64 => ((ztlvGetInt64 v).1.map .int64, (ztlvGetInt64 v).2)
  | lstring => ((ztlvGetString v).1.map fun s => .lstring s.bytes, (ztlvGetString v).2)
  | tableCnt => ((ztlvGetTableCnt v).1.map .tableCnt, (ztlvGetTableCnt v).2)

/-- Write the items in order. -/
def putAll : ZBuf → List TlvItem → Option ZBuf
  | v, [] => some v
  | v, item :: items => (item.put v).bind (putAll · items)

/-- `len` after each write. -/
def putMarks : ZBuf → List TlvItem → List UInt32
  | _, [] => []
  | v, item :: items =>
      match item.put v with
      | none => []
      | some v => v.len :: putMarks v items

/-- Read values of the given kinds in order: each result with the cursor after the call, and the
    buffer at the end. -/
def getAll : ZBuf → List TlvKind → List (Option TlvItem × UInt32) × ZBuf
  | v, [] => ([], v)
  | v, kind :: kinds =>
      let (item, v) := kind.get v
      let (items, v') := getAll v kinds
      ((item, v.offset) :: items, v')

/-- The encodings one after another. -/
def encodings (items : List TlvItem) : List UInt8 := items.flatMap TlvItem.encoding

@[simp] theorem encodings_cons (item : TlvItem) (items : List TlvItem) :
    encodings (item :: items) = item.encoding ++ encodings items := rfl

theorem TlvItem.put_appends {v : ZBuf} (item : TlvItem)
    (h : v.len.toNat + item.encoding.length + 10 < 2 ^ 31 - 1) :
    ∃ v', item.put v = some v' ∧ Appends v v' item.encoding := by
  cases item with
  | bool b =>
      exact ztlvPutBool_appends b (by omega)
  | int n =>
      exact ztlvPutInt_appends n (by omega)
  | uint32 n =>
      refine ztlvPutUint32_appends n ?_
      have : 0 < (tlvUint32 n).length := by
        unfold tlvUint32
        split <;> exact Nat.succ_pos _
      simp only [encoding] at h
      omega
  | int64 n =>
      refine ztlvPutInt64_appends n ?_
      have : 0 < (tlvLong n).length := by
        unfold tlvLong
        split <;> exact Nat.succ_pos _
      simp only [encoding] at h
      omega
  | lstring bs =>
      refine ztlvPutLstring_appends bs ?_
      simp only [encoding, tlvStr, List.length_cons, List.length_append] at h
      omega
  | tableCnt cnt =>
      exact ztlvPutTableCnt_appends cnt (by omega)

/-! ## Writers -/

/-- The writer appends `bs`, in a buffer that has room for it. -/
def Writes (put : ZBuf → Option ZBuf) (bs : List UInt8) : Prop :=
  ∀ v : ZBuf, v.len.toNat + bs.length + 10 < 2 ^ 31 - 1 → ∃ v', put v = some v' ∧ Appends v v' bs

namespace Writes

variable {put put' : ZBuf → Option ZBuf} {bs bs' : List UInt8}

theorem done : Writes some [] := fun v _ => ⟨v, rfl, Appends.refl v⟩

theorem bind (h : Writes put bs) (h' : Writes put' bs') :
    Writes (fun v => (put v).bind put') (bs ++ bs') := by
  intro v hv
  rw [List.length_append] at hv
  refine bind_appends (h v (by omega)) fun v1 ha => h' v1 ?_
  rw [ha.len]
  omega

theorem item (i : TlvItem) : Writes i.put i.encoding := fun _ hv => i.put_appends hv

theorem bool (b : Bool) : Writes (ztlvPutBool · b) [if b then ZTLV_TRUE else ZTLV_FALSE] :=
  item (.bool b)

theorem int (n : Int32) : Writes (ztlvPutInt · n) (tlvInt n) := item (.int n)

theorem uint32 (n : UInt32) : Writes (ztlvPutUint32 · n) (tlvUint32 n) := item (.uint32 n)

theorem int64 (n : Int64) : Writes (ztlvPutInt64 · n) (tlvLong n) := item (.int64 n)

theorem str (bs : List UInt8) : Writes (ztlvPutLstring · (some bs)) (tlvStr bs) :=
  item (.lstring bs)

theorem null : Writes (ztlvPutLstring · none) [ZTLV_NIL] := fun v hv =>
  ztlvPutType_appends (v := v) ZTLV_NIL (by simp at hv; omega)

theorem tableCnt (n : UInt32) : Writes (ztlvPutTableCnt · n) (tlvTable n) := item (.tableCnt n)

end Writes

/-- The whole run of writers appends the encodings in order. -/
theorem putAll_writes (items : List TlvItem) : Writes (putAll · items) (encodings items) := by
  induction items with
  | nil => exact Writes.done
  | cons item items ih => exact (Writes.item item).bind ih

/-! ## Reading back -/

/-- The matching reader on an item's encoding. -/
theorem TlvItem.get_of_rest {v : ZBuf} {item : TlvItem} {r : List UInt8}
    (h : v.rest = item.encoding ++ r) (hlt : v.rest.length < 2 ^ 31) :
    item.kind.get v = (some item, v.skip item.encoding.length) := by
  cases item with
  | bool b =>
      simp only [kind, TlvKind.get, ztlvGetBool_of_rest h]
      rfl
  | int n =>
      simp only [kind, TlvKind.get, ztlvGetInt_of_rest h hlt]
      rfl
  | uint32 n =>
      simp only [kind, TlvKind.get, ztlvGetUint32_of_rest h hlt]
      rfl
  | int64 n =>
      simp only [kind, TlvKind.get, ztlvGetInt64_of_rest h hlt]
      rfl
  | lstring bs =>
      obtain ⟨s, hs, hb⟩ := ztlvGetString_of_rest h hlt
      simp only [kind, TlvKind.get, hs, Option.map_some, hb]
      rfl
  | tableCnt cnt =>
      simp only [kind, TlvKind.get, ztlvGetTableCnt_of_rest h hlt]
      rfl

/-- Reading from `pos` on when the writers started there: by induction on the items left, with the
    reading buffer's cursor at the writing buffer's `len`. -/
theorem getAll_of_rest (items : List TlvItem) {w v : ZBuf} {r : List UInt8}
    (hw : w.len.toNat + (encodings items).length + 10 < 2 ^ 31 - 1)
    (hcur : v.offset = w.len) (h : v.rest = encodings items ++ r) (hlt : v.rest.length < 2 ^ 31) :
    getAll v (items.map TlvItem.kind) =
      ((items.map some).zip (putMarks w items), v.skip (encodings items).length) := by
  induction items generalizing w v with
  | nil =>
      exact congrArg _ v.skip_zero.symm
  | cons item items ih =>
      rw [encodings_cons, List.length_append] at hw
      rw [encodings_cons, List.append_assoc] at h
      obtain ⟨w1, hput, happ⟩ := item.put_appends (v := w) (by omega)
      have hrest := ZBuf.rest_skip h
      have hcur1 : (v.skip item.encoding.length).offset = w1.len := by
        apply UInt32.toNat_inj.mp
        rw [happ.len, ← hcur, ZBuf.skip_offset (by rw [h]; simp)]
        refine ZBuf.offset_le_of_rest ?_
        rw [h, ← List.length_pos_iff, List.length_append]
        have : 0 < item.encoding.length := by
          cases item <;> simp only [TlvItem.encoding, tlvUint32, tlvLong] <;> try split
          all_goals exact Nat.succ_pos _
        omega
      have hlt1 : (v.skip item.encoding.length).rest.length < 2 ^ 31 := by
        have := congrArg List.length h
        rw [List.length_append] at this
        rw [hrest]
        omega
      have hih := ih (w := w1) (by rw [happ.len]; omega) hcur1 hrest hlt1
      rw [List.map_cons, getAll, TlvItem.get_of_rest h hlt]
      dsimp only
      rw [hih, List.map_cons, putMarks, hput, hcur1]
      dsimp only
      rw [List.zip_cons_cons, ZBuf.skip_skip, encodings_cons, List.length_append]

/-- Any sequence of values written into an empty buffer is read back: every call succeeds with the
    value written, leaves the cursor where the next item was started, and the last one leaves it
    at the end of the data. -/
theorem ztlv_roundtrip (items : List TlvItem) (v0 : ZBuf) (hlen : v0.len = 0) (hoff : v0.offset = 0)
    (hsize : (encodings items).length < 2 ^ 31 - 16) :
    ∃ v, putAll v0 items = some v ∧ v.bytes = encodings items ∧ v.offset = 0 ∧
      (getAll v (items.map TlvItem.kind)).1 = (items.map some).zip (putMarks v0 items) ∧
      (getAll v (items.map TlvItem.kind)).2 = { v with offset := v.len } := by
  have h0 : v0.len.toNat = 0 := by rw [hlen]; rfl
  obtain ⟨v, hput, happ⟩ := putAll_writes items v0 (by omega)
  have hoff' : v.offset = 0 := happ.offset.trans hoff
  have hbytes : v.bytes = encodings items := by
    have : v0.bytes = [] := by rw [← List.length_eq_zero_iff, ZBuf.bytes_length, h0]
    rw [happ.bytes, this, List.nil_append]
  have hrest : v.rest = encodings items ++ [] := by
    rw [ZBuf.rest_at_start hoff', hbytes, List.append_nil]
  have hget := getAll_of_rest items (w := v0) (v := v) (by omega) (by rw [hoff', hlen]) hrest
    (by rw [hrest, List.append_nil]; omega)
  refine ⟨v, hput, hbytes, hoff', by rw [hget], ?_⟩
  rw [hget]
  have hl : UInt32.ofNat (encodings items).length = v.len := by
    apply UInt32.toNat_inj.mp
    rw [happ.len, h0, UInt32.toNat_ofNat']
    omega
  unfold ZBuf.skip
  rw [hl, hoff', UInt32.zero_add]

/-- Two items in an empty buffer. -/
theorem ztlv_roundtrip_two :
    ∃ v, putAll (zcrtBufInit 0 fun _ => 0) [.int64 (-2147483648), .lstring [7]] = some v ∧
      v.bytes = encodings [.int64 (-2147483648), .lstring [7]] ∧ v.offset = 0 ∧
      (getAll v [.int64, .lstring]).1 =
        [some (.int64 (-2147483648)), some (.lstring [7])].zip
          (putMarks (zcrtBufInit 0 fun _ => 0) [.int64 (-2147483648), .lstring [7]]) ∧
      (getAll v [.int64, .lstring]).2 = { v with offset := v.len } :=
  ztlv_roundtrip [.int64 (-2147483648), .lstring [7]] (zcrtBufInit 0 fun _ => 0) rfl rfl
    (by
      have h64 := length_encode64 (zcdrEncode64 (-2147483648))
      have h32 : (Leb128.encode 1).length ≤ 5 := length_encode32 1
      change (tlvLong (-2147483648) ++ (tlvStr [7] ++ [])).length < _
      rw [tlvLong, if_neg (by decide)]
      simp only [tlvInt64, tlvStr, List.length_append, List.length_cons, List.length_nil,
        Nat.zero_add]
      omega)

end Zcrt
