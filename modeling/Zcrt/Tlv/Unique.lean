/-
  What is put on the wire stands for one list of values only: the bytes of a value say what it is
  and where it ends.

  * `TlvVal.append_inj`: a value and what follows it are told from their bytes.
  * `TlvVal.put_writes`: the calls that put a value append its bytes, whatever is nested in it.
  * `tlvMessage_prefix_iff`: the values of a message, and how far they go, from its bytes.
-/
import Zcrt.Tlv.Ignore
import Zcrt.Tlv.RoundTrip

namespace Zcrt

open Lib

/-! ## Length fields -/

/-- Two groups are the same, and so is what follows, if all the bytes are. -/
theorem terminated_append_inj {a b r s : List UInt8} (ha : Leb128.Terminated a)
    (hb : Leb128.Terminated b) (h : a ++ r = b ++ s) : a = b ∧ r = s := by
  induction a generalizing b with
  | nil => exact ha.elim
  | cons x a ih =>
      cases b with
      | nil => exact hb.elim
      | cons y b =>
          obtain ⟨rfl, htail⟩ := List.cons.inj h
          by_cases hlow : x.toNat < 128
          · -- a low byte ends both
            obtain rfl := ha.tail_nil hlow
            obtain rfl := hb.tail_nil hlow
            exact ⟨rfl, htail⟩
          · have hne : ∀ {c : List UInt8}, Leb128.Terminated (x :: c) → c ≠ [] := by
              rintro c hc rfl
              exact hlow hc
            have ha' := ((Leb128.terminated_cons (hne ha)).mp ha).2
            have hb' := ((Leb128.terminated_cons (hne hb)).mp hb).2
            obtain ⟨rfl, hrs⟩ := ih ha' hb' htail
            exact ⟨rfl, hrs⟩

theorem encode_append_inj {m n : Nat} {r s : List UInt8}
    (h : Leb128.encode m ++ r = Leb128.encode n ++ s) : m = n ∧ r = s := by
  obtain ⟨hcode, hrs⟩ :=
    terminated_append_inj (Leb128.terminated_encode m) (Leb128.terminated_encode n) h
  refine ⟨?_, hrs⟩
  rw [← Leb128.value_encode m, hcode, Leb128.value_encode]

/-! ## Values -/

/-- The type byte of a value. -/
def TlvVal.typ : TlvVal → UInt8
  | .nil => ZTLV_NIL
  | .bool b => if b then ZTLV_TRUE else ZTLV_FALSE
  | .int _ => ZTLV_INT
  | .int64 _ => ZTLV_INT64
  | .str _ => ZTLV_STR
  | .table _ => ZTLV_TABLE

/-- The bytes behind it. -/
def TlvVal.body : TlvVal → List UInt8
  | .nil | .bool _ => []
  | .int n => Leb128.encode (zcrtZigZagEncode32 n).toNat
  | .int64 n => Leb128.encode (zcdrEncode64 n).toNat
  | .str bs => Leb128.encode bs.length ++ bs
  | .table es => Leb128.encode es.count ++ es.encode

theorem TlvVal.encode_eq (a : TlvVal) : a.encode = a.typ :: a.body := by
  cases a <;> rfl

theorem zigZag32_inj {m n : Int32} (h : zcrtZigZagEncode32 m = zcrtZigZagEncode32 n) : m = n := by
  rw [← zcrtZigZagDecode32_encode m, h, zcrtZigZagDecode32_encode]

theorem encode64_inj {m n : Int64} (h : zcdrEncode64 m = zcdrEncode64 n) : m = n := by
  rw [← zcdrDecode64_encode m, h, zcdrDecode64_encode]

/-- Values with the same type byte are of one kind. -/
theorem TlvVal.kind_eq {a b : TlvVal} (h : a.typ = b.typ) :
    (a = .nil ∧ b = .nil) ∨ (∃ x, a = .bool x ∧ b = .bool x) ∨
      (∃ m n, a = .int m ∧ b = .int n) ∨ (∃ m n, a = .int64 m ∧ b = .int64 n) ∨
      (∃ xs ys, a = .str xs ∧ b = .str ys) ∨ ∃ es fs, a = .table es ∧ b = .table fs := by
  rcases a with _ | (_ | _) | m | m | xs | es <;> rcases b with _ | (_ | _) | n | n | ys | fs <;>
    first
    | (simp [typ, ZTLV_NIL, ZTLV_FALSE, ZTLV_TRUE, ZTLV_INT, ZTLV_INT64, ZTLV_STR,
        ZTLV_TABLE] at h; done)
    | simp

mutual

/-- A value, and what stands behind it, from the bytes: a step for each kind of value. -/
theorem TlvVal.append_inj : ∀ (a b : TlvVal) {r s : List UInt8},
    a.encode ++ r = b.encode ++ s → a = b ∧ r = s := by
  intro a b r s h
  rw [TlvVal.encode_eq a, TlvVal.encode_eq b, List.cons_append, List.cons_append] at h
  obtain ⟨htyp, hbody⟩ := List.cons.inj h
  rcases TlvVal.kind_eq htyp with ⟨rfl, rfl⟩ | ⟨x, rfl, rfl⟩ | ⟨m, n, rfl, rfl⟩ | ⟨m, n, rfl, rfl⟩ |
    ⟨xs, ys, rfl, rfl⟩ | ⟨es, fs, rfl, rfl⟩
  · exact ⟨rfl, hbody⟩
  · exact ⟨rfl, hbody⟩
  · obtain ⟨hcode, hrs⟩ := encode_append_inj hbody
    rw [zigZag32_inj (UInt32.toNat_inj.mp hcode)]
    exact ⟨rfl, hrs⟩
  · obtain ⟨hcode, hrs⟩ := encode_append_inj hbody
    rw [encode64_inj (UInt64.toNat_inj.mp hcode)]
    exact ⟨rfl, hrs⟩
  · -- the length says where the string ends
    rw [TlvVal.body, TlvVal.body, List.append_assoc, List.append_assoc] at hbody
    obtain ⟨hlen, hrest⟩ := encode_append_inj hbody
    obtain ⟨rfl, hrs⟩ := List.append_inj hrest hlen
    exact ⟨rfl, hrs⟩
  · -- the count says how many entries there are
    rw [TlvVal.body, TlvVal.body, List.append_assoc, List.append_assoc] at hbody
    obtain ⟨hcnt, hrest⟩ := encode_append_inj hbody
    obtain ⟨rfl, hrs⟩ := TlvEntries.append_inj es fs hcnt hrest
    exact ⟨rfl, hrs⟩

theorem TlvEntries.append_inj : ∀ (es fs : TlvEntries) {r s : List UInt8}, es.count = fs.count →
    es.encode ++ r = fs.encode ++ s → es = fs ∧ r = s := by
  intro es fs r s hcnt h
  cases es with
  | nil =>
      cases fs with
      | nil => exact ⟨rfl, h⟩
      | cons key' val' fs => exact absurd hcnt (by simp [TlvEntries.count])
  | cons key val es =>
      cases fs with
      | nil => exact absurd hcnt (by simp [TlvEntries.count])
      | cons key' val' fs =>
          rw [TlvEntries.encode, TlvEntries.encode] at h
          simp only [List.append_assoc] at h
          obtain ⟨rfl, hval⟩ := TlvVal.append_inj key key' h
          obtain ⟨rfl, hes⟩ := TlvVal.append_inj val val' hval
          obtain ⟨rfl, hrs⟩ := TlvEntries.append_inj es fs (Nat.succ.inj hcnt) hes
          exact ⟨rfl, hrs⟩

end

/-! ## Writers -/

mutual

/-- The calls that put a value into a buffer. A `NULL` string is put as nil. -/
def TlvVal.put : TlvVal → ZBuf → Option ZBuf
  | .nil, v => ztlvPutLstring v none
  | .bool b, v => ztlvPutBool v b
  | .int n, v => ztlvPutInt v n
  | .int64 n, v => ztlvPutInt64 v n
  | .str bs, v => ztlvPutLstring v (some bs)
  | .table es, v => (ztlvPutTableCnt v (UInt32.ofNat es.count)).bind es.put

/-- The calls for a table's entries: keys and values in turn. -/
def TlvEntries.put : TlvEntries → ZBuf → Option ZBuf
  | .nil, v => some v
  | .cons key val es, v => (key.put v).bind fun v => (val.put v).bind es.put

end

mutual

/-- The value as it is put: `ztlv_put_int64` makes an `int` of what fits into one. -/
def TlvVal.written : TlvVal → TlvVal
  | .nil => .nil
  | .bool b => .bool b
  | .int n => .int n
  | .int64 n => if ztlvValIsInt32 n then .int n.toInt32 else .int64 n
  | .str bs => .str bs
  | .table es => .table es.written

def TlvEntries.written : TlvEntries → TlvEntries
  | .nil => .nil
  | .cons key val es => .cons key.written val.written es.written

end

theorem TlvEntries.count_written : ∀ es : TlvEntries, es.written.count = es.count := by
  intro es
  cases es with
  | nil => rfl
  | cons key val es => exact congrArg (· + 1) es.count_written

theorem TlvEntries.count_le : ∀ es : TlvEntries, es.count ≤ es.encode.length := by
  intro es
  cases es with
  | nil => exact Nat.le_refl 0
  | cons key val es =>
      have := es.count_le
      rw [TlvEntries.encode, TlvVal.encode_eq key]
      simp only [TlvEntries.count, List.length_append, List.length_cons]
      omega

theorem TlvVal.encode_written_int64 (n : Int64) :
    (TlvVal.int64 n).written.encode = tlvLong n := by
  rw [TlvVal.written, tlvLong]
  split <;> rfl

mutual

/-- A value is put as its bytes: a step for each kind of value. -/
theorem TlvVal.put_writes : ∀ a : TlvVal, Writes a.put a.written.encode := by
  intro a
  cases a with
  | nil => exact Writes.null
  | bool b => exact Writes.bool b
  | int n => exact Writes.int n
  | int64 n =>
      rw [TlvVal.encode_written_int64]
      exact Writes.int64 n
  | str bs => exact Writes.str bs
  | table es =>
      intro v hv
      -- so many entries have no room that their count would not be the one written
      have hcnt : (UInt32.ofNat es.count).toNat = es.written.count := by
        have hle := es.written.count_le
        rw [TlvVal.written, TlvVal.encode, List.length_cons, List.length_append] at hv
        rw [es.count_written] at hle ⊢
        exact UInt32.toNat_ofNat_of_lt' (by change es.count < 2 ^ 32; omega)
      have hcode : tlvTable (UInt32.ofNat es.count) ++ es.written.encode =
          (TlvVal.table es).written.encode := by
        rw [tlvTable, hcnt]
        rfl
      rw [← hcode] at hv ⊢
      exact (Writes.tableCnt _).bind es.put_writes v hv

theorem TlvEntries.put_writes : ∀ es : TlvEntries, Writes es.put es.written.encode := by
  intro es
  cases es with
  | nil => exact Writes.done
  | cons key val es => exact key.put_writes.bind (val.put_writes.bind es.put_writes)

end

/-! ## Messages -/

/-- The bytes of values, one after the other. -/
def tlvMessage (vals : List TlvVal) : List UInt8 := vals.flatMap TlvVal.encode

/-- The calls for values, one after the other. -/
def putMessage : List TlvVal → ZBuf → Option ZBuf
  | [], v => some v
  | a :: as, v => (a.put v).bind (putMessage as)

theorem putMessage_writes (as : List TlvVal) :
    Writes (putMessage as) (tlvMessage (as.map TlvVal.written)) := by
  induction as with
  | nil => exact Writes.done
  | cons a as ih => exact a.put_writes.bind ih

theorem message_prefix_iff (as bs : List TlvVal) :
    tlvMessage as <+: tlvMessage bs ↔ as <+: bs := by
  constructor
  · rintro ⟨r, h⟩
    induction as generalizing bs with
    | nil => exact List.nil_prefix
    | cons a as ih =>
        rw [tlvMessage, List.flatMap_cons, List.append_assoc] at h
        cases bs with
        | nil =>
            rw [TlvVal.encode_eq] at h
            cases h
        | cons b bs =>
            obtain ⟨rfl, hrest⟩ := TlvVal.append_inj a b h
            exact List.cons_prefix_cons.mpr ⟨rfl, ih bs hrest⟩
  · rintro ⟨cs, rfl⟩
    exact ⟨tlvMessage cs, List.flatMap_append.symm⟩

/-- Each of two messages is put as its bytes, and the bytes of the one begin with those of the other
    exactly if its values begin with the other's: bytes cut off in the middle of a value are no
    message, and the same bytes are the same values. -/
theorem tlvMessage_prefix_iff (as bs : List TlvVal) :
    Writes (putMessage as) (tlvMessage (as.map TlvVal.written)) ∧
      Writes (putMessage bs) (tlvMessage (bs.map TlvVal.written)) ∧
      (tlvMessage (as.map TlvVal.written) <+: tlvMessage (bs.map TlvVal.written) ↔
        as.map TlvVal.written <+: bs.map TlvVal.written) :=
  ⟨putMessage_writes as, putMessage_writes bs, message_prefix_iff _ _⟩

end Zcrt
