/-
  Readers and writers put together: what generated code does with a buffer, one value after the
  other.

  * `TlvRead`, `Comes`, `Comes.andThen`: a reader comes to a certain outcome at certain bytes,
    wherever they stand; two in a row take both.
  * `arrayRead`, `arrayPut`: the arrays of `ZTLV_GET_ARRAY_BASETYPE` and of the generated
    structures, as lists.
  * `TlvCodec`: a writer and a reader that belong together.
-/
import Zcrt.Tlv.Array
import Zcrt.Tlv.RoundTrip
import Zcrt.Ipc.Header

namespace Zcrt

open Lib

/-! ## Readers -/

namespace TlvProg

def getInt64 : TlvProg (Option Int64) := Prog.op (I := TlvI) TlvOp.int64
def getTableCnt : TlvProg (Option UInt32) := Prog.op (I := TlvI) TlvOp.tableCnt

@[simp] theorem run_getInt64 (v : ZBuf) : run getInt64 v = ztlvGetInt64 v := rfl
@[simp] theorem run_getTableCnt (v : ZBuf) : run getTableCnt v = ztlvGetTableCnt v := rfl

end TlvProg

/-- What a generated reader comes to: the value, `none` where it returns `false`, or a fault of the
    array code. -/
abbrev Outcome (α : Type) := Except ArrFault (Option α)

namespace Outcome

variable {α β : Type}

def bind (x : Outcome α) (f : α → Outcome β) : Outcome β :=
  match x with
  | .error e => .error e
  | .ok none => .ok none
  | .ok (some a) => f a

def map (x : Outcome α) (g : α → β) : Outcome β := x.bind fun a => .ok (some (g a))

@[simp] theorem bind_value (a : α) (f : α → Outcome β) : bind (.ok (some a)) f = f a := rfl
@[simp] theorem map_value (a : α) (g : α → β) : map (.ok (some a)) g = .ok (some (g a)) := rfl

theorem bind_eq_value {x : Outcome α} {f : α → Outcome β} {b : β} :
    x.bind f = .ok (some b) ↔ ∃ a, x = .ok (some a) ∧ f a = .ok (some b) := by
  rcases x with e | (- | a)
  · simp [bind]
  · simp [bind]
  · simp [bind]

theorem bind_bind {γ : Type} (x : Outcome α) (f : α → Outcome β) (g : β → Outcome γ) :
    (x.bind f).bind g = x.bind fun a => (f a).bind g := by
  rcases x with e | (- | a) <;> rfl

end Outcome

/-- A generated reader. -/
abbrev TlvRead (α : Type) := TlvProg (Outcome α)

namespace TlvRead

variable {α β : Type}

/-- A reader of `zipc_tlv.c`. -/
def ofTlv (p : TlvProg (Option α)) : TlvRead α :=
  (p >>= fun r => pure (.ok r) : TlvProg (Outcome α))

/-- `return false`, or the value returned. -/
def result (x : Option α) : TlvRead α := (pure (.ok x) : TlvProg (Outcome α))

/-- The value returned. -/
def value (a : α) : TlvRead α := result (some a)

/-- The next reader, unless this one returns `false`. -/
def andThen (p : TlvRead α) (f : α → TlvRead β) : TlvRead β :=
  let next : Outcome α → TlvProg (Outcome β)
    | .error e => pure (.error e)
    | .ok none => pure (.ok none)
    | .ok (some a) => f a
  Prog.bind p next

def bool : TlvRead Bool := ofTlv TlvProg.getBool

/-- `ztlv_get_int`, then a cast. -/
def int (cast : Int32 → α) : TlvRead α :=
  ofTlv (TlvProg.getInt >>= fun nv => pure (nv.map cast))

def int64 : TlvRead Int64 := ofTlv TlvProg.getInt64

def string : TlvRead (List UInt8) := ofTlv TlvProg.getString

def tableCnt : TlvRead UInt32 := ofTlv TlvProg.getTableCnt

/-- What the reader comes to at the bytes `bs`, wherever they stand, and that with a value it has
    taken just them. -/
def Comes (p : TlvRead α) (bs : List UInt8) (x : Outcome α) : Prop :=
  ∀ (v : ZBuf) (r : List UInt8), v.len.toNat < 2 ^ 31 → v.rest = bs ++ r →
    (p.run v).1 = x ∧ ∀ a, x = .ok (some a) → (p.run v).2 = v.skip bs.length

/-- The reader takes the bytes `bs` for `a`. -/
abbrev Reads (p : TlvRead α) (bs : List UInt8) (a : α) : Prop := p.Comes bs (.ok (some a))

variable {p : TlvRead α} {f : α → TlvRead β} {bs bs' : List UInt8} {a : α} {x : Outcome α}

theorem Reads.of_run (h : ∀ (v : ZBuf) (r : List UInt8), v.len.toNat < 2 ^ 31 →
    v.rest = bs ++ r → p.run v = (.ok (some a), v.skip bs.length)) : p.Reads bs a := by
  intro v r hv hrest
  rw [h v r hv hrest]
  exact ⟨rfl, fun _ _ => rfl⟩

/-- A value is read, and its bytes are taken, exactly if the reader comes to it. -/
theorem Comes.run_eq_iff (h : p.Comes bs x) {v : ZBuf} {r : List UInt8}
    (hv : v.len.toNat < 2 ^ 31) (hrest : v.rest = bs ++ r) (a : α) :
    p.run v = (.ok (some a), v.skip bs.length) ↔ x = .ok (some a) := by
  obtain ⟨hval, hcur⟩ := h v r hv hrest
  constructor
  · intro hrun
    rw [← hval, hrun]
  · intro hx
    exact Prod.ext (hval.trans hx) (hcur a hx)

theorem run_andThen (p : TlvRead α) (f : α → TlvRead β) (v : ZBuf) :
    (p.andThen f).run v =
      match p.run v with
      | (.error e, v') => (.error e, v')
      | (.ok none, v') => (.ok none, v')
      | (.ok (some a), v') => (f a).run v' := by
  refine (TlvProg.run_bind p _ v).trans ?_
  rcases p.run v with ⟨(e | (- | a)), v'⟩ <;> rfl

/-- The rule of sequence. -/
theorem Comes.andThen {y : α → Outcome β} (h : p.Comes bs x)
    (h' : ∀ a, x = .ok (some a) → (f a).Comes bs' (y a)) :
    (p.andThen f).Comes (bs ++ bs') (x.bind y) := by
  intro v r hv hrest
  rw [List.append_assoc] at hrest
  obtain ⟨hval, hcur⟩ := h v _ hv hrest
  rw [run_andThen]
  rcases hrun : p.run v with ⟨x', v'⟩
  rw [hrun] at hval hcur
  subst hval
  rcases x' with e | (- | a)
  · exact ⟨rfl, nofun⟩
  · exact ⟨rfl, nofun⟩
  · obtain rfl : v' = _ := hcur a rfl
    obtain ⟨hval, hcur⟩ := h' a rfl (v.skip bs.length) r hv (ZBuf.rest_skip hrest)
    refine ⟨hval, fun b hb => (hcur b hb).trans ?_⟩
    rw [ZBuf.skip_skip, List.length_append]

/-- What stands behind a reader's bytes goes to the next reader. -/
theorem Reads.andThen {y : Outcome β} (h : p.Reads bs a) (h' : (f a).Comes bs' y) :
    (p.andThen f).Comes (bs ++ bs') y :=
  Comes.andThen (y := fun _ => y) h fun b hb => by
    obtain rfl := Option.some.inj (Except.ok.inj hb)
    exact h'

theorem Comes.value (a : α) : (value a).Comes [] (.ok (some a)) := Reads.of_run fun v _ _ _ => by
  rw [List.length_nil, ZBuf.skip_zero]
  rfl

/-- What is made of a value at the end changes no cursor. -/
theorem Comes.check (h : p.Comes bs x) (g : α → Option β) :
    (p.andThen fun a => .result (g a)).Comes bs (x.bind fun a => .ok (g a)) := by
  have hall : (p.andThen fun a => .result (g a)).Comes (bs ++ []) (x.bind fun a => .ok (g a)) :=
    h.andThen fun a _ v r _ _ => ⟨rfl, fun _ _ => (ZBuf.skip_zero v).symm⟩
  rwa [List.append_nil] at hall

theorem Comes.map (h : p.Comes bs x) (g : α → β) :
    (p.andThen fun a => .value (g a)).Comes bs (x.map g) := h.check fun a => some (g a)

theorem Comes.bool (b : Bool) : TlvRead.bool.Reads [if b then ZTLV_TRUE else ZTLV_FALSE] b := by
  refine Reads.of_run fun v r _ hrest => ?_
  have hget := ztlvGetBool_of_rest (v := v) (b := b) hrest
  unfold TlvRead.bool ofTlv
  rw [TlvProg.run_bind, TlvProg.run_getBool, hget]
  rfl

theorem Comes.int (cast : Int32 → α) (n : Int32) :
    (TlvRead.int cast).Reads (tlvInt n) (cast n) := by
  refine Reads.of_run fun v r hv hrest => ?_
  have hget := ztlvGetInt_of_rest hrest (rest_lt hv)
  unfold TlvRead.int ofTlv
  rw [TlvProg.run_bind, TlvProg.run_bind, TlvProg.run_getInt, hget]
  rfl

theorem Comes.uint32 (n : UInt32) : (TlvRead.int Int32.toUInt32).Reads (tlvUint32 n) n := by
  refine Reads.of_run fun v r hv hrest => ?_
  have hget := ztlvGetUint32_of_rest hrest (rest_lt hv)
  unfold TlvRead.int ofTlv
  rw [TlvProg.run_bind, TlvProg.run_bind, TlvProg.run_getInt]
  exact Prod.ext (congrArg Except.ok (Prod.ext_iff.mp hget).1) (Prod.ext_iff.mp hget).2

theorem Comes.int64 (n : Int64) : TlvRead.int64.Reads (tlvLong n) n := by
  refine Reads.of_run fun v r hv hrest => ?_
  have hget := ztlvGetInt64_of_rest hrest (rest_lt hv)
  unfold TlvRead.int64 ofTlv
  rw [TlvProg.run_bind, TlvProg.run_getInt64, hget]
  rfl

theorem Comes.string (bs : List UInt8) : TlvRead.string.Reads (tlvStr bs) bs := by
  refine Reads.of_run fun v r hv hrest => ?_
  unfold TlvRead.string ofTlv
  rw [TlvProg.run_bind, run_getString_of_rest hv hrest]
  rfl

theorem Comes.tableCnt (n : UInt32) : TlvRead.tableCnt.Reads (tlvTable n) n := by
  refine Reads.of_run fun v r hv hrest => ?_
  have hget := ztlvGetTableCnt_of_rest hrest (rest_lt hv)
  unfold TlvRead.tableCnt ofTlv
  rw [TlvProg.run_bind, TlvProg.run_getTableCnt, hget]
  rfl

/-- A `NULL` string is written, but not read. -/
theorem Comes.null : TlvRead.string.Comes [ZTLV_NIL] (.ok none) := by
  intro v r _ hrest
  have hty : ztlvGetType v = (ZTLV_NIL, v.skip 1) := ztlvGetType_of_rest hrest
  unfold TlvRead.string ofTlv
  rw [TlvProg.run_bind, TlvProg.run_getString, ztlvGetString_eq, hty]
  exact ⟨rfl, nofun⟩

end TlvRead

/-! ## Arrays -/

section Arrays

variable {α : Type}

/-- The loop of the decoders: the index of an element is read and dropped. -/
def arrayReadLoop (elem : TlvRead α) : Nat → TlvRead (List α)
  | 0 => .value []
  | n + 1 => (TlvRead.int id).andThen fun _ => elem.andThen fun a =>
      (arrayReadLoop elem n).andThen fun as => .value (a :: as)

/-- An array decoder: the count, `zarray_new` and `zarray_setlength`, which asserts that the count
    is not too large, then the loop. -/
def arrayRead (elem : TlvRead α) : TlvRead (List α) :=
  TlvRead.tableCnt.andThen fun cnt =>
    if cnt < 0xfffff then arrayReadLoop elem cnt.toNat
    else (pure (.error .assertion) : TlvProg (Outcome (List α)))

/-- The loop of the encoders, from the element with the index `i` on. -/
def arrayPutLoop (put : ZBuf → α → Option ZBuf) : UInt32 → List α → ZBuf → Option ZBuf
  | _, [], buf => some buf
  | i, a :: as, buf =>
      (ztlvPutInt buf (i + 1).toInt32).bind fun buf =>
        (put buf a).bind (arrayPutLoop put (i + 1) as)

/-- An array encoder; a `NULL` array has no element. -/
def arrayPut (put : ZBuf → α → Option ZBuf) (arr : Option (List α)) (buf : ZBuf) : Option ZBuf :=
  (ztlvPutTableCnt buf (UInt32.ofNat (arr.getD []).length)).bind
    (arrayPutLoop put 0 (arr.getD []))

/-- The elements on the wire, the first with the index `i + 1`. -/
def elemBytes (code : α → List UInt8) : UInt32 → List α → List UInt8
  | _, [] => []
  | i, a :: as => tlvInt (i + 1).toInt32 ++ (code a ++ elemBytes code (i + 1) as)

/-- An array on the wire. -/
def arrayBytes (code : α → List UInt8) (as : List α) : List UInt8 :=
  tlvTable (UInt32.ofNat as.length) ++ elemBytes code 0 as

variable {put : ZBuf → α → Option ZBuf} {elem : TlvRead α} {code : α → List UInt8}

theorem arrayPutLoop_writes {as : List α} (h : ∀ a ∈ as, Writes (put · a) (code a)) (i : UInt32) :
    Writes (arrayPutLoop put i as) (elemBytes code i as) := by
  induction as generalizing i with
  | nil => exact Writes.done
  | cons a as ih =>
      have hrest := ih (fun b hb => h b (List.mem_cons_of_mem _ hb)) (i + 1)
      exact (Writes.int _).bind ((h a List.mem_cons_self).bind hrest)

theorem arrayPut_writes {arr : Option (List α)}
    (h : ∀ a ∈ arr.getD [], Writes (put · a) (code a)) :
    Writes (arrayPut put arr) (arrayBytes code (arr.getD [])) :=
  (Writes.tableCnt _).bind (arrayPutLoop_writes h 0)

/-- What the elements come to, one after the other. -/
def elemsBack (back : α → Outcome α) : List α → Outcome (List α)
  | [] => .ok (some [])
  | a :: as => (back a).bind fun b => (elemsBack back as).map (b :: ·)

/-- What an array comes to. -/
def arrayBack (back : α → Outcome α) (as : List α) : Outcome (List α) :=
  if as.length < 0xfffff then elemsBack back as else .error .assertion

theorem elemsBack_eq_self {back : α → Outcome α} {as : List α} :
    elemsBack back as = .ok (some as) ↔ ∀ a ∈ as, back a = .ok (some a) := by
  induction as with
  | nil => exact ⟨fun _ _ ha => absurd ha List.not_mem_nil, fun _ => rfl⟩
  | cons a as ih =>
      rw [elemsBack, List.forall_mem_cons, ← ih]
      constructor
      · intro h
        obtain ⟨b, hb, h⟩ := Outcome.bind_eq_value.mp h
        obtain ⟨bs, hbs, h⟩ := Outcome.bind_eq_value.mp h
        obtain ⟨rfl, rfl⟩ := List.cons.inj (Option.some.inj (Except.ok.inj h))
        exact ⟨hb, hbs⟩
      · rintro ⟨ha, has⟩
        rw [ha, has]
        rfl

theorem arrayBack_eq_self {back : α → Outcome α} {as : List α} :
    arrayBack back as = .ok (some as) ↔
      as.length < 0xfffff ∧ ∀ a ∈ as, back a = .ok (some a) := by
  unfold arrayBack
  split
  · next hlt => rw [elemsBack_eq_self, and_iff_right hlt]
  · next hge =>
      refine ⟨fun h => ?_, fun h => absurd h.1 hge⟩
      cases h

theorem arrayReadLoop_comes {back : α → Outcome α} (h : ∀ a, elem.Comes (code a) (back a))
    (as : List α) (i : UInt32) :
    (arrayReadLoop elem as.length).Comes (elemBytes code i as) (elemsBack back as) := by
  induction as generalizing i with
  | nil => exact TlvRead.Comes.value []
  | cons a as ih =>
      refine (TlvRead.Comes.int id _).andThen ((h a).andThen fun b _ => ?_)
      exact (ih (i + 1)).map (b :: ·)

theorem arrayRead_comes {back : α → Outcome α} (h : ∀ a, elem.Comes (code a) (back a))
    (as : List α) : (arrayRead elem).Comes (arrayBytes code as) (arrayBack back as) := by
  intro v r hv hrest
  -- the count is the length: the elements take more bytes than there are
  have hlen : as.length < 2 ^ 32 := by
    have hle : ∀ i, as.length ≤ (elemBytes code i as).length := by
      clear hrest
      induction as with
      | nil => exact fun _ => Nat.le_refl 0
      | cons a as ih =>
          intro i
          have := ih (i + 1)
          rw [elemBytes, tlvInt]
          simp only [List.length_append, List.length_cons]
          omega
    have hshort := rest_lt hv
    rw [hrest, arrayBytes] at hshort
    simp only [List.length_append] at hshort
    have := hle 0
    omega
  have hcnt : (UInt32.ofNat as.length).toNat = as.length := by
    rw [UInt32.toNat_ofNat']
    omega
  refine (TlvRead.Comes.tableCnt _).andThen ?_ v r hv hrest
  unfold arrayBack
  have hmax : (0xfffff : UInt32).toNat = 0xfffff := rfl
  simp only [UInt32.lt_iff_toNat_lt, hcnt, hmax]
  split
  · exact arrayReadLoop_comes h as 0
  · refine fun _ _ _ _ => ⟨rfl, fun _ h => ?_⟩
    cases h

end Arrays

/-! ## Codecs -/

/-- How the generated code writes and reads the values of a type: the bytes of a value, and what
    they come to when they are read. -/
structure TlvCodec (α : Type) where
  put : ZBuf → α → Option ZBuf
  read : TlvRead α
  code : α → List UInt8
  back : α → Outcome α
  writes : ∀ a, Writes (put · a) (code a)
  comes : ∀ a, read.Comes (code a) (back a)

namespace TlvCodec

def bool : TlvCodec Bool where
  put := ztlvPutBool
  read := TlvRead.bool
  code b := [if b then ZTLV_TRUE else ZTLV_FALSE]
  back b := .ok (some b)
  writes := Writes.bool
  comes := TlvRead.Comes.bool

/-- An integer type that C promotes to `int32_t`, and that a cast comes back to. -/
def int {α : Type} (promote : α → Int32) (cast : Int32 → α) (h : ∀ n, cast (promote n) = n) :
    TlvCodec α where
  put v n := ztlvPutInt v (promote n)
  read := TlvRead.int cast
  code n := tlvInt (promote n)
  back n := .ok (some n)
  writes n := Writes.int (promote n)
  comes n := by
    have := TlvRead.Comes.int cast (promote n)
    rwa [h] at this

def int32 : TlvCodec Int32 := int id id fun _ => rfl

/-- `ZTLV_CHECK_GET_UINT8` is `ZTLV_CHECK_GET_INT8`: the cast is to `int8_t`, the assignment goes
    back to `uint8_t`. -/
def uint8 : TlvCodec UInt8 :=
  int (fun n => n.toUInt32.toInt32) (fun nv => nv.toInt8.toUInt8) fun n => by
    apply UInt8.toBitVec_inj.mp
    simp [BitVec.signExtend_eq_setWidth_of_le]

def int8 : TlvCodec Int8 := int Int8.toInt32 Int32.toInt8 fun n => by simp

def int16 : TlvCodec Int16 := int Int16.toInt32 Int32.toInt16 fun n => by simp

def uint16 : TlvCodec UInt16 :=
  int (fun n => n.toUInt32.toInt32) (fun nv => nv.toInt16.toUInt16) fun n => by
    apply UInt16.toBitVec_inj.mp
    simp [BitVec.signExtend_eq_setWidth_of_le]

def uint32 : TlvCodec UInt32 where
  put := ztlvPutUint32
  read := TlvRead.int Int32.toUInt32
  code := tlvUint32
  back n := .ok (some n)
  writes := Writes.uint32
  comes := TlvRead.Comes.uint32

def int64 : TlvCodec Int64 where
  put := ztlvPutInt64
  read := TlvRead.int64
  code := tlvLong
  back n := .ok (some n)
  writes := Writes.int64
  comes := TlvRead.Comes.int64

/-- A `zstr_t`, `none` for the pointer `NULL`. -/
def str : TlvCodec (Option (List UInt8)) where
  put := ztlvPutLstring
  read := TlvRead.string.andThen fun bs => .value (some bs)
  code
    | none => [ZTLV_NIL]
    | some bs => tlvStr bs
  back
    | none => .ok none
    | some bs => .ok (some (some bs))
  writes
    | none => Writes.null
    | some bs => Writes.str bs
  comes
    | none => TlvRead.Comes.null.map some
    | some bs => (TlvRead.Comes.string bs).map some

variable {α : Type} (c : TlvCodec α)

/-- `ZTLV_PUT_ARRAY_BASETYPE` and `ZTLV_GET_ARRAY_BASETYPE`. -/
def array : TlvCodec (List α) where
  put v as := arrayPut c.put (some as) v
  read := arrayRead c.read
  code := arrayBytes c.code
  back := arrayBack c.back
  writes _ := arrayPut_writes fun a _ => c.writes a
  comes := arrayRead_comes c.comes

/-- The array functions of a structure, which take a `NULL` array for an empty one. -/
def structArray : TlvCodec (Option (List α)) where
  put v arr := arrayPut c.put arr v
  read := (arrayRead c.read).andThen fun as => .value (some as)
  code arr := arrayBytes c.code (arr.getD [])
  back arr := (arrayBack c.back (arr.getD [])).map some
  writes _ := arrayPut_writes fun a _ => c.writes a
  comes arr := (arrayRead_comes c.comes (arr.getD [])).map some

/-- An array comes back if it is not `NULL`, not too long, and its elements come back. -/
theorem structArray_back {arr : Option (List α)} :
    c.structArray.back arr = .ok (some arr) ↔
      ∃ as, arr = some as ∧ as.length < 0xfffff ∧ ∀ a ∈ as, c.back a = .ok (some a) := by
  change (arrayBack c.back (arr.getD [])).bind (fun as => .ok (some (some as))) = _ ↔ _
  rw [Outcome.bind_eq_value]
  constructor
  · rintro ⟨as, has, h⟩
    obtain rfl : some as = arr := Option.some.inj (Except.ok.inj h)
    exact ⟨as, rfl, arrayBack_eq_self.mp has⟩
  · rintro ⟨as, rfl, has⟩
    exact ⟨as, arrayBack_eq_self.mpr has, rfl⟩

end TlvCodec

end Zcrt
