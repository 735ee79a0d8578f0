/-
  Arrays on the wire: `ztlv_put_array`, `ztlv_get_array` and `ZTLV_GET_ARRAY_BASETYPE`.

  An element is handed to its codec as a pointer: the memory from the element on, of which the
  codec may change the `unitsize` bytes of the element. A decoder's run lists the calls of
  `zarray_setlength` it makes, each with the bytes then left to read.

  * `ReadsBack`: an element codec writes an element and reads it back, whatever follows.
  * `ztlvPutArrayLoop_appends`, `arrayLoop_reads`: the two loops, from any turn on.
  * `ztlvArray_roundTrip`: so the array codec reads back an array.
-/
import Zcrt.Core.ArrayList
import Zcrt.Tlv.Value

namespace Zcrt

open Lib

/-- `ZTLV_TYPE_GET`: the result, the memory at `v` after the call, and the buffer. -/
abbrev ZtlvTypeGet := ZBuf → Mem → Bool × Mem × ZBuf

/-- `ZTLV_TYPE_PUT`; `none` when it never returns. -/
abbrev ZtlvTypePut := ZBuf → Mem → Option (Bool × ZBuf)

/-! ## The decoders -/

/-- What a decoder leaves behind. -/
structure ArrRun where
  ret : Except ArrFault Bool
  buf : ZBuf
  arr : ZArrayList
  /-- the calls of `zarray_setlength`: the length, and the bytes left in the message -/
  lens : List (UInt32 × Nat)

/-- What a turn of a decoding loop leaves; the loop goes on after `true`. -/
abbrev ArrTurn := Except ArrFault Bool × ZBuf × ZArrayList

/-- The turns from `i` on, `n` of them left: the index is read and dropped. -/
def arrayLoop (turn : UInt32 → ZBuf → ZArrayList → ArrTurn) :
    Nat → UInt32 → ZBuf → ZArrayList → ArrTurn
  | 0, _, buf, arr => (.ok true, buf, arr)
  | n + 1, i, buf, arr =>
      match ztlvGetInt buf with
      | (none, buf) => (.ok false, buf, arr)
      | (some _, buf) =>
          match turn i buf arr with
          | (.ok true, buf, arr) => arrayLoop turn n (i + 1) buf arr
          | r => r

/-- `zarray_setlength`, then the loop. -/
def fillArray (turn : UInt32 → ZBuf → ZArrayList → ArrTurn) (buf : ZBuf) (arr : ZArrayList)
    (cnt : UInt32) : ArrRun :=
  let lens := [(cnt, buf.rest.length)]
  match zarraySetlength arr cnt with
  | .error e => { ret := .error e, buf := buf, arr := { arr with len := cnt }, lens := lens }
  | .ok arr =>
      let (ret, buf, arr) := arrayLoop turn cnt.toNat 0 buf arr
      { ret := ret, buf := buf, arr := arr, lens := lens }

/-- `fun(buf, zarray_get(arr,i))`. -/
def ztlvGetArrayTurn (fn : ZtlvTypeGet) (i : UInt32) (buf : ZBuf) (arr : ZArrayList) : ArrTurn :=
  match arr.place i with
  | none => (.error .pointer, buf, arr)
  | some p =>
      let (ok, m, buf) := fn buf (arr.data.shift p)
      (.ok ok, buf, arr.store p m)

/-- `ztlv_get_array`. -/
def ztlvGetArray (buf : ZBuf) (arr : ZArrayList) (fn : ZtlvTypeGet) : ArrRun :=
  match ztlvGetTableCnt buf with
  | (none, buf) => { ret := .ok false, buf := buf, arr := arr, lens := [] }
  | (some cnt, buf) => fillArray (ztlvGetArrayTurn fn) buf arr cnt

/-- `ztlv_get_##btycall (buf, &v)` and `*(bty*)zarray_get(arrv,i) = (bty)v`; `cast v` are the bytes
    of `(bty)v`. -/
def ztlvGetArrayBasetypeTurn {α : Type} (btycall : ZBuf → Option α × ZBuf) (cast : α → List UInt8)
    (i : UInt32) (buf : ZBuf) (arr : ZArrayList) : ArrTurn :=
  match btycall buf with
  | (none, buf) => (.ok false, buf, arr)
  | (some v, buf) =>
      match arr.place i with
      | none => (.error .pointer, buf, arr)
      | some p => (.ok true, buf, arr.store p ((arr.data.shift p).copy 0 (cast v)))

/-- `ZTLV_GET_ARRAY_BASETYPE`: `arrv` is what the variable held before, `mem` the memory
    `zarray_new` is handed; `false` is the `return ret` of the macro. -/
def ztlvGetArrayBasetype {α : Type} (size : UInt32) (btycall : ZBuf → Option α × ZBuf)
    (cast : α → List UInt8) (mem : Mem) (buf : ZBuf) (arrv : ZArrayList) : ArrRun :=
  match ztlvGetTableCnt buf with
  | (none, buf) => { ret := .ok false, buf := buf, arr := arrv, lens := [] }
  | (some cnt, buf) =>
      fillArray (ztlvGetArrayBasetypeTurn btycall cast) buf (zarrayNew cnt size 5 mem) cnt

/-! ## The encoder -/

/-- The turns of `ztlv_put_array` from `i` on, `n` of them left. -/
def ztlvPutArrayLoop (fn : ZtlvTypePut) (arr : ZArrayList) :
    Nat → UInt32 → ZBuf → Option (Except ArrFault Bool × ZBuf)
  | 0, _, buf => some (.ok true, buf)
  | n + 1, i, buf =>
      (ztlvPutInt buf (i + 1).toInt32).bind fun buf =>
        match arr.place i with
        | none => some (.error .pointer, buf)
        | some p =>
            (fn buf (arr.data.shift p)).bind fun r =>
              if r.1 then ztlvPutArrayLoop fn arr n (i + 1) r.2 else some (.ok false, r.2)

/-- `ztlv_put_array`. -/
def ztlvPutArray (buf : ZBuf) (arr : ZArrayList) (fn : ZtlvTypePut) :
    Option (Except ArrFault Bool × ZBuf) :=
  (ztlvPutTableCnt buf (zarrayGetlength arr)).bind
    (ztlvPutArrayLoop fn arr (zarrayGetlength arr).toNat 0)

/-! ## Element codecs -/

/-- The bytes left to read, few enough for an `int` to count them. -/
structure Unread (buf : ZBuf) (bs : List UInt8) : Prop where
  offset : buf.offset ≤ buf.len
  rest : buf.rest = bs
  short : bs.length < 2 ^ 31

theorem Unread.skip {buf : ZBuf} {a b : List UInt8} (h : Unread buf (a ++ b)) :
    Unread (buf.skip a.length) b where
  offset := ZBuf.skip_offset_le (by rw [h.rest]; simp) h.offset
  rest := ZBuf.rest_skip h.rest
  short := by
    have := h.short
    rw [List.length_append] at this
    omega

/-- `put` writes the element `e` as `code e`, and `get` reads it back, whatever follows. -/
structure ReadsBack (put : ZtlvTypePut) (get : ZtlvTypeGet) (code : List UInt8 → List UInt8)
    (e : List UInt8) : Prop where
  written : ∀ buf m, m.slice 0 e.length = e → buf.len.toNat + (code e).length < 2 ^ 31 - 16 →
    ∃ buf', put buf m = some (true, buf') ∧ Appends buf buf' (code e)
  read : ∀ buf m r, Unread buf (code e ++ r) →
    ∃ m', get buf m = (true, m', buf.skip (code e).length) ∧ m'.slice 0 e.length = e

/-- The elements `es` on the wire, the first with the index `i + 1`. -/
def elemsCode (code : List UInt8 → List UInt8) : UInt32 → List (List UInt8) → List UInt8
  | _, [] => []
  | i, e :: es => tlvInt (i + 1).toInt32 ++ (code e ++ elemsCode code (i + 1) es)

/-- An array on the wire. -/
def arrayCode (code : List UInt8 → List UInt8) (es : List (List UInt8)) : List UInt8 :=
  tlvTable (UInt32.ofNat es.length) ++ elemsCode code 0 es

/-- The `n` elements from `i` on. -/
def ZArrayList.elemsFrom (v : ZArrayList) (i n : Nat) : List (List UInt8) :=
  (List.range' i n).map v.elem

/-- The active elements. -/
def ZArrayList.elems (v : ZArrayList) : List (List UInt8) := v.elemsFrom 0 v.len.toNat

@[simp] theorem ZArrayList.elemsFrom_length (v : ZArrayList) (i n : Nat) :
    (v.elemsFrom i n).length = n := by
  simp [ZArrayList.elemsFrom]

theorem ZArrayList.elemsFrom_succ (v : ZArrayList) (i n : Nat) :
    v.elemsFrom i (n + 1) = v.elem i :: v.elemsFrom (i + 1) n := by
  unfold ZArrayList.elemsFrom
  rw [List.range'_succ, List.map_cons]

@[simp] theorem ZArrayList.elem_length (v : ZArrayList) (i : Nat) :
    (v.elem i).length = v.unitsize.toNat := by
  simp [ZArrayList.elem]

theorem tlvInt_length (n : Int32) : 2 ≤ (tlvInt n).length := by
  have := (Leb128.terminated_encode (zcrtZigZagEncode32 n).toNat).length_pos
  simp only [tlvInt, List.length_cons]
  omega

theorem tlvTable_length (cnt : UInt32) : 2 ≤ (tlvTable cnt).length := by
  have := (Leb128.terminated_encode cnt.toNat).length_pos
  simp only [tlvTable, List.length_cons]
  omega

/-! ## Writing -/

theorem ztlvPutArrayLoop_appends {put : ZtlvTypePut} {get : ZtlvTypeGet}
    {code : List UInt8 → List UInt8} {arr : ZArrayList} (harr : arr.Ok) (n : Nat) (i : UInt32)
    (hi : i.toNat + n = arr.len.toNat) (buf : ZBuf)
    (hcodec : ∀ e ∈ arr.elemsFrom i.toNat n, ReadsBack put get code e)
    (hlen : buf.len.toNat + (elemsCode code i (arr.elemsFrom i.toNat n)).length < 2 ^ 31 - 16) :
    ∃ buf', ztlvPutArrayLoop put arr n i buf = some (.ok true, buf') ∧
      Appends buf buf' (elemsCode code i (arr.elemsFrom i.toNat n)) := by
  induction n generalizing i buf with
  | zero => exact ⟨buf, rfl, Appends.refl buf⟩
  | succ n ih =>
      have hlt : i < arr.len := UInt32.lt_iff_toNat_lt.mpr (by omega)
      have hnext : (i + 1).toNat = i.toNat + 1 := Word.u32_succ (by have := arr.len.toNat_lt; omega)
      rw [ZArrayList.elemsFrom_succ] at hcodec hlen ⊢
      rw [elemsCode, List.length_append, List.length_append] at hlen
      have hidx := tlvInt_length (i + 1).toInt32
      obtain ⟨buf1, h1, a1⟩ := ztlvPutInt_appends (v := buf) (i + 1).toInt32 (by omega)
      have l1 := a1.len
      obtain ⟨buf2, h2, a2⟩ := (hcodec _ List.mem_cons_self).written buf1
        (arr.data.shift (i.toNat * arr.unitsize.toNat))
        (by rw [Mem.slice_shift, ZArrayList.elem_length]; rfl) (by omega)
      have l2 := a2.len
      obtain ⟨buf3, h3, a3⟩ := ih (i + 1) (by omega) buf2
        (by rw [hnext]; exact fun e he => hcodec e (List.mem_cons_of_mem _ he))
        (by rw [hnext]; omega)
      rw [hnext] at a3
      refine ⟨buf3, ?_, a1.trans (a2.trans a3)⟩
      rw [ztlvPutArrayLoop, h1, Option.bind_some, harr.place hlt]
      dsimp only
      rw [h2, Option.bind_some, if_pos rfl]
      exact h3

/-! ## Reading -/

/-- One turn stores one element. -/
theorem ztlvGetArrayTurn_reads {put : ZtlvTypePut} {get : ZtlvTypeGet}
    {code : List UInt8 → List UInt8} {e r : List UInt8} (hcodec : ReadsBack put get code e)
    {arr : ZArrayList} (harr : arr.Ok) (he : e.length = arr.unitsize.toNat) {i : UInt32}
    (hi : i < arr.len) {buf : ZBuf} (hbuf : Unread buf (code e ++ r)) :
    ∃ out, ztlvGetArrayTurn get i buf arr = (.ok true, buf.skip (code e).length, out) ∧ out.Ok ∧
      out.len = arr.len ∧ out.unitsize = arr.unitsize ∧
      ∀ j, out.elem j = if j = i.toNat then e else arr.elem j := by
  obtain ⟨m', hget, hm'⟩ := hcodec.read buf (arr.data.shift (i.toNat * arr.unitsize.toNat)) r hbuf
  refine ⟨arr.store (i.toNat * arr.unitsize.toNat) m', ?_, harr.store _ _, rfl, rfl, fun j => ?_⟩
  · unfold ztlvGetArrayTurn
    rw [harr.place hi]
    dsimp only
    rw [hget]
  · rw [ZArrayList.elem_store, ← he, hm']

theorem arrayLoop_reads {put : ZtlvTypePut} {get : ZtlvTypeGet} {code : List UInt8 → List UInt8}
    {r : List UInt8} (es : List (List UInt8)) {i : UInt32} {arr : ZArrayList} (harr : arr.Ok)
    (hes : ∀ e ∈ es, ReadsBack put get code e ∧ e.length = arr.unitsize.toNat)
    (hi : i.toNat + es.length = arr.len.toNat) {buf : ZBuf}
    (hbuf : Unread buf (elemsCode code i es ++ r)) :
    ∃ out, arrayLoop (ztlvGetArrayTurn get) es.length i buf arr =
        (.ok true, buf.skip (elemsCode code i es).length, out) ∧
      out.len = arr.len ∧ out.elemsFrom i.toNat es.length = es ∧
      ∀ j, j < i.toNat → out.elem j = arr.elem j := by
  induction es generalizing i arr buf with
  | nil =>
      refine ⟨arr, ?_, rfl, rfl, fun _ _ => rfl⟩
      rw [elemsCode, List.length_nil, List.length_nil, ZBuf.skip_zero]
      rfl
  | cons e es ih =>
      rw [List.length_cons] at hi
      have hlt : i < arr.len := UInt32.lt_iff_toNat_lt.mpr (by omega)
      have hnext : (i + 1).toNat = i.toNat + 1 := Word.u32_succ (by have := arr.len.toNat_lt; omega)
      rw [elemsCode, List.append_assoc, List.append_assoc] at hbuf
      obtain ⟨hcodec, he⟩ := hes e List.mem_cons_self
      have hbuf1 := hbuf.skip
      have hint := ztlvGetInt_of_rest hbuf.rest (by rw [hbuf.rest]; exact hbuf.short)
      obtain ⟨arr1, hturn, hok, hlen, hunit, helem⟩ :=
        ztlvGetArrayTurn_reads hcodec harr he hlt hbuf1
      obtain ⟨out, hrun, holen, hes', hkeep⟩ := ih (i := i + 1) hok
        (by rw [hunit]; exact fun e he => hes e (List.mem_cons_of_mem _ he))
        (by rw [hlen]; omega) hbuf1.skip
      rw [hnext] at hes' hkeep
      refine ⟨out, ?_, holen.trans hlen, ?_, fun j hj => ?_⟩
      · rw [List.length_cons, arrayLoop, hint]
        dsimp only
        rw [hturn]
        dsimp only
        rw [hrun, ZBuf.skip_skip, ZBuf.skip_skip, elemsCode, List.length_append,
          List.length_append]
      · rw [List.length_cons, ZArrayList.elemsFrom_succ, hes', hkeep _ (Nat.lt_succ_self _), helem,
          if_pos rfl]
      · rw [hkeep j (by omega), helem, if_neg (by omega)]

/-! ## Round trip -/

/-- What a writer appended is what is read from where it began. -/
theorem Appends.rest {v v' : ZBuf} {bs : List UInt8} (h : Appends v v' bs) :
    ({ v' with offset := v.len } : ZBuf).rest = bs := by
  have hb := h.bytes
  have hl := h.len
  unfold ZBuf.bytes at hb
  rw [hl, Mem.slice_add, Nat.zero_add] at hb
  have := (List.append_inj hb (by simp)).2
  unfold ZBuf.rest
  dsimp only
  rw [hl, Nat.add_sub_cancel_left]
  exact this

/-- Any buffer whose unread bytes begin with `bs` gives `arr`, read into any array of elements of
    the same size, no block of which reaches `2^32` bytes. -/
def ReadsArray (get : ZtlvTypeGet) (bs : List UInt8) (arr : ZArrayList) : Prop :=
  ∀ (u : ZBuf) (r : List UInt8) (arr' : ZArrayList), Unread u (bs ++ r) → arr'.Ok →
    arr'.unitsize = arr.unitsize → arr'.unitsize.toNat * arr'.capacity arr.len.toNat < 2 ^ 32 →
    (ztlvGetArray u arr' get).ret = .ok true ∧
      zarrayGetlength (ztlvGetArray u arr' get).arr = arr.len ∧
      (ztlvGetArray u arr' get).arr.elems = arr.elems ∧
      (ztlvGetArray u arr' get).buf = u.skip bs.length

theorem ZArrayList.elems_length (v : ZArrayList) : v.elems.length = v.len.toNat :=
  v.elemsFrom_length _ _

theorem arrayCode_elems (code : List UInt8 → List UInt8) (arr : ZArrayList) :
    arrayCode code arr.elems = tlvTable arr.len ++ elemsCode code 0 arr.elems := by
  unfold arrayCode
  rw [arr.elems_length, UInt32.ofNat_toNat]

theorem ztlvPutArray_appends {put : ZtlvTypePut} {get : ZtlvTypeGet}
    {code : List UInt8 → List UInt8} {arr : ZArrayList} (harr : arr.Ok)
    (hcodec : ∀ e ∈ arr.elems, ReadsBack put get code e) {buf : ZBuf}
    (hlen : buf.len.toNat + (arrayCode code arr.elems).length < 2 ^ 31 - 16) :
    ∃ w, ztlvPutArray buf arr put = some (.ok true, w) ∧
      Appends buf w (arrayCode code arr.elems) := by
  have htab := tlvTable_length arr.len
  rw [arrayCode_elems] at hlen ⊢
  rw [List.length_append] at hlen
  obtain ⟨buf1, h1, a1⟩ := ztlvPutTableCnt_appends (v := buf) arr.len (by omega)
  have l1 := a1.len
  obtain ⟨w, h2, a2⟩ := ztlvPutArrayLoop_appends harr arr.len.toNat 0 (Nat.zero_add _) buf1
    hcodec (by change _ + (elemsCode code 0 arr.elems).length < _; omega)
  refine ⟨w, ?_, a1.trans a2⟩
  unfold ztlvPutArray zarrayGetlength
  rw [h1, Option.bind_some]
  exact h2

theorem ztlvGetArray_reads {put : ZtlvTypePut} {get : ZtlvTypeGet}
    {code : List UInt8 → List UInt8} {arr : ZArrayList} (hn : arr.len < 0xfffff)
    (hcodec : ∀ e ∈ arr.elems, ReadsBack put get code e) :
    ReadsArray get (arrayCode code arr.elems) arr := by
  intro u r arr' hu harr' hunit hroom
  rw [arrayCode_elems] at hu ⊢
  rw [List.append_assoc] at hu
  have hcnt := ztlvGetTableCnt_of_rest hu.rest (by rw [hu.rest]; exact hu.short)
  obtain ⟨arr1, hset, hok, hlen1, hunit1⟩ := zarraySetlength_ok harr' hn hroom
  have hes : ∀ e ∈ arr.elems, ReadsBack put get code e ∧ e.length = arr1.unitsize.toNat := by
    intro e he
    refine ⟨hcodec e he, ?_⟩
    obtain ⟨j, -, rfl⟩ := List.mem_map.mp he
    rw [ZArrayList.elem_length, hunit1, hunit]
  have hnum := arr.elems_length
  obtain ⟨out, hloop, holen, hout, -⟩ := arrayLoop_reads arr.elems (i := 0) hok hes
    (by rw [hlen1, hnum]; exact Nat.zero_add _) hu.skip
  have hrun : ztlvGetArray u arr' get =
      { ret := .ok true
        buf := (u.skip (tlvTable arr.len).length).skip (elemsCode code 0 arr.elems).length
        arr := out
        lens := [(arr.len, (u.skip (tlvTable arr.len).length).rest.length)] } := by
    rw [hnum] at hloop
    unfold ztlvGetArray
    rw [hcnt]
    dsimp only
    unfold fillArray
    rw [hset]
    dsimp only
    rw [hloop]
  rw [hrun]
  refine ⟨rfl, holen.trans hlen1, ?_, ?_⟩
  · change out.elemsFrom 0 out.len.toNat = _
    rw [holen, hlen1, ← hnum]
    exact hout
  · rw [ZBuf.skip_skip, List.length_append]

/-- The array `arr` is written behind what `buf` holds, and what is written reads back as `arr`. -/
theorem ztlvArray_roundTrip (put : ZtlvTypePut) (get : ZtlvTypeGet)
    (code : List UInt8 → List UInt8) (arr : ZArrayList) (harr : arr.Ok) (hn : arr.len < 0xfffff)
    (hcodec : ∀ e ∈ arr.elems, ReadsBack put get code e) (buf : ZBuf)
    (hlen : buf.len.toNat + (arrayCode code arr.elems).length < 2 ^ 31 - 16) :
    ∃ w, ztlvPutArray buf arr put = some (.ok true, w) ∧
      Appends buf w (arrayCode code arr.elems) ∧
      Unread { w with offset := buf.len } (arrayCode code arr.elems) ∧
      ReadsArray get (arrayCode code arr.elems) arr := by
  obtain ⟨w, hput, happ⟩ := ztlvPutArray_appends harr hcodec hlen
  have hl := happ.len
  refine ⟨w, hput, happ, ⟨?_, happ.rest, ?_⟩, ztlvGetArray_reads hn hcodec⟩
  · exact UInt32.le_iff_toNat_le.mpr (by dsimp only; omega)
  · omega

/-- `ztlv_put_bool` for an element of one byte. -/
def putBoolElem : ZtlvTypePut := fun buf m => (ztlvPutBool buf (m 0 != 0)).map (true, ·)

/-- `ztlv_get_bool` for an element of one byte. -/
def getBoolElem : ZtlvTypeGet := fun buf m =>
  match ztlvGetBool buf with
  | (none, buf) => (false, m, buf)
  | (some b, buf) => (true, m.copy 0 [b.toUInt8], buf)

/-- The byte of an element on the wire. -/
def boolCode (e : List UInt8) : List UInt8 := [if e != [0] then ZTLV_TRUE else ZTLV_FALSE]

theorem boolElem_readsBack (b : Bool) :
    ReadsBack putBoolElem getBoolElem boolCode [b.toUInt8] where
  written := by
    intro buf m hm hlen
    have hcode : boolCode [b.toUInt8] = [if b then ZTLV_TRUE else ZTLV_FALSE] := by
      cases b <;> rfl
    have hm0 : m 0 = b.toUInt8 := List.cons.inj hm |>.1
    have hb : (m 0 != 0) = b := by
      rw [hm0]
      cases b <;> rfl
    rw [hcode] at hlen ⊢
    obtain ⟨w, hw, happ⟩ := ztlvPutBool_appends (v := buf) b
      (by rw [List.length_singleton] at hlen; omega)
    refine ⟨w, ?_, happ⟩
    unfold putBoolElem
    rw [hb, hw]
    rfl
  read := by
    intro buf m r h
    refine ⟨m.copy 0 [b.toUInt8], ?_, Mem.slice_copy_self m 0 [b.toUInt8]⟩
    have hrest : buf.rest = (if b then ZTLV_TRUE else ZTLV_FALSE) :: r := by
      rw [h.rest]
      cases b <;> rfl
    unfold getBoolElem
    rw [ztlvGetBool_of_rest hrest]
    rfl

/-- Two elements of one byte. -/
def twoBools : ZArrayList where
  len := 2
  unitsize := 1
  alloced := 2
  step := 5
  data := fun i => if i = 0 then 1 else 0
  block := 2

theorem ztlvArray_roundTrip_bools :
    ∃ w, ztlvPutArray (zcrtBufInit 0 fun _ => 0) twoBools putBoolElem = some (.ok true, w) ∧
      Appends (zcrtBufInit 0 fun _ => 0) w (arrayCode boolCode twoBools.elems) ∧
      Unread { w with offset := 0 } (arrayCode boolCode twoBools.elems) ∧
      ReadsArray getBoolElem (arrayCode boolCode twoBools.elems) twoBools := by
  have hes : twoBools.elems = [[Bool.toUInt8 true], [Bool.toUInt8 false]] := by decide
  refine ztlvArray_roundTrip putBoolElem getBoolElem boolCode twoBools ⟨rfl, by decide, by decide⟩
    (by decide) ?_ (zcrtBufInit 0 fun _ => 0) ?_
  · intro e he
    rw [hes] at he
    rcases List.mem_pair.mp he with rfl | rfl
    · exact boolElem_readsBack true
    · exact boolElem_readsBack false
  · have hcnt := length_encode32 (UInt32.ofNat twoBools.elems.length)
    have h1 := length_encode32 (zcrtZigZagEncode32 (0 + 1 : UInt32).toInt32)
    have h2 := length_encode32 (zcrtZigZagEncode32 (0 + 1 + 1 : UInt32).toInt32)
    rw [hes] at hcnt ⊢
    simp only [arrayCode, elemsCode, tlvTable, tlvInt, boolCode, List.length_append,
      List.length_cons, List.length_nil] at hcnt ⊢
    change 0 + _ < _
    omega

end Zcrt
