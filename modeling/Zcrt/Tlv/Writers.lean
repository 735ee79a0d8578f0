/-
  The buffer along any run of the calls that write single codes: `zcrt_buf_append`,
  `ztlv_put_type`, `ztlv_put_len`, `ztlv_write_var_int` and `ztlv_write_var_int64`. The varint
  writers reserve room for the longest code and store byte by byte.

  * `BufOp.stores`: the bytes a call stores, and where.
  * `BufOp.run_copies`: these stores are what the call does to the memory.
  * `writers_inside`: every store falls inside the block, and the data are what was appended.
-/
import Zcrt.Core.Grow
import Zcrt.Tlv.Value

namespace Zcrt

open Lib

/-- An assignment `target[i] = b`. -/
abbrev Store := Nat × UInt8

/-- The stores made in their order, `target` being at `base`. -/
def applyStores (m : Mem) (base : Nat) : List Store → Mem
  | [] => m
  | (i, b) :: stores => applyStores (Function.update m (base + i) b) base stores

/-- The stores of `memcpy`. -/
def memcpyStores (bs : List UInt8) : List Store := bs.zipIdx.map Prod.swap

/-- The stores of `_zcrt_tlv_write_len`. -/
def zcrtTlvWriteLenStores (value : UInt32) : List Store :=
  let target0 := (value ||| 0x80).toUInt8
  let target1 := (value >>> 7 ||| 0x80).toUInt8
  let target2 := (value >>> 14 ||| 0x80).toUInt8
  let target3 := (value >>> 21 ||| 0x80).toUInt8
  (0, target0) ::
    if value ≥ (1 : UInt32) <<< 7 then
      (1, target1) ::
        if value ≥ (1 : UInt32) <<< 14 then
          (2, target2) ::
            if value ≥ (1 : UInt32) <<< 21 then
              (3, target3) ::
                if value ≥ (1 : UInt32) <<< 28 then [(4, (value >>> 28).toUInt8)]
                else [(3, target3 &&& 0x7F)]
            else [(2, target2 &&& 0x7F)]
        else [(1, target1 &&& 0x7F)]
    else [(0, target0 &&& 0x7F)]

/-- The stores of `zcdr_WriteLEN64`: from the label `size` down to `size1`, and the last byte once
    more. -/
def zcdrWriteLEN64Stores (value : UInt64) : List Store :=
  let part0 := value.toUInt32
  let part1 := (value >>> 28).toUInt32
  let part2 := (value >>> 56).toUInt32
  let size := zcdrSize part0 part1 part2
  let target :=
    [(part0 ||| 0x80).toUInt8, (part0 >>> 7 ||| 0x80).toUInt8,
      (part0 >>> 14 ||| 0x80).toUInt8, (part0 >>> 21 ||| 0x80).toUInt8,
      (part1 ||| 0x80).toUInt8, (part1 >>> 7 ||| 0x80).toUInt8,
      (part1 >>> 14 ||| 0x80).toUInt8, (part1 >>> 21 ||| 0x80).toUInt8,
      (part2 ||| 0x80).toUInt8, (part2 >>> 7 ||| 0x80).toUInt8]
  (memcpyStores (target.take size)).reverse ++ [(size - 1, target.getD (size - 1) 0 &&& 0x7F)]

/-! ## Stores and copies -/

theorem applyStores_append (m : Mem) (base : Nat) (a b : List Store) :
    applyStores m base (a ++ b) = applyStores (applyStores m base a) base b := by
  induction a generalizing m with
  | nil => rfl
  | cons s a ih => exact ih _

/-- A byte nothing is stored to. -/
theorem applyStores_outside {m : Mem} {base j : Nat} {stores : List Store}
    (h : ∀ s ∈ stores, base + s.1 ≠ j) : applyStores m base stores j = m j := by
  induction stores generalizing m with
  | nil => rfl
  | cons s stores ih =>
      obtain ⟨i, b⟩ := s
      rw [applyStores, ih fun s hs => h s (List.mem_cons_of_mem _ hs)]
      exact Function.update_of_ne (h _ List.mem_cons_self).symm ..

/-- A byte stored to once. -/
theorem applyStores_inside {m : Mem} {base i : Nat} {b : UInt8} {stores : List Store}
    (hmem : (i, b) ∈ stores) (hnodup : (stores.map Prod.fst).Nodup) :
    applyStores m base stores (base + i) = b := by
  induction stores generalizing m with
  | nil => exact absurd hmem List.not_mem_nil
  | cons s stores ih =>
      rw [List.map_cons, List.nodup_cons] at hnodup
      rcases List.mem_cons.mp hmem with rfl | hmem
      · rw [applyStores, applyStores_outside, Function.update_self]
        intro s hs he
        have hi : s.1 = i := by omega
        exact hnodup.1 (List.mem_map.mpr ⟨s, hs, hi⟩)
      · exact ih hmem hnodup.2

theorem memcpyStores_fst (bs : List UInt8) :
    (memcpyStores bs).map Prod.fst = List.range bs.length := by
  unfold memcpyStores
  rw [List.map_map]
  change bs.zipIdx.map Prod.snd = _
  rw [List.zipIdx_map_snd, List.range_eq_range']

theorem mem_memcpyStores {bs : List UInt8} {i : Nat} {b : UInt8} :
    (i, b) ∈ memcpyStores bs ↔ bs[i]? = some b := by
  unfold memcpyStores
  rw [List.mem_map]
  constructor
  · rintro ⟨⟨b', i'⟩, hm, he⟩
    obtain ⟨rfl, rfl⟩ := Prod.mk.inj he
    exact List.mk_mem_zipIdx_iff_getElem?.mp hm
  · intro h
    exact ⟨(b, i), List.mk_mem_zipIdx_iff_getElem?.mpr h, rfl⟩

/-- Each byte stored once, in any order, is a copy. -/
theorem applyStores_perm {stores : List Store} {bs : List UInt8}
    (h : stores.Perm (memcpyStores bs)) (m : Mem) (base : Nat) :
    applyStores m base stores = m.copy base bs := by
  have hfst : (stores.map Prod.fst).Perm (List.range bs.length) := by
    rw [← memcpyStores_fst]
    exact h.map Prod.fst
  have hnodup := hfst.nodup_iff.mpr List.nodup_range
  funext j
  by_cases hj : base ≤ j ∧ j < base + bs.length
  · obtain ⟨i, rfl⟩ := Nat.exists_eq_add_of_le hj.1
    have hi : i < bs.length := by omega
    rw [Mem.copy_inside hi]
    exact applyStores_inside (h.mem_iff.mpr (mem_memcpyStores.mpr (List.getElem?_eq_getElem hi)))
      hnodup
  · rw [Mem.copy_of_outside (by omega)]
    refine applyStores_outside fun s hs he => ?_
    have := List.mem_range.mp (hfst.mem_iff.mp (List.mem_map_of_mem hs))
    omega

/-- The last byte stored once more. -/
theorem copy_modify (m : Mem) (base : Nat) {bs : List UInt8} {k : Nat} (hk : k < bs.length)
    (f : UInt8 → UInt8) :
    Function.update (m.copy base bs) (base + k) (f bs[k]) = m.copy base (bs.modify k f) := by
  funext j
  by_cases hj : base ≤ j ∧ j < base + bs.length
  · obtain ⟨i, rfl⟩ := Nat.exists_eq_add_of_le hj.1
    have hi : i < bs.length := by omega
    rw [Mem.copy_inside (show i < (bs.modify k f).length by rw [List.length_modify]; exact hi),
      List.getElem_modify]
    by_cases hik : k = i
    · subst hik
      rw [Function.update_self, if_pos rfl]
    · rw [Function.update_of_ne (by omega), Mem.copy_inside hi, if_neg hik]
  · rw [Function.update_of_ne (by omega), Mem.copy_of_outside (by omega),
      Mem.copy_of_outside (by rw [List.length_modify]; omega)]

/-- Each byte stored once, and byte `k` then without its continuation bit. -/
theorem applyStores_masked {stores : List Store} {bs : List UInt8}
    (h : stores.Perm (memcpyStores bs)) {k : Nat} (hk : k < bs.length) (m : Mem) (base : Nat) :
    applyStores m base (stores ++ [(k, bs[k] &&& 0x7F)]) =
      m.copy base (bs.modify k (· &&& 0x7F)) := by
  rw [applyStores_append, applyStores_perm h]
  exact copy_modify m base hk (· &&& 0x7F)

theorem memcpyStores_lt (bs : List UInt8) : ∀ s ∈ memcpyStores bs, s.1 < bs.length := by
  intro s h
  have := List.mem_map_of_mem (f := Prod.fst) h
  rw [memcpyStores_fst] at this
  exact List.mem_range.mp this

/-! ## The two varint writers -/

theorem zcrtTlvWriteLen_stores (value : UInt32) (m : Mem) (base : Nat) :
    applyStores m base (zcrtTlvWriteLenStores value) = m.copy base (zcrtTlvWriteLen value) := by
  unfold zcrtTlvWriteLenStores zcrtTlvWriteLen
  dsimp only
  split_ifs
  · exact applyStores_perm (List.Perm.refl (memcpyStores [_, _, _, _, _])) m base
  · exact applyStores_masked (List.Perm.refl (memcpyStores [_, _, _, _])) (k := 3) (by simp) m base
  · exact applyStores_masked (List.Perm.refl (memcpyStores [_, _, _])) (k := 2) (by simp) m base
  · exact applyStores_masked (List.Perm.refl (memcpyStores [_, _])) (k := 1) (by simp) m base
  · exact applyStores_masked (List.Perm.refl (memcpyStores [_])) (k := 0) (by simp) m base

theorem zcrtTlvWriteLen_lt (value : UInt32) :
    ∀ s ∈ zcrtTlvWriteLenStores value, s.1 < (zcrtTlvWriteLen value).length := by
  unfold zcrtTlvWriteLenStores zcrtTlvWriteLen
  dsimp only
  split_ifs <;> simp

theorem zcdrSize_bounds (part0 part1 part2 : UInt32) :
    1 ≤ zcdrSize part0 part1 part2 ∧ zcdrSize part0 part1 part2 ≤ 10 := by
  unfold zcdrSize
  split_ifs <;> decide

theorem zcdrWriteLEN64_stores (value : UInt64) (m : Mem) (base : Nat) :
    applyStores m base (zcdrWriteLEN64Stores value) = m.copy base (zcdrWriteLEN64 value) := by
  unfold zcdrWriteLEN64Stores zcdrWriteLEN64
  dsimp only
  obtain ⟨hpos, hle⟩ := zcdrSize_bounds value.toUInt32 (value >>> 28).toUInt32
    (value >>> 56).toUInt32
  generalize zcdrSize value.toUInt32 (value >>> 28).toUInt32 (value >>> 56).toUInt32 = size at *
  generalize htarget : [_, _, _, _, _, _, _, _, _, _] = target
  have hlen : target.length = 10 := by rw [← htarget]; rfl
  have hk : size - 1 < (target.take size).length := by
    rw [List.length_take]
    omega
  have hlast : target.getD (size - 1) 0 = (target.take size)[size - 1] := by
    rw [List.getElem_take, List.getD_eq_getElem _ _ (by omega)]
  rw [hlast]
  exact applyStores_masked (List.reverse_perm _) hk m base

theorem zcdrWriteLEN64_lt (value : UInt64) :
    ∀ s ∈ zcdrWriteLEN64Stores value, s.1 < (zcdrWriteLEN64 value).length := by
  intro s h
  obtain ⟨hpos, hle⟩ := zcdrSize_bounds value.toUInt32 (value >>> 28).toUInt32
    (value >>> 56).toUInt32
  unfold zcdrWriteLEN64Stores at h
  unfold zcdrWriteLEN64
  dsimp only at h ⊢
  rw [List.length_modify]
  rcases List.mem_append.mp h with h | h
  · exact memcpyStores_lt _ s (List.mem_reverse.mp h)
  · rw [List.mem_singleton.mp h, List.length_take]
    simp only [List.length_cons, List.length_nil]
    omega

/-! ## Any run -/

/-- `zcrt_buf_append` is a code written with just the room it takes. -/
theorem zcrtBufAppend_code {v : ZBuf} {bs : List UInt8} (h : bs ≠ []) :
    zcrtBufAppend v bs = appendCode v (UInt32.ofNat bs.length) bs := by
  rw [zcrtBufAppend_eq h]
  unfold appendCode
  cases hw : zcrtBufRealloc v (v.len + UInt32.ofNat bs.length) with
  | none => rfl
  | some w => rw [Option.map_some, Option.map_some, (zcrtBufRealloc_same hw).len]

/-- The data end inside `maxlen`, and this inside the block. -/
structure ZBuf.Ok (v : ZBuf) : Prop where
  len : v.len.toNat ≤ v.maxlen.toNat
  maxlen : v.maxlen.toNat ≤ v.alloc

theorem zcrtBufInit_ok (size : UInt32) (mem : Mem) : (zcrtBufInit size mem).Ok :=
  ⟨Nat.zero_le _, Nat.le_refl _⟩

/-- What the writers find after `zcrt_buf_realloc`. -/
theorem zcrtBufRealloc_room {v : ZBuf} (hv : v.Ok) {len : UInt32} (h : len.toNat < 2 ^ 31 - 1) :
    ∃ w, zcrtBufRealloc v len = some w ∧ SameContent v w ∧ len.toNat ≤ w.maxlen.toNat ∧
      w.maxlen.toNat ≤ w.alloc := by
  by_cases hmax : v.maxlen < len
  · obtain ⟨cap, -, hlt, hrun⟩ := zcrtBufRealloc_grows hmax h
    exact ⟨_, hrun, zcrtBufRealloc_same hrun, Nat.le_refl _, Nat.le_of_lt hlt⟩
  · have hle := UInt32.not_lt.mp hmax
    have hrun := zcrtBufRealloc_fits hle
    exact ⟨v, hrun, zcrtBufRealloc_same hrun, UInt32.le_iff_toNat_le.mp hle, hv.maxlen⟩

/-- A code written with room for it. -/
theorem appendCode_ok {v : ZBuf} (hv : v.Ok) {room : UInt32} {code : List UInt8}
    (hcode : code.length ≤ room.toNat) (h : v.len.toNat + room.toNat < 2 ^ 31 - 1) :
    ∃ v', appendCode v room code = some v' ∧ v'.Ok ∧ Appends v v' code ∧
      v'.buf = v.buf.copy v.len.toNat code ∧ v.len.toNat + code.length ≤ v'.alloc := by
  have hroom : (v.len + room).toNat = v.len.toNat + room.toNat := by
    rw [UInt32.toNat_add]
    omega
  obtain ⟨w, hw, hsame, hlen, hmax⟩ := zcrtBufRealloc_room hv
    (show (v.len + room).toNat < 2 ^ 31 - 1 by rw [hroom]; exact h)
  have hrun : appendCode v room code =
      some { w with buf := w.buf.copy w.len.toNat code
                    len := w.len + UInt32.ofNat code.length } := by
    unfold appendCode
    rw [hw]
    rfl
  have happ := appends_of_code hrun (by omega)
  have hl := happ.len
  rw [hroom] at hlen
  refine ⟨_, hrun, ⟨by rw [hl]; dsimp only; omega, hmax⟩, happ, ?_, by dsimp only; omega⟩
  rw [hsame.len, hsame.buf]

/-- A call that writes; the buffer is not `NULL`. -/
inductive BufOp
  | append (bs : List UInt8)
  | putType (ty : UInt8)
  | putLen (len : UInt32)
  | writeVarInt (value : Int32)
  | writeVarInt64 (value : Int64)

namespace BufOp

def run (v : ZBuf) : BufOp → Option ZBuf
  | append bs => zcrtBufAppend v bs
  | putType ty => ztlvPutType v ty
  | putLen len => ztlvPutLen v len
  | writeVarInt value => ztlvWriteVarInt v value
  | writeVarInt64 value => ztlvWriteVarInt64 v value

/-- What the call appends. -/
def code : BufOp → List UInt8
  | append bs => bs
  | putType ty => [ty]
  | putLen len => zcrtTlvWriteLen len
  | writeVarInt value => zcrtTlvWriteLen (zcrtZigZagEncode32 value)
  | writeVarInt64 value => zcdrWriteLEN64 (zcdrEncode64 value)

/-- The stores of the call, counted from `v->buf+v->len`. -/
def stores : BufOp → List Store
  | append bs => memcpyStores bs
  | putType ty => memcpyStores [ty]
  | putLen len => zcrtTlvWriteLenStores len
  | writeVarInt value => zcrtTlvWriteLenStores (zcrtZigZagEncode32 value)
  | writeVarInt64 value => zcdrWriteLEN64Stores (zcdrEncode64 value)

theorem stores_lt (op : BufOp) : ∀ s ∈ op.stores, s.1 < op.code.length := by
  cases op with
  | append bs => exact memcpyStores_lt bs
  | putType ty => exact memcpyStores_lt [ty]
  | putLen len => exact zcrtTlvWriteLen_lt len
  | writeVarInt value => exact zcrtTlvWriteLen_lt _
  | writeVarInt64 value => exact zcdrWriteLEN64_lt _

theorem stores_copy (op : BufOp) (m : Mem) (base : Nat) :
    applyStores m base op.stores = m.copy base op.code := by
  cases op with
  | append bs => exact applyStores_perm (List.Perm.refl _) m base
  | putType ty => exact applyStores_perm (List.Perm.refl _) m base
  | putLen len => exact zcrtTlvWriteLen_stores len m base
  | writeVarInt value => exact zcrtTlvWriteLen_stores _ m base
  | writeVarInt64 value => exact zcdrWriteLEN64_stores _ m base

/-- Every call is one `appendCode`, with at most ten bytes of room too many. -/
theorem run_eq (op : BufOp) (v : ZBuf) (h : op.code.length < 2 ^ 31) :
    op.code = [] ∧ op.run v = some v ∨
      ∃ room : UInt32, op.code.length ≤ room.toNat ∧ room.toNat ≤ op.code.length + 10 ∧
        op.run v = appendCode v room op.code := by
  cases op with
  | append bs =>
      by_cases hbs : bs = []
      · subst hbs
        exact Or.inl ⟨rfl, rfl⟩
      · have hroom : (UInt32.ofNat bs.length).toNat = bs.length := by
          rw [UInt32.toNat_ofNat']
          change bs.length < _ at h
          omega
        refine Or.inr ⟨UInt32.ofNat bs.length, hroom.ge, ?_, zcrtBufAppend_code hbs⟩
        rw [hroom]
        exact Nat.le_add_right ..
  | putType ty =>
      have hcode : ztlvPutType v ty = appendCode v 1 [ty] :=
        zcrtBufAppend_code (List.cons_ne_nil ty [])
      exact Or.inr ⟨1, Nat.le_refl _, (show 1 ≤ _ + 10 by omega), hcode⟩
  | putLen len =>
      exact Or.inr ⟨5, length_code32 len, (show 5 ≤ _ + 10 by omega), rfl⟩
  | writeVarInt value =>
      exact Or.inr ⟨5, length_code32 _, (show 5 ≤ _ + 10 by omega), rfl⟩
  | writeVarInt64 value =>
      exact Or.inr ⟨10, length_code64 _, (show 10 ≤ _ + 10 by omega), rfl⟩

/-- A call keeps the sizes in their order and stores inside the block. -/
theorem run_ok (op : BufOp) {v : ZBuf} (hv : v.Ok)
    (h : v.len.toNat + op.code.length < 2 ^ 31 - 16) :
    ∃ v', op.run v = some v' ∧ v'.Ok ∧ Appends v v' op.code ∧
      v'.buf = applyStores v.buf v.len.toNat op.stores ∧
      ∀ s ∈ op.stores, v.len.toNat + s.1 < v'.alloc := by
  have hcopy := op.stores_copy v.buf v.len.toNat
  rcases op.run_eq v (by omega) with ⟨hnil, hrun⟩ | ⟨room, hle, hmost, hrun⟩
  · rw [hnil] at hcopy ⊢
    refine ⟨v, hrun, hv, Appends.refl v, ?_, fun s hs => ?_⟩
    · rw [hcopy]
      funext j
      exact (Mem.copy_of_outside (by simp; omega)).symm
    · have := op.stores_lt s hs
      rw [hnil] at this
      exact absurd this (Nat.not_lt_zero _)
  · obtain ⟨v', hv', hok, happ, hbuf, halloc⟩ := appendCode_ok hv hle (by omega)
    refine ⟨v', hrun.trans hv', hok, happ, hbuf.trans hcopy.symm, fun s hs => ?_⟩
    have := op.stores_lt s hs
    omega

/-- The calls in their order. -/
def runAll : ZBuf → List BufOp → Option ZBuf
  | v, [] => some v
  | v, op :: ops => (op.run v).bind (runAll · ops)

/-- What they append together. -/
def codes (ops : List BufOp) : List UInt8 := ops.flatMap code

theorem runAll_ok (ops : List BufOp) {v : ZBuf} (hv : v.Ok)
    (h : v.len.toNat + (codes ops).length < 2 ^ 31 - 16) :
    ∃ v', runAll v ops = some v' ∧ v'.Ok ∧ Appends v v' (codes ops) := by
  induction ops generalizing v with
  | nil => exact ⟨v, rfl, hv, Appends.refl v⟩
  | cons op ops ih =>
      have hcodes : codes (op :: ops) = op.code ++ codes ops := rfl
      rw [hcodes, List.length_append] at h
      obtain ⟨v1, hrun, hok, happ, -⟩ := op.run_ok hv (by omega)
      obtain ⟨v', hrun', hok', happ'⟩ := ih hok (by rw [happ.len]; omega)
      refine ⟨v', ?_, hok', happ.trans happ'⟩
      rw [runAll, hrun]
      exact hrun'

end BufOp

/-- In every run from `zcrt_buf_init`: `ops` is what was called before, `op` the next call. -/
theorem writers_inside (size : UInt32) (mem : Mem) (ops : List BufOp) (op : BufOp)
    (h : (BufOp.codes (ops ++ [op])).length < 2 ^ 31 - 16) :
    ∃ v v', BufOp.runAll (zcrtBufInit size mem) ops = some v ∧ op.run v = some v' ∧
      v.Ok ∧ v'.Ok ∧
      v'.buf = applyStores v.buf v.len.toNat op.stores ∧
      (∀ s ∈ op.stores, v.len.toNat + s.1 < v'.alloc) ∧
      (∀ i, i < v.len.toNat → v'.buf i = v.buf i) ∧
      v.bytes = BufOp.codes ops ∧ v'.bytes = BufOp.codes (ops ++ [op]) := by
  have hcodes : BufOp.codes (ops ++ [op]) = BufOp.codes ops ++ op.code := by
    simp [BufOp.codes]
  rw [hcodes, List.length_append] at h
  have hzero : (zcrtBufInit size mem).len.toNat = 0 := rfl
  have hempty : (zcrtBufInit size mem).bytes = [] := rfl
  obtain ⟨v, hrun, hok, happ⟩ := BufOp.runAll_ok ops (zcrtBufInit_ok size mem)
    (by rw [hzero]; omega)
  have hlen := happ.len
  obtain ⟨v', hrun', hok', happ', hbuf, hin⟩ := op.run_ok hok (by omega)
  have hbytes : v.bytes = BufOp.codes ops := by rw [happ.bytes, hempty, List.nil_append]
  refine ⟨v, v', hrun, hrun', hok, hok', hbuf, hin, fun i hi => ?_, hbytes, ?_⟩
  · rw [hbuf]
    exact applyStores_outside fun s _ => by omega
  · rw [happ'.bytes, hbytes, hcodes]

/-- A type byte behind a length in a buffer that had no block. -/
theorem writers_inside_two :
    ∃ v v', BufOp.runAll (zcrtBufInit 0 fun _ => 0) [.putLen 300] = some v ∧
      (BufOp.putType 4).run v = some v' ∧ v.Ok ∧ v'.Ok ∧
      v'.buf = applyStores v.buf v.len.toNat (BufOp.putType 4).stores ∧
      (∀ s ∈ (BufOp.putType 4).stores, v.len.toNat + s.1 < v'.alloc) ∧
      (∀ i, i < v.len.toNat → v'.buf i = v.buf i) ∧
      v.bytes = BufOp.codes [.putLen 300] ∧ v'.bytes = BufOp.codes [.putLen 300, .putType 4] :=
  writers_inside 0 (fun _ => 0) [.putLen 300] (.putType 4) (by decide)

end Zcrt
