/-
  The subscriptions through which one callback is called for one client, and a loop that is to take
  all of them out: one removal for each event id from 1 on.

  * `cbSubs`: the subscriptions with this `fn` and `p1`.
  * `NoNew`: what the calls of others do to them.
  * `Clearing`: what holds halfway, if there was at most one for each event.
  * `clearing_unregister`: one removal.
-/
import Zcrt.Ipc.Clients

namespace Zcrt

open Lib

section Lists

variable {G P : Type} [DecidableEq G] [DecidableEq P]

/-- The subscriptions with this callback and first argument. -/
def cbSubs (cb : G) (p1 : P) (l : List (ZEventCB G P)) : List (ZEventCB G P) :=
  l.filter fun x => x.fn = some cb ∧ x.p1 = p1

variable {cb : G} {c p1 p2 : P} {l l' : List (ZEventCB G P)} {x : ZEventCB G P}

theorem mem_cbSubs : x ∈ cbSubs cb c l ↔ x ∈ l ∧ x.fn = some cb ∧ x.p1 = c := by
  unfold cbSubs
  rw [List.mem_filter, decide_eq_true_eq]

theorem cbSubs_eq_nil : cbSubs cb c l = [] ↔ ∀ x ∈ l, ¬(x.fn = some cb ∧ x.p1 = c) := by
  rw [List.eq_nil_iff_forall_not_mem]
  exact ⟨fun h x hx hq => h x (mem_cbSubs.mpr ⟨hx, hq⟩), fun h x hx =>
    h x (mem_cbSubs.mp hx).1 (mem_cbSubs.mp hx).2⟩

theorem cbSubs_eraseP (sub : ZEventCB G P → Bool) :
    (cbSubs cb c (l.eraseP sub)).Sublist (cbSubs cb c l) :=
  List.eraseP_sublist.filter _

theorem cbSubs_insertCb_of_not (priority : UInt8) (h : ¬(x.fn = some cb ∧ x.p1 = c)) :
    cbSubs cb c (insertCb priority x l) = cbSubs cb c l := by
  have hl := List.takeWhile_append_dropWhile (p := fun y : ZEventCB G P => y.pri ≥ priority)
    (l := l)
  unfold cbSubs insertCb
  rw [List.filter_append, List.filter_cons, if_neg fun hx => h (of_decide_eq_true hx),
    ← List.filter_append, hl]

/-- A removal for another first argument. -/
theorem cbSubs_eraseP_of_ne (hne : p1 ≠ c) (fn : Option G) :
    cbSubs cb c (l.eraseP (ZEventCB.isSub fn p1 p2)) = cbSubs cb c l := by
  refine filter_eraseP_of_not fun x hx hq => ?_
  have hx : x.fn = fn ∧ x.p1 = p1 ∧ x.p2 = p2 := of_decide_eq_true hx
  have hq := of_decide_eq_true hq
  exact hne (hx.2.1.symm.trans hq.2)

omit [DecidableEq G] [DecidableEq P] in
theorem mem_insertCb {priority : UInt8} {y : ZEventCB G P} :
    y ∈ insertCb priority x l ↔ y = x ∨ y ∈ l := by
  have hl := List.takeWhile_append_dropWhile (p := fun y : ZEventCB G P => y.pri ≥ priority)
    (l := l)
  unfold insertCb
  conv_rhs => rw [← hl]
  rw [List.mem_append, List.mem_cons, List.mem_append]
  exact or_left_comm

/-- One removal empties it. -/
def Removable (p2 : P) (l : List (ZEventCB G P)) : Prop := l.length ≤ 1 ∧ ∀ x ∈ l, x.p2 = p2

omit [DecidableEq G] [DecidableEq P] in
theorem Removable.sublist (h : Removable p2 l) (hs : l'.Sublist l) : Removable p2 l' :=
  ⟨hs.length_le.trans h.1, fun x hx => h.2 x (hs.subset hx)⟩

omit [DecidableEq G] [DecidableEq P] in
theorem Removable.nil : Removable p2 ([] : List (ZEventCB G P)) :=
  ⟨Nat.zero_le _, fun _ hx => absurd hx List.not_mem_nil⟩

theorem cbSubs_eraseP_eq_nil (h : Removable p2 (cbSubs cb c l)) :
    cbSubs cb c (l.eraseP (ZEventCB.isSub (some cb) c p2)) = [] := by
  have hcomm : cbSubs cb c (l.eraseP (ZEventCB.isSub (some cb) c p2)) =
      (cbSubs cb c l).eraseP (ZEventCB.isSub (some cb) c p2) := by
    refine filter_eraseP_of_imp fun x hx => decide_eq_true ?_
    have hx := of_decide_eq_true hx
    exact ⟨hx.1, hx.2.1⟩
  rw [hcomm]
  cases hl : cbSubs cb c l with
  | nil => rfl
  | cons x r =>
      have hx : x ∈ cbSubs cb c l := hl ▸ List.mem_cons_self
      have hr : r = [] := by
        have hlen := h.1
        rw [hl, List.length_cons] at hlen
        exact List.length_eq_zero_iff.mp (by omega)
      have hsub : ZEventCB.isSub (some cb) c p2 x = true :=
        decide_eq_true ⟨(mem_cbSubs.mp hx).2.1, (mem_cbSubs.mp hx).2.2, h.2 x hx⟩
      rw [List.eraseP_cons_of_pos hsub, hr]

end Lists

theorem one_le_of_ne_zero {e : UInt32} (h : e ≠ 0) : 1 ≤ e := by
  rw [UInt32.le_iff_toNat_le]
  exact Nat.one_le_iff_ne_zero.mpr fun he => h (UInt32.toNat_inj.mp he)

section Calls

variable {G P : Type} [DecidableEq G] [DecidableEq P] {cb : G} {c p1 p2 : P}
  {mng mng' : ZEvent G P}

/-- No list has more of them, and none that was not there. -/
def NoNew (cb : G) (c : P) (mng mng' : ZEvent G P) : Prop :=
  ∀ e, (cbSubs cb c (mng'.evtlist e)).Sublist (cbSubs cb c (mng.evtlist e))

/-- The call registers this callback. -/
def EvtOp.registers (cb : G) : EvtOp G P → Bool
  | .register _ _ _ fn _ _ => fn = some cb
  | .registerEx _ _ _ _ fn _ _ => fn = some cb
  | .unregister .. => false

theorem noNew_of_lists {e0 : UInt32} {l : List (ZEventCB G P)}
    (h : (∀ e, mng'.evtlist e = mng.evtlist e) ∨
      mng'.evtlist e0 = l ∧ ∀ e, e ≠ e0 → mng'.evtlist e = mng.evtlist e)
    (hl : (cbSubs cb c l).Sublist (cbSubs cb c (mng.evtlist e0))) : NoNew cb c mng mng' := by
  intro e
  rcases h with hsame | ⟨h0, hother⟩
  · rw [hsame e]
  · by_cases he : e = e0
    · rw [he, h0]
      exact hl
    · rw [hother e he]

/-- A call that does not register the callback. -/
theorem execList_noNew {op : EvtOp G P} (hop : op.registers cb = false)
    {evtMng' : Option (ZEvent G P)} (h : op.execList (some mng) = some evtMng') :
    ∃ mng', evtMng' = some mng' ∧ mng'.lastEvtid = mng.lastEvtid ∧ NoNew cb c mng mng' := by
  have hins : ∀ (job : ZEventCB G P) (l : List (ZEventCB G P)), decide (job.fn = some cb) = false →
      (cbSubs cb c (insertCb job.pri job l)).Sublist (cbSubs cb c l) := by
    intro job l hfn
    rw [cbSubs_insertCb_of_not job.pri fun hq => of_decide_eq_false hfn hq.1]
  cases op with
  | register mem priority evtid fn p1 p2 =>
      obtain ⟨⟨ret, evtMng1⟩, hr, rfl⟩ := Option.map_eq_some_iff.mp h
      obtain ⟨mng1, rfl, hlast, hlists⟩ := register_cases hr
      exact ⟨mng1, rfl, hlast, noNew_of_lists hlists (hins ⟨fn, priority, .evtAll, p1, p2⟩ _ hop)⟩
  | registerEx mem priority evtid evtType fn p1 p2 =>
      obtain ⟨⟨ret, evtMng1⟩, hr, rfl⟩ := Option.map_eq_some_iff.mp h
      obtain ⟨mng1, rfl, hlast, hlists⟩ := register_cases hr
      exact ⟨mng1, rfl, hlast, noNew_of_lists hlists (hins ⟨fn, priority, evtType, p1, p2⟩ _ hop)⟩
  | unregister evtid fn p1 p2 =>
      obtain ⟨mng1, rfl, hlast, hlists⟩ := unregister_cases h
      exact ⟨mng1, rfl, hlast, noNew_of_lists hlists (cbSubs_eraseP _)⟩

/-- What a request adds. -/
theorem LinkOp.mem_on_cbSubs (op : LinkOp) {e : UInt32} {l : List (ZEventCB G P)}
    {x : ZEventCB G P} (hx : x ∈ cbSubs cb c (op.on cb p1 p2 e l)) :
    x ∈ cbSubs cb c l ∨ op = .hook e ∧ p1 = c ∧ x.p2 = p2 := by
  obtain ⟨hx, hq⟩ := mem_cbSubs.mp hx
  cases op with
  | hook evtid =>
      unfold LinkOp.on at hx
      dsimp only at hx
      split at hx
      · rename_i he
        rcases mem_insertCb.mp hx with rfl | hx
        · exact Or.inr ⟨he ▸ rfl, hq.2, rfl⟩
        · exact Or.inl (mem_cbSubs.mpr ⟨hx, hq⟩)
      · exact Or.inl (mem_cbSubs.mpr ⟨hx, hq⟩)
  | unhook evtid =>
      unfold LinkOp.on at hx
      dsimp only at hx
      split at hx
      · exact Or.inl (mem_cbSubs.mpr ⟨List.eraseP_sublist.subset hx, hq⟩)
      · exact Or.inl (mem_cbSubs.mpr ⟨hx, hq⟩)
  | nothing => exact Or.inl (mem_cbSubs.mpr ⟨hx, hq⟩)

/-- A request of another client. -/
theorem LinkOp.Does.cbSubs_of_ne {op : LinkOp} (h : op.Does cb p1 p2 mng mng') (hne : p1 ≠ c)
    (e : UInt32) : cbSubs cb c (mng'.evtlist e) = cbSubs cb c (mng.evtlist e) := by
  rw [h.2 e]
  cases op with
  | hook evtid =>
      unfold LinkOp.on
      dsimp only
      split
      · exact cbSubs_insertCb_of_not 10 fun hq => hne hq.2
      · rfl
  | unhook evtid =>
      unfold LinkOp.on
      dsimp only
      split
      · exact cbSubs_eraseP_of_ne hne _
      · rfl
  | nothing => rfl

theorem LinkOp.Does.noNew {op : LinkOp} (h : op.Does cb p1 p2 mng mng') (hne : p1 ≠ c) :
    NoNew cb c mng mng' := by
  intro e
  rw [h.cbSubs_of_ne hne e]

variable (cb) in
/-- A removal for another client. -/
theorem unregister_cbSubs_of_ne {evtid : UInt32} {fn : Option G} {evtMng' : Option (ZEvent G P)}
    (h : zcrtEventUnregister (some mng) evtid fn p1 p2 = some evtMng') (hne : p1 ≠ c) :
    ∃ mng', evtMng' = some mng' ∧
      ∀ e, cbSubs cb c (mng'.evtlist e) = cbSubs cb c (mng.evtlist e) := by
  obtain ⟨mng', hmng, -, hlists⟩ := unregister_cases h
  refine ⟨mng', hmng, fun e => ?_⟩
  rcases hlists with hsame | ⟨h0, hother⟩
  · rw [hsame e]
  · by_cases he : e = evtid
    · rw [he, h0]
      exact cbSubs_eraseP_of_ne hne _
    · rw [hother e he]

/-! ## The loop -/

/-- Before the removal for event `i`: the lists of the events before it are done. -/
def Clearing (cb : G) (c p2 : P) (i : UInt32) (mng : ZEvent G P) : Prop :=
  ∀ e, Removable p2 (cbSubs cb c (mng.evtlist e)) ∧
    (¬(i ≤ e ∧ e < ZCRT_MAX_EVT) → cbSubs cb c (mng.evtlist e) = [])

theorem Clearing.noNew {i : UInt32} (h : Clearing cb c p2 i mng) (hn : NoNew cb c mng mng') :
    Clearing cb c p2 i mng' := fun e =>
  ⟨(h e).1.sublist (hn e), fun he => List.sublist_nil.mp ((h e).2 he ▸ hn e)⟩

theorem Clearing.all {i : UInt32} (h : Clearing cb c p2 i mng) (hi : ¬i < ZCRT_MAX_EVT)
    (e : UInt32) : cbSubs cb c (mng.evtlist e) = [] :=
  (h e).2 fun ⟨hle, hlt⟩ => hi (UInt32.lt_of_le_of_lt hle hlt)

/-- The removal for event `i`. -/
theorem clearing_unregister {i : UInt32} (h : Clearing cb c p2 i mng) (hi : i < ZCRT_MAX_EVT)
    {evtMng' : Option (ZEvent G P)}
    (hu : zcrtEventUnregister (some mng) i (some cb) c p2 = some evtMng') :
    ∃ mng', evtMng' = some mng' ∧ mng'.lastEvtid = mng.lastEvtid ∧
      Clearing cb c p2 (i + 1) mng' := by
  have hlast : mng.lastEvtid ≠ i := by
    intro hlast
    unfold zcrtEventUnregister at hu
    dsimp only at hu
    rw [if_neg (not_or.mpr ⟨UInt32.not_le.mpr hi, by simp⟩), if_pos hlast] at hu
    exact nomatch hu
  obtain ⟨mng1, hun, hl, hother, hlast'⟩ :=
    zcrtEventUnregister_some hi (Option.some_ne_none cb) hlast c p2
  refine ⟨mng1, Option.some.inj (hu.symm.trans hun), hlast', fun e => ?_⟩
  by_cases he : e = i
  · rw [he, hl, cbSubs_eraseP_eq_nil (h i).1]
    exact ⟨Removable.nil, fun _ => rfl⟩
  · rw [hother e he]
    refine ⟨(h e).1, fun hout => (h e).2 fun ⟨hle, hlt⟩ => hout ⟨?_, hlt⟩⟩
    -- `i + 1` does not wrap, for `i` is an event id
    have hlt' : i < e := UInt32.lt_of_le_of_ne hle fun hie => he hie.symm
    rw [UInt32.lt_iff_toNat_lt] at hlt' hi
    rw [UInt32.le_iff_toNat_le, UInt32.toNat_add]
    change i.toNat < 256 at hi
    change (i.toNat + 1) % 2 ^ 32 ≤ _
    omega

end Calls

end Zcrt
