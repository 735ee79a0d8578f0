/-
  One thread that registers, unregisters and sends events, step by step: a callback may do any of
  these itself, so that dispatches nest.

  * `EvtOp`: the calls that change the subscriptions.
  * `EvtState`: the event manager and the dispatches in progress.
  * `evtSys`: the steps. A step is a whole call, or what `zcrt_event_send_ex` does between two
    callbacks.

  The mutex is recursive, so it does not keep a callback from calling in.
-/
import Zcrt.Lib.Steps
import Zcrt.Core.EvtRep

namespace Zcrt

open Lib

variable {F P : Type} [DecidableEq F] [DecidableEq P]

/-! ## Registrations and removals -/

/-- A call that changes the subscriptions. `mem` is whether the allocator gives a node. -/
inductive EvtOp (F P : Type)
  | register (mem : Bool) (priority : UInt8) (evtid : UInt32) (cb : Option F) (p1 p2 : P)
  | registerEx (mem : Bool) (priority : UInt8) (evtid : UInt32) (evtType : EZCRTEvtType)
      (cb : Option F) (p1 p2 : P)
  | unregister (evtid : UInt32) (cb : Option F) (p1 p2 : P)

namespace EvtOp

def evtid : EvtOp F P → UInt32
  | register _ _ evtid _ _ _ => evtid
  | registerEx _ _ evtid _ _ _ _ => evtid
  | unregister evtid _ _ _ => evtid

/-- A removal from the list of this event, with a callback to look for. -/
def Removes (evtid : UInt32) : EvtOp F P → Prop
  | unregister e cb _ _ => evtid = e ∧ e < ZCRT_MAX_EVT ∧ cb ≠ none
  | _ => False

/-- The call made. -/
def exec (evtMng : Option (EvtHeap F P)) : EvtOp F P → Except Fault (Option (EvtHeap F P))
  | register mem priority evtid cb p1 p2 =>
      (EvtHeap.register evtMng mem priority evtid cb p1 p2).map Prod.snd
  | registerEx mem priority evtid evtType cb p1 p2 =>
      (EvtHeap.registerEx evtMng mem priority evtid evtType cb p1 p2).map Prod.snd
  | unregister evtid cb p1 p2 => EvtHeap.unregister evtMng evtid cb p1 p2

/-- The call made on the lists. -/
def execList (evtMng : Option (ZEvent F P)) : EvtOp F P → Option (Option (ZEvent F P))
  | register mem priority evtid cb p1 p2 =>
      (zcrtEventRegisterEx evtMng mem priority evtid .evtAll cb p1 p2).map Prod.snd
  | registerEx mem priority evtid evtType cb p1 p2 =>
      (zcrtEventRegisterEx evtMng mem priority evtid evtType cb p1 p2).map Prod.snd
  | unregister evtid cb p1 p2 => zcrtEventUnregister evtMng evtid cb p1 p2

/-- Calls one after the other. -/
def run (evtMng : Option (EvtHeap F P)) (ops : List (EvtOp F P)) :
    Except Fault (Option (EvtHeap F P)) :=
  ops.foldlM exec evtMng

end EvtOp

/-! ## Dispatches -/

/-- The test of `zcrt_event_send_ex`. -/
def ZEventCB.takes (cur : ZEventCB F P) (evtType : EZCRTEvtType) : Bool :=
  cur.evtType = evtType ∨ cur.evtType = .evtAll ∨ evtType = .evtAll

/-- A call of `zcrt_event_send_ex` in its loop, at the node `cur`. `inCb` is set while the callback
    of `cur` runs. The last two record what happened: `nested`, that a dispatch made from a callback
    of this one has ended; `calls`, the callbacks called, with their arguments. -/
structure EvtFrame (F P : Type) where
  evtid : UInt32
  evtType : EZCRTEvtType
  evtdata : P
  cur : Option Nat
  inCb : Bool
  nested : Bool
  calls : List (ZEventCB F P)

/-- The manager, the dispatches in progress, the innermost first, and a record of those that
    ended. -/
structure EvtState (F P : Type) where
  heap : EvtHeap F P
  frames : List (EvtFrame F P)
  ended : List (EvtFrame F P)

inductive EvtAct (F P : Type)
  | op (op : EvtOp F P)
  | send (evtid : UInt32) (evtType : EZCRTEvtType) (evtdata : P)
  | visit
  | back
  | finish

namespace EvtState

/-- A callback runs, or nothing is being dispatched. -/
def calling (st : EvtState F P) : Bool :=
  match st.frames with
  | [] => true
  | f :: _ => f.inCb

/-- A dispatch of this event is in progress. -/
def Dispatching (st : EvtState F P) (evtid : UInt32) : Prop := ∃ f ∈ st.frames, f.evtid = evtid

variable (st : EvtState F P)

def opStep (op : EvtOp F P) : Option (EvtState F P) :=
  if st.calling then
    match op.exec (some st.heap) with
    | .ok (some w) => some { st with heap := w }
    | _ => none
  else none

/-- Up to the loop. -/
def sendStep (evtid : UInt32) (evtType : EZCRTEvtType) (evtdata : P) : Option (EvtState F P) :=
  if st.calling then
    if evtid ≥ ZCRT_MAX_EVT then some st
    else some { st with
      heap := { st.heap with lastEvtid := evtid }
      frames := { evtid := evtid, evtType := evtType, evtdata := evtdata,
                  cur := st.heap.evtlist evtid, inCb := false, nested := false, calls := [] } ::
        st.frames }
  else none

/-- The node at which the loop is: its callback called, or passed over. -/
def visitStep : Option (EvtState F P) :=
  match st.frames with
  | f :: fs =>
      if f.inCb then none
      else
        match Nodes.load st.heap.nodes f.cur with
        | .ok (_, n) =>
            if n.data.takes f.evtType then
              if n.data.fn.isNone then none
              else some { st with
                frames := { f with inCb := true, calls := f.calls ++ [n.data] } :: fs }
            else some { st with frames := { f with cur := n.next } :: fs }
        | .error _ => none
  | [] => none

/-- The callback returns. -/
def backStep : Option (EvtState F P) :=
  match st.frames with
  | f :: fs =>
      if f.inCb then
        match Nodes.load st.heap.nodes f.cur with
        | .ok (_, n) => some { st with frames := { f with inCb := false, cur := n.next } :: fs }
        | .error _ => none
      else none
  | [] => none

/-- The dispatch around the one that ends. -/
def markNested : List (EvtFrame F P) → List (EvtFrame F P)
  | f :: fs => { f with nested := true } :: fs
  | [] => []

/-- After the loop. -/
def finishStep : Option (EvtState F P) :=
  match st.frames with
  | f :: fs =>
      if f.inCb = false ∧ f.cur = none then some { st with
        heap := { st.heap with lastEvtid := 0 }
        frames := markNested fs
        ended := st.ended ++ [f] }
      else none
  | [] => none

def step : EvtAct F P → Option (EvtState F P)
  | .op op => st.opStep op
  | .send evtid evtType evtdata => st.sendStep evtid evtType evtdata
  | .visit => st.visitStep
  | .back => st.backStep
  | .finish => st.finishStep

end EvtState

/-- The thread of a module with event manager `w`. -/
def evtSys (w : EvtHeap F P) : Sys (EvtState F P) (EvtAct F P) where
  init st := st = { heap := w, frames := [], ended := [] }
  next st act := st.step act

/-! ## What a step can do -/

section Cases

variable {st st' : EvtState F P}

theorem EvtState.op_cases {op : EvtOp F P} (h : st.opStep op = some st') :
    st.calling ∧ ∃ w, op.exec (some st.heap) = .ok (some w) ∧ st' = { st with heap := w } := by
  unfold EvtState.opStep at h
  split at h
  · next hc =>
      refine ⟨hc, ?_⟩
      split at h
      · next w hw => exact ⟨w, hw, (Option.some.inj h).symm⟩
      · exact nomatch h
  · exact nomatch h

omit [DecidableEq F] [DecidableEq P] in
theorem EvtState.send_cases {evtid : UInt32} {evtType : EZCRTEvtType} {evtdata : P}
    (h : st.sendStep evtid evtType evtdata = some st') :
    st.calling ∧ (evtid ≥ ZCRT_MAX_EVT ∧ st' = st ∨ evtid < ZCRT_MAX_EVT ∧ st' = { st with
      heap := { st.heap with lastEvtid := evtid }
      frames := { evtid := evtid, evtType := evtType, evtdata := evtdata,
                  cur := st.heap.evtlist evtid, inCb := false, nested := false, calls := [] } ::
        st.frames }) := by
  unfold EvtState.sendStep at h
  split at h
  · next hc =>
      refine ⟨hc, ?_⟩
      split at h
      · next hge => exact Or.inl ⟨hge, (Option.some.inj h).symm⟩
      · next hlt => exact Or.inr ⟨UInt32.not_le.mp hlt, (Option.some.inj h).symm⟩
  · exact nomatch h

omit [DecidableEq F] [DecidableEq P] in
theorem EvtState.visit_cases (h : st.visitStep = some st') :
    ∃ f fs a n, st.frames = f :: fs ∧ f.inCb = false ∧ f.cur = some a ∧ st.heap.nodes[a]? = some n ∧
      (n.data.takes f.evtType ∧ n.data.fn ≠ none ∧
          st' = { st with frames := { f with inCb := true, calls := f.calls ++ [n.data] } :: fs } ∨
        n.data.takes f.evtType = false ∧
        st' = { st with frames := { f with cur := n.next } :: fs }) := by
  unfold EvtState.visitStep at h
  split at h
  · next f fs hf =>
      split at h
      · exact nomatch h
      · next hcb =>
          split at h
          · next a n hload =>
              obtain ⟨hcur, hn⟩ := Nodes.load_eq_ok hload
              refine ⟨f, fs, a, n, hf, Bool.eq_false_iff.mpr hcb, hcur, hn, ?_⟩
              split at h
              · next htakes =>
                  split at h
                  · exact nomatch h
                  · next hfn =>
                      refine Or.inl ⟨htakes, fun he => hfn ?_, (Option.some.inj h).symm⟩
                      rw [he]
                      rfl
              · next htakes =>
                  exact Or.inr ⟨Bool.eq_false_iff.mpr htakes, (Option.some.inj h).symm⟩
          · exact nomatch h
  · exact nomatch h

omit [DecidableEq F] [DecidableEq P] in
theorem EvtState.back_cases (h : st.backStep = some st') :
    ∃ f fs a n, st.frames = f :: fs ∧ f.inCb = true ∧ f.cur = some a ∧ st.heap.nodes[a]? = some n ∧
      st' = { st with frames := { f with inCb := false, cur := n.next } :: fs } := by
  unfold EvtState.backStep at h
  split at h
  · next f fs hf =>
      split at h
      · next hcb =>
          split at h
          · next a n hload =>
              obtain ⟨hcur, hn⟩ := Nodes.load_eq_ok hload
              exact ⟨f, fs, a, n, hf, hcb, hcur, hn, (Option.some.inj h).symm⟩
          · exact nomatch h
      · exact nomatch h
  · exact nomatch h

omit [DecidableEq F] [DecidableEq P] in
theorem EvtState.backStep_of_load {f : EvtFrame F P} {fs : List (EvtFrame F P)} {a : Nat}
    {n : Node (ZEventCB F P)} (hf : st.frames = f :: fs) (hcb : f.inCb = true)
    (hload : Nodes.load st.heap.nodes f.cur = .ok (a, n)) :
    st.backStep = some { st with frames := { f with inCb := false, cur := n.next } :: fs } := by
  unfold EvtState.backStep
  rw [hf]
  dsimp only
  rw [if_pos hcb, hload]

omit [DecidableEq F] [DecidableEq P] in
theorem EvtState.finish_cases (h : st.finishStep = some st') :
    ∃ f fs, st.frames = f :: fs ∧ f.inCb = false ∧ f.cur = none ∧ st' = { st with
      heap := { st.heap with lastEvtid := 0 }
      frames := EvtState.markNested fs
      ended := st.ended ++ [f] } := by
  unfold EvtState.finishStep at h
  split at h
  · next f fs hf =>
      split at h
      · next hend => exact ⟨f, fs, hf, hend.1, hend.2, (Option.some.inj h).symm⟩
      · exact nomatch h
  · exact nomatch h

end Cases

/-! ## What a call does to the lists -/

omit [DecidableEq F] [DecidableEq P] in
theorem zcrtEventMallocCb_last (mng : ZEvent F P) (mem : Bool) (priority : UInt8)
    (evtType : EZCRTEvtType) (fn : Option F) (p1 p2 : P) :
    (zcrtEventMallocCb mng mem priority evtType fn p1 p2).2.lastEvtid = mng.lastEvtid := by
  unfold zcrtEventMallocCb
  cases mng.freelist <;> rfl

/-- No call writes the event being dispatched. -/
theorem EvtOp.execList_last {op : EvtOp F P} {mng mng' : ZEvent F P}
    (h : op.execList (some mng) = some (some mng')) : mng'.lastEvtid = mng.lastEvtid := by
  have hregister : ∀ mem priority evtid evtType cb p1 p2 r,
      zcrtEventRegisterEx (some mng) mem priority evtid evtType cb p1 p2 = some r →
      r.2 = some mng' → mng'.lastEvtid = mng.lastEvtid := by
    intro mem priority evtid evtType cb p1 p2 r hr hs
    have hlast := zcrtEventMallocCb_last mng mem priority evtType cb p1 p2
    unfold zcrtEventRegisterEx at hr
    dsimp only at hr
    split at hr
    · obtain rfl := Option.some.inj hr
      obtain rfl := Option.some.inj hs
      rfl
    · split at hr
      · obtain rfl := Option.some.inj hr
        obtain rfl := Option.some.inj hs
        exact hlast
      · obtain ⟨job, -, rfl⟩ := Option.map_eq_some_iff.mp hr
        obtain rfl := Option.some.inj hs
        exact hlast
  cases op with
  | register mem priority evtid cb p1 p2 =>
      obtain ⟨r, hr, hs⟩ := Option.map_eq_some_iff.mp h
      exact hregister _ _ _ _ _ _ _ r hr hs
  | registerEx mem priority evtid evtType cb p1 p2 =>
      obtain ⟨r, hr, hs⟩ := Option.map_eq_some_iff.mp h
      exact hregister _ _ _ _ _ _ _ r hr hs
  | unregister evtid cb p1 p2 =>
      change zcrtEventUnregister (some mng) evtid cb p1 p2 = _ at h
      unfold zcrtEventUnregister at h
      dsimp only at h
      split at h
      · rw [← Option.some.inj (Option.some.inj h)]
      · split at h
        · exact absurd h.symm (Option.some_ne_none _)
        · split at h
          · rw [← Option.some.inj (Option.some.inj h)]
          · rw [← Option.some.inj (Option.some.inj h)]
            rfl

/-- A call, on the links and on the lists: the same result, or both fail. -/
theorem EvtOp.exec_rep {w : EvtHeap F P} {mng : ZEvent F P} {ls : Option UInt32 → List Nat}
    (h : EvtRep w mng ls) (op : EvtOp F P) :
    (op.execList (some mng) = none ∧ ∃ e, op.exec (some w) = .error e) ∨
    ∃ mng' w' ls', op.execList (some mng) = some (some mng') ∧ op.exec (some w) = .ok (some w') ∧
      EvtRep w' mng' ls' ∧ ∀ evtid, ¬op.Removes evtid → ls (some evtid) ⊆ ls' (some evtid) := by
  have hregister : ∀ mem priority evtid evtType cb p1 p2,
      (op.execList (some mng) =
        (zcrtEventRegisterEx (some mng) mem priority evtid evtType cb p1 p2).map Prod.snd) →
      (op.exec (some w) =
        (EvtHeap.registerEx (some w) mem priority evtid evtType cb p1 p2).map Prod.snd) →
      (op.execList (some mng) = none ∧ ∃ e, op.exec (some w) = .error e) ∨
      ∃ mng' w' ls', op.execList (some mng) = some (some mng') ∧ op.exec (some w) = .ok (some w') ∧
        EvtRep w' mng' ls' ∧ ∀ evtid, ¬op.Removes evtid → ls (some evtid) ⊆ ls' (some evtid) := by
    intro mem priority evtid evtType cb p1 p2 hlist hexec
    rw [hlist, hexec]
    rcases h.registerEx_rep mem priority evtid evtType cb p1 p2 with
      ⟨h1, h2⟩ | ⟨ret, mng', w', ls', h1, h2, hrep, hsub⟩
    · rw [h1, h2]
      exact Or.inl ⟨rfl, _, rfl⟩
    · rw [h1, h2]
      exact Or.inr ⟨mng', w', ls', rfl, rfl, hrep, fun e _ => hsub e⟩
  cases op with
  | register mem priority evtid cb p1 p2 =>
      exact hregister mem priority evtid .evtAll cb p1 p2 rfl rfl
  | registerEx mem priority evtid evtType cb p1 p2 =>
      exact hregister mem priority evtid evtType cb p1 p2 rfl rfl
  | unregister evtid cb p1 p2 =>
      by_cases hassert : evtid < ZCRT_MAX_EVT ∧ cb ≠ none ∧ w.lastEvtid = evtid
      · obtain ⟨he, hcb, hlast⟩ := hassert
        obtain ⟨h1, h2⟩ := h.unregister_assert hlast he hcb p1 p2
        exact Or.inl ⟨h2, _, h1⟩
      · obtain ⟨mng', w', ls', h1, h2, hrep, hother⟩ := h.unregister_rep cb p1 p2
          fun he hcb hlast => hassert ⟨he, hcb, hlast⟩
        refine Or.inr ⟨mng', w', ls', h1, h2, hrep, fun e he => ?_⟩
        rw [hother e he]
        exact fun _ ha => ha

end Zcrt
