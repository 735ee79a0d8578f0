/-
  The assertion that keeps an event from being unregistered while it is dispatched, and what it lets
  through. `lastEvtid` is one field for all dispatches: the innermost writes it, its end writes 0.

  * `guardExact_iff`: for which events the assertion tells whether they are being dispatched, and
    that where only those are unregistered no node under a dispatch is released.
  * `nestedSend_releases`: a callback that sends another event may then unregister its own.
-/
import Zcrt.Core.EvtSys

namespace Zcrt

open Lib

variable {F P : Type} [DecidableEq F] [DecidableEq P]

/-- What `lastEvtid` is while these dispatches are in progress. -/
def lastOf : List (EvtFrame F P) → UInt32
  | [] => 0
  | f :: _ => if f.nested then 0 else f.evtid

/-- The events for which the assertion is right. Nothing is dispatched: all but 0. No dispatch made
    from the innermost one has ended: the innermost one's own, and those not dispatched. One has: 0
    if it is dispatched, and the others if they are not. -/
def GuardOk (frames : List (EvtFrame F P)) (evtid : UInt32) : Prop :=
  match frames with
  | [] => evtid ≠ 0
  | f :: fs =>
      if f.nested then evtid = 0 ↔ ∃ g ∈ f :: fs, g.evtid = evtid
      else evtid = f.evtid ∨ ∀ g ∈ fs, g.evtid ≠ evtid

/-- A step that unregisters, if anything, an event for which the assertion is right. -/
def UnregisterOk (st : EvtState F P) : EvtAct F P → Prop
  | .op (.unregister evtid _ _ _) => evtid < ZCRT_MAX_EVT → GuardOk st.frames evtid
  | _ => True

omit [DecidableEq F] [DecidableEq P] in
/-- The assertion compares with what the frames say. -/
theorem guardOk_iff (st : EvtState F P) (evtid : UInt32) :
    (lastOf st.frames = evtid ↔ st.Dispatching evtid) ↔ GuardOk st.frames evtid := by
  unfold EvtState.Dispatching
  cases hf : st.frames with
  | nil =>
      change (0 = evtid ↔ ∃ f ∈ [], _) ↔ evtid ≠ 0
      refine ⟨fun h he => ?_, fun h => iff_of_false (fun he => h he.symm) ?_⟩
      · obtain ⟨f, hf, -⟩ := h.mp he.symm
        exact absurd hf List.not_mem_nil
      · exact fun ⟨f, hf, _⟩ => absurd hf List.not_mem_nil
  | cons f fs =>
      unfold lastOf GuardOk
      dsimp only
      by_cases hn : f.nested
      · rw [if_pos hn, if_pos hn]
        exact ⟨fun h => ⟨fun he => h.mp he.symm, fun he => (h.mpr he).symm⟩,
          fun h => ⟨fun he => h.mp he.symm, fun he => (h.mpr he).symm⟩⟩
      · rw [if_neg hn, if_neg hn]
        constructor
        · intro h
          by_cases he : evtid = f.evtid
          · exact Or.inl he
          · exact Or.inr fun g hg hge => he (h.mpr ⟨g, List.mem_cons_of_mem _ hg, hge⟩).symm
        · intro h
          refine ⟨fun he => ⟨f, List.mem_cons_self, he⟩, fun ⟨g, hg, hge⟩ => ?_⟩
          rcases List.mem_cons.mp hg with rfl | hg
          · exact hge
          · rcases h with h | h
            · exact h.symm
            · exact absurd hge (h g hg)

/-! ## Along a run -/

/-- The lists are lists, and `lastEvtid` is what the frames say. -/
structure EvtInv (st : EvtState F P) (mng : ZEvent F P) (ls : Option UInt32 → List Nat) : Prop where
  rep : EvtRep st.heap mng ls
  last : st.heap.lastEvtid = lastOf st.frames

/-- Each dispatch is at a node of its event's list, or through it. -/
def CurOk (st : EvtState F P) (ls : Option UInt32 → List Nat) : Prop :=
  ∀ f ∈ st.frames, ∀ a, f.cur = some a → a ∈ ls (some f.evtid)

section Steps

variable {st st' : EvtState F P} {mng : ZEvent F P} {ls : Option UInt32 → List Nat}
  {act : EvtAct F P}

omit [DecidableEq F] [DecidableEq P] in
theorem EvtRep.setLast (h : EvtRep st.heap mng ls) (evtid : UInt32) :
    EvtRep { st.heap with lastEvtid := evtid } { mng with lastEvtid := evtid } ls where
  seg := fun k => by
    have hseg := h.seg k
    cases k <;> exact hseg
  cbs := fun k => by
    have hcbs := h.cbs k
    cases k <;> exact hcbs
  apart := h.apart
  freesize := h.freesize
  last := rfl

theorem EvtInv.assert_iff (h : EvtInv st mng ls) {evtid : UInt32} {cb : Option F}
    (he : evtid < ZCRT_MAX_EVT) (hcb : cb ≠ none) (p1 p2 : P) :
    EvtHeap.unregister (some st.heap) evtid cb p1 p2 = .error .assert ↔
      lastOf st.frames = evtid := by
  rw [← h.last]
  constructor
  · intro herr
    by_contra hne
    obtain ⟨mng', w', ls', -, hok, -⟩ := h.rep.unregister_rep cb p1 p2 fun _ _ => hne
    rw [herr] at hok
    exact nomatch hok
  · exact fun hlast => (h.rep.unregister_assert hlast he hcb p1 p2).1

omit [DecidableEq F] [DecidableEq P] in
/-- The innermost dispatch moved on. -/
theorem CurOk.move {f f' : EvtFrame F P} {fs : List (EvtFrame F P)} (hcur : CurOk st ls)
    (hf : st.frames = f :: fs) (hf' : st'.frames = f' :: fs)
    (h : ∀ a, f'.cur = some a → a ∈ ls (some f'.evtid)) : CurOk st' ls := by
  intro g hg a ha
  rw [hf'] at hg
  rcases List.mem_cons.mp hg with rfl | hg
  · exact h a ha
  · exact hcur g (by rw [hf]; exact List.mem_cons_of_mem _ hg) a ha

/-- A removal that passes the assertion where this is right is of an event not dispatched. -/
theorem EvtInv.not_removes (h : EvtInv st mng ls) {op : EvtOp F P} {w' : EvtHeap F P}
    (hc : UnregisterOk st (.op op)) (hexec : op.exec (some st.heap) = .ok (some w'))
    {f : EvtFrame F P} (hf : f ∈ st.frames) : ¬op.Removes f.evtid := by
  cases op with
  | unregister evtid cb p1 p2 =>
      rintro ⟨rfl, he, hcb⟩
      have hiff := (guardOk_iff st f.evtid).mpr (hc he)
      have hassert := (h.assert_iff he hcb p1 p2).mpr (hiff.mpr ⟨f, hf, rfl⟩)
      exact nomatch hassert.symm.trans hexec
  | _ => exact fun hr => hr

/-- What one step leaves of the invariant, and of the nodes under dispatch. -/
theorem evtInv_step (h : EvtInv st mng ls) (hn : st.step act = some st') :
    ∃ mng' ls', EvtInv st' mng' ls' ∧ (UnregisterOk st act →
      (∀ f ∈ st.frames, ls (some f.evtid) ⊆ ls' (some f.evtid)) ∧
        (CurOk st ls → CurOk st' ls')) := by
  cases act with
  | op op =>
      obtain ⟨-, w', hexec, rfl⟩ := EvtState.op_cases hn
      rcases op.exec_rep h.rep with ⟨-, e, he⟩ | ⟨mng', w1, ls', hlist, hok, hrep, hsub⟩
      · exact nomatch he.symm.trans hexec
      · obtain rfl := Option.some.inj (Except.ok.inj (hok.symm.trans hexec))
        have hlast : w1.lastEvtid = st.heap.lastEvtid := by
          rw [hrep.last, EvtOp.execList_last hlist, h.rep.last]
        refine ⟨mng', ls', ⟨hrep, hlast.trans h.last⟩, fun hc => ?_⟩
        have hkeep : ∀ f ∈ st.frames, ls (some f.evtid) ⊆ ls' (some f.evtid) := fun f hf =>
          hsub f.evtid (h.not_removes hc hexec hf)
        exact ⟨hkeep, fun hcur f hf a ha => hkeep f hf (hcur f hf a ha)⟩
  | send evtid evtType evtdata =>
      obtain ⟨-, ⟨-, rfl⟩ | ⟨-, rfl⟩⟩ := EvtState.send_cases hn
      · exact ⟨mng, ls, h, fun _ => ⟨fun _ _ _ ha => ha, fun hcur => hcur⟩⟩
      · refine ⟨_, ls, ⟨h.rep.setLast evtid, rfl⟩, fun _ => ⟨fun _ _ _ ha => ha,
          fun hcur f hf a ha => ?_⟩⟩
        rcases List.mem_cons.mp hf with rfl | hf
        · have hhead : st.heap.evtlist evtid = (ls (some evtid)).head? :=
            (h.rep.seg (some evtid)).head
          exact List.mem_of_mem_head? (hhead.symm.trans ha)
        · exact hcur f hf a ha
  | visit =>
      obtain ⟨f, fs, a, n, hf, -, hcura, hnode, hcase⟩ := EvtState.visit_cases hn
      have hlast := h.last
      rw [hf] at hlast
      rcases hcase with ⟨-, -, rfl⟩ | ⟨-, rfl⟩
      · refine ⟨mng, ls, ⟨h.rep, hlast⟩, fun _ => ⟨fun _ _ _ ha => ha, fun hcur => ?_⟩⟩
        exact hcur.move hf rfl fun b hb => hcur f (by rw [hf]; exact List.mem_cons_self) b hb
      · refine ⟨mng, ls, ⟨h.rep, hlast⟩, fun _ => ⟨fun _ _ _ ha => ha, fun hcur => ?_⟩⟩
        refine hcur.move hf rfl fun b hb => Nodes.next_mem (h.rep.seg _) ?_ hnode hb
        exact hcur f (by rw [hf]; exact List.mem_cons_self) a hcura
  | back =>
      obtain ⟨f, fs, a, n, hf, -, hcura, hnode, rfl⟩ := EvtState.back_cases hn
      have hlast := h.last
      rw [hf] at hlast
      refine ⟨mng, ls, ⟨h.rep, hlast⟩, fun _ => ⟨fun _ _ _ ha => ha, fun hcur => ?_⟩⟩
      refine hcur.move hf rfl fun b hb => Nodes.next_mem (h.rep.seg _) ?_ hnode hb
      exact hcur f (by rw [hf]; exact List.mem_cons_self) a hcura
  | finish =>
      obtain ⟨f, fs, hf, -, -, rfl⟩ := EvtState.finish_cases hn
      refine ⟨_, ls, ⟨h.rep.setLast 0, ?_⟩, fun _ => ⟨fun _ _ _ ha => ha, fun hcur g hg a ha => ?_⟩⟩
      · cases fs <;> rfl
      · cases fs with
        | nil => exact absurd hg List.not_mem_nil
        | cons f1 fs =>
            rcases List.mem_cons.mp hg with rfl | hg
            · exact hcur f1 (by rw [hf]; simp) a ha
            · exact hcur g (by rw [hf]; simp [hg]) a ha

end Steps

section Run

variable {w : EvtHeap F P} {st : EvtState F P}

omit [DecidableEq F] [DecidableEq P] in
theorem evtInv_init : EvtInv ({ heap := .manageInit, frames := [], ended := [] } : EvtState F P)
    zcrtEventManageInit fun _ => [] where
  rep := evtRep_init
  last := rfl

theorem evtInv_of_reach (h : (evtSys (.manageInit : EvtHeap F P)).Reachable st) :
    ∃ mng ls, EvtInv st mng ls := by
  refine h.invariant (I := fun st => ∃ mng ls, EvtInv st mng ls) (fun st hst => ?_)
    fun st act st' ⟨mng, ls, hI⟩ _ hn => ?_
  · rw [hst]
    exact ⟨_, _, evtInv_init⟩
  · obtain ⟨mng', ls', hI', -⟩ := evtInv_step hI hn
    exact ⟨mng', ls', hI'⟩

theorem curOk_of_reach (h : (evtSys (.manageInit : EvtHeap F P)).Reach UnregisterOk st) :
    ∃ mng ls, EvtInv st mng ls ∧ CurOk st ls := by
  refine h.invariant (I := fun st => ∃ mng ls, EvtInv st mng ls ∧ CurOk st ls) (fun st hst => ?_)
    fun st act st' ⟨mng, ls, hI, hcur⟩ hc hn => ?_
  · rw [hst]
    exact ⟨_, _, evtInv_init, fun f hf => absurd hf List.not_mem_nil⟩
  · obtain ⟨mng', ls', hI', hkeep⟩ := evtInv_step hI hn
    exact ⟨mng', ls', hI', (hkeep hc).2 hcur⟩

/-- A node in the list of an event, as the links go. -/
def EvtHeap.InList (w : EvtHeap F P) (evtid : UInt32) (a : Nat) : Prop :=
  Reaches (Nodes.nextOf w.nodes) (w.evtlist evtid) a

/-- A node on the free list. -/
def EvtHeap.InFree (w : EvtHeap F P) (a : Nat) : Prop := 
  Reaches (Nodes.nextOf w.nodes) w.freelist a

/-- In every state of every run the assertion fails exactly for the events being dispatched, for the
    events that are `GuardOk` and for no others. And in a run that unregisters no others each
    dispatch is at a node of its event's list, and no step puts a node of such a list on the free
    list. -/
theorem guardExact_iff (h : (evtSys (.manageInit : EvtHeap F P)).Reachable st) :
    (∀ evtid cb p1 p2, evtid < ZCRT_MAX_EVT → cb ≠ none →
      ((EvtHeap.unregister (some st.heap) evtid cb p1 p2 = .error .assert ↔ st.Dispatching evtid) ↔
        GuardOk st.frames evtid)) ∧
    ((evtSys (.manageInit : EvtHeap F P)).Reach UnregisterOk st →
      (∀ f ∈ st.frames, ∀ a, f.cur = some a → st.heap.InList f.evtid a) ∧
      ∀ act st', UnregisterOk st act → st.step act = some st' →
        ∀ f ∈ st.frames, ∀ a, st.heap.InList f.evtid a →
          st'.heap.InList f.evtid a ∧ ¬st'.heap.InFree a) := by
  refine ⟨fun evtid cb p1 p2 he hcb => ?_, fun hok => ?_⟩
  · obtain ⟨mng, ls, hI⟩ := evtInv_of_reach h
    rw [hI.assert_iff he hcb p1 p2]
    exact guardOk_iff st evtid
  · obtain ⟨mng, ls, hI, hcur⟩ := curOk_of_reach hok
    refine ⟨fun f hf a ha => (hI.rep.seg (some f.evtid)).reaches (hcur f hf a ha), ?_⟩
    intro act st' hc hn f hf a ha
    obtain ⟨mng', ls', hI', hkeep⟩ := evtInv_step hI hn
    have hmem : a ∈ ls' (some f.evtid) :=
      (hkeep hc).1 f hf ((hI.rep.seg (some f.evtid)).mem_of_reaches ha)
    refine ⟨(hI'.rep.seg (some f.evtid)).reaches hmem, fun hfree => ?_⟩
    exact nomatch hI'.rep.apart _ _ a hmem ((hI'.rep.seg none).mem_of_reaches hfree)

end Run

/-- An event with a subscription is sent, and its callback runs. -/
def oneSent : List (EvtAct Unit Unit) :=
  [.op (.register true 10 1 (some ()) () ()), .send 1 .evtAll (), .visit]

/-- The callback cannot unregister its own event. -/
theorem guardExact_iff_one : ∃ st : EvtState Unit Unit, (evtSys .manageInit).Reachable st ∧
    EvtHeap.unregister (some st.heap) 1 (some ()) () () = .error .assert := by
  obtain ⟨st, hst, hp⟩ := Sys.reach_of_run (c := fun _ _ => true)
    (p := fun st => st.frames.map (fun f => (f.evtid, f.nested)) == [(1, false)])
    (fun _ _ _ => trivial)
    (Sys.Reach.init rfl : (evtSys (.manageInit : EvtHeap Unit Unit)).Reachable _)
    oneSent (by decide)
  obtain ⟨f, fs, hf, hid, hnil⟩ := List.map_eq_cons_iff.mp (eq_of_beq hp)
  obtain ⟨he, hn⟩ := Prod.mk.inj hid
  refine ⟨st, hst, ?_⟩
  refine (((guardExact_iff hst).1 1 (some ()) () () (by decide) (by simp)).mpr ?_).mpr ?_
  · rw [hf]
    unfold GuardOk
    dsimp only
    rw [hn, if_neg (by simp)]
    exact Or.inl he.symm
  · exact ⟨f, by rw [hf]; exact List.mem_cons_self, he⟩

/-- The callback sends another event. Then it can unregister its own, while this is dispatched, and
    the node under dispatch is released. And outside any dispatch event 0 cannot be unregistered. -/
theorem nestedSend_releases :
    (∃ (st st' : EvtState Unit Unit) (f : EvtFrame Unit Unit) (a : Nat),
      (evtSys .manageInit).Reachable st ∧ st.Dispatching 1 ∧
      st.step (.op (.unregister 1 (some ()) () ())) = some st' ∧
      f ∈ st'.frames ∧ f.cur = some a ∧ st'.heap.InFree a) ∧
    EvtHeap.unregister (some (.manageInit : EvtHeap Unit Unit)) 0 (some ()) () () =
      .error .assert := by
  refine ⟨?_, rfl⟩
  obtain ⟨st, hst, hp⟩ := Sys.reach_of_run (c := fun _ _ => true)
    (p := fun st => st.frames.any (fun f => f.evtid == 1) &&
      (st.step (.op (.unregister 1 (some ()) () ()))).any fun st' =>
        st'.frames.any (fun f => f.cur == some 0) && st'.heap.freelist == some 0)
    (fun _ _ _ => trivial)
    (Sys.Reach.init rfl : (evtSys (.manageInit : EvtHeap Unit Unit)).Reachable _)
    (oneSent ++ [.send 2 .evtAll (), .finish]) (by decide)
  obtain ⟨hdis, hp⟩ := Bool.and_eq_true_iff.mp hp
  obtain ⟨g, hg, hgid⟩ := List.any_eq_true.mp hdis
  obtain ⟨hsome, hp'⟩ := (Option.any_eq_true_iff_get _ _).mp hp
  obtain ⟨st', hn⟩ := Option.isSome_iff_exists.mp hsome
  rw [Option.get_of_eq_some hsome hn] at hp'
  obtain ⟨hf, hfree⟩ := Bool.and_eq_true_iff.mp hp'
  obtain ⟨f, hf, hcur⟩ := List.any_eq_true.mp hf
  refine ⟨st, st', f, 0, hst, ⟨g, hg, eq_of_beq hgid⟩, hn, hf, eq_of_beq hcur, ?_⟩
  unfold EvtHeap.InFree
  rw [eq_of_beq hfree]
  exact Reaches.here 0

end Zcrt
