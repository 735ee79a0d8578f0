/-
  `_zcrt_s_thr_remove_sch` from any state in which `cursize` counts: which jobs and which schedules
  are left, and where the jobs removed are.

  * `findPrevSch_ok`: the second loop finds the schedule in front, when there is one.
  * `SchRemoved`: the schedule's jobs are on the free list, and it is out of the thread's list.
  * `Counted`: `cursize` counts the jobs of every schedule. `Counted.next`: it goes on to do so.
-/
import Zcrt.Core.SchRun

namespace Zcrt

open Lib

variable {F P : Type} {w w' : SchHeap F P} {v : SchView} {t s a : Nat} {th : SchThr}
  {sc : ZSchedule}

/-- The links between schedules. -/
def SchHeap.schLinks (w : SchHeap F P) (a : Nat) : Option (Option Nat) :=
  (w.schs a).map ZSchedule.next

theorem SchHeap.schLinks_of_schs (h : w.schs a = some sc) : w.schLinks a = some sc.next := by
  rw [schLinks, h]
  rfl

/-! ## The list of schedules -/

/-- The loop from `p` on, no node before having led to `s`. -/
theorem findPrevSch_ok (l : List Nat) {p : Option Nat} (hl : Seg w.schLinks p l none)
    (hp : p ≠ some s) {fuel : Nat} (hf : l.length < fuel) :
    (s ∉ l ∧ findPrevSch w s fuel p = .ok none) ∨
      ∃ k x r, l = k ++ x :: s :: r ∧ findPrevSch w s fuel p = .ok (some x) := by
  induction l generalizing p fuel with
  | nil =>
      obtain ⟨fuel, rfl⟩ := Nat.exists_eq_add_of_lt hf
      rw [Seg.nil_iff] at hl
      subst hl
      exact Or.inl ⟨List.not_mem_nil, rfl⟩
  | cons x l ih =>
      obtain ⟨fuel, rfl⟩ : ∃ n, fuel = n + 1 := ⟨fuel - 1, by omega⟩
      rw [List.length_cons] at hf
      obtain ⟨rfl, n, hn, hl⟩ := hl
      obtain ⟨sx, hx, rfl⟩ := Option.map_eq_some_iff.mp hn
      have hxs : x ≠ s := fun he => hp (congrArg some he)
      have hround : findPrevSch w s (fuel + 1) (some x) =
          if sx.next ≠ some s then findPrevSch w s fuel sx.next else .ok (some x) := by
        rw [findPrevSch]
        dsimp only
        rw [deref_some hx, except_ok_bind]
        rfl
      rw [hround]
      by_cases hnext : sx.next = some s
      · -- `s` comes next
        rw [if_neg (not_not.mpr hnext)]
        rw [hnext] at hl
        obtain ⟨r, rfl⟩ := hl.cons_of_some
        exact Or.inr ⟨[], x, r, rfl, rfl⟩
      · rw [if_pos hnext]
        rcases ih hl hnext (show _ < fuel by omega) with ⟨hnot, hrun⟩ | ⟨k, y, r, rfl, hrun⟩
        · refine Or.inl ⟨fun hm => ?_, hrun⟩
          exact (List.mem_cons.mp hm).elim (fun he => hxs he.symm) hnot
        · exact Or.inr ⟨x :: k, y, r, rfl, hrun⟩

/-- The second half of the function takes `s`, and no other, out of the list. -/
theorem unlinkSch_erase (ht : w.thrs t = some th) (hs : w.schs s = some sc) {l : List Nat}
    (hl : Seg w.schLinks th.schList l none) {fuel : Nat} (hf : l.length < fuel) :
    ∃ w' l', unlinkSch w t s fuel = .ok w' ∧ w'.thrs t = some { th with schList := l' } ∧
      Seg w'.schLinks l' (l.erase s) none := by
  unfold unlinkSch
  rw [deref_some hs, except_ok_bind]
  dsimp only
  rw [deref_some ht, except_ok_bind]
  dsimp only
  by_cases hfirst : th.schList = some s
  · -- the first of the list
    rw [if_pos hfirst]
    rw [hfirst] at hl
    obtain ⟨r, rfl⟩ := hl.cons_of_some
    rw [List.erase_cons_head]
    exact ⟨_, sc.next, rfl, Function.update_self ..,
      hl.pop (SchHeap.schLinks_of_schs hs) fun _ _ => rfl⟩
  rw [if_neg hfirst]
  rcases findPrevSch_ok l hl hfirst hf with ⟨hnot, hrun⟩ | ⟨k, x, r, rfl, hrun⟩
  · rw [hrun, List.erase_of_not_mem hnot]
    exact ⟨w, th.schList, rfl, ht, hl⟩
  · -- the one in front, `x`, gets the link of `s`
    have hnodup := hl.nodup
    obtain ⟨n, hn⟩ := hl.live (a := x) (by simp)
    obtain ⟨sx, hx, -⟩ := Option.map_eq_some_iff.mp hn
    have hd := List.nodup_append.mp hnodup
    have hxr := List.nodup_cons.mp hd.2.1
    have hks : s ∉ k := fun hm => hd.2.2 s hm s (by simp) rfl
    have hxs : x ≠ s := fun he => hxr.1 (he ▸ List.mem_cons_self)
    have hlinks : ∀ b, b ≠ x → (w.setSch x { sx with next := sc.next }).schLinks b =
        w.schLinks b := by
      intro b hb
      unfold SchHeap.schLinks
      rw [SchHeap.setSch_schs, Function.update_of_ne hb]
    have herase : (k ++ x :: s :: r).erase s = k ++ x :: r := by
      rw [List.erase_append_right _ hks, List.erase_cons_tail (by simpa using hxs),
        List.erase_cons_head]
    rw [hrun, except_ok_bind, herase]
    dsimp only
    rw [deref_some hx, except_ok_bind]
    refine ⟨_, th.schList, rfl, ht, hl.unlink ?_ ?_ ?_⟩
    · exact fun b hb => hlinks b fun he => hd.2.2 b hb x (by simp) he
    · exact fun b hb => hlinks b fun he => hxr.1 (he ▸ List.mem_cons_of_mem _ hb)
    · rw [SchHeap.schLinks_of_schs hs]
      unfold SchHeap.schLinks
      rw [SchHeap.setSch_schs, Function.update_self]
      rfl

/-! ## The whole function -/

/-- Schedule `s` is out of its thread `t`, in whose list it was one of `l`. -/
structure SchRemoved (w w' : SchHeap F P) (v : SchView) (l : List Nat) (t s : Nat)
    (th th' : SchThr) (sc sc' : ZSchedule) : Prop where
  thr : w'.thrs t = some th'
  que : Seg w'.links (th'.que sc.pri).jobs
    ((v.que t sc.pri).filter fun b => w.owner b ≠ some s) none
  owner : ∀ b, w.owner b ≠ some s → w'.owner b = w.owner b
  otherQue : ∀ p, p ≠ sc.pri → p ≠ .num →
    th'.que p = th.que p ∧ Seg w'.links (th'.que p).jobs (v.que t p) none
  free : Seg w'.links th'.freejobs
    (((v.que t sc.pri).filter fun b => w.owner b = some s).reverse ++ v.free t) none
  freeOnce : (((v.que t sc.pri).filter fun b => w.owner b = some s).reverse ++ v.free t).Nodup
  sch : w'.schs s = some sc'
  cursize : sc'.cursize = 0
  otherSch : ∀ s', s' ≠ s →
    (w'.schs s').map ZSchedule.unlinked = (w.schs s').map ZSchedule.unlinked
  list : Seg w'.schLinks th'.schList (l.erase s) none
  otherThr : ∀ t', t' ≠ t → w'.thrs t' = w.thrs t'

/-- The first half returns when the loop may go over the whole queue. -/
theorem removeJobs_returns (h : Chains w v) (ht : w.thrs t = some th) (hs : w.schs s = some sc)
    (hst : sc.thr = some t) (hp : sc.pri ≠ .num) {fuel : Nat}
    (hf : (v.que t sc.pri).length < fuel) :
    ∃ w' v' th', removeJobs w t s fuel = .ok w' ∧
      Removed w w' v v' t s th th' sc [] (v.que t sc.pri) := by
  have hrun : ∃ w', removeJobs w t s fuel = .ok w' := by
    unfold removeJobs
    rw [deref_some hs, except_ok_bind]
    dsimp only
    rw [deref_some ht, except_ok_bind]
    dsimp only
    split
    · obtain ⟨w1, v1, th1, hloop, -⟩ := removeLoop_ok (v.que t sc.pri) (k := []) fuel h ht hs hst hp
        rfl (fun b hb => absurd hb List.not_mem_nil) hf
      rw [List.getLast?_nil, Option.none_or, ← (h.que t th sc.pri ht hp).head] at hloop
      exact ⟨w1, hloop⟩
    · exact ⟨w, rfl⟩
  obtain ⟨w1, hrun⟩ := hrun
  obtain ⟨v1, th1, hrem⟩ := removeJobs_ok h ht hs hst hp fuel hrun
  exact ⟨w1, v1, th1, hrun, hrem⟩

theorem zcrtSThrRemoveSch_ok (h : Chains w v) (ht : w.thrs t = some th) (hs : w.schs s = some sc)
    (hst : sc.thr = some t) (hp : sc.pri ≠ .num) {l : List Nat}
    (hl : Seg w.schLinks th.schList l none) {fuel : Nat} (hf : (v.que t sc.pri).length < fuel)
    (hfl : l.length < fuel) :
    ∃ w' v' th' sc', zcrtSThrRemoveSch w t s fuel = .ok w' ∧ Chains w' v' ∧
      SchRemoved w w' v l t s th th' sc sc' := by
  obtain ⟨w1, v1, th1, hjobs, hrem⟩ := removeJobs_returns h ht hs hst hp hf
  have ht1 : w1.thrs t = some th1 := by
    rw [hrem.thrs, Function.update_self]
  have hs1 : w1.schs s = some { sc with cursize := 0 } := by
    rw [hrem.schs, Function.update_self]
  have hlinks : w1.schLinks = w.schLinks := by
    funext b
    unfold SchHeap.schLinks
    rw [hrem.schs]
    exact map_update_eq (y := { sc with cursize := 0 }) ZSchedule.next hs rfl b
  have hl1 : Seg w1.schLinks th1.schList l none := by
    rw [hlinks, hrem.same.schList]
    exact hl
  obtain ⟨w2, l2, hunlink, ht2, hl2⟩ := unlinkSch_erase ht1 hs1 hl1 hfl
  have hrel := unlinkSch_ok hunlink
  have hchains := hrel.chains hrem.chains
  have hfree := hchains.free t _ ht2
  have hlinks2 : w2.links = w1.links := by
    unfold SchHeap.links
    rw [hrel.jobs]
  have howner2 : w2.owner = w1.owner := by
    unfold SchHeap.owner
    rw [hrel.jobs]
  obtain ⟨sc2, hs2, hsc2⟩ : ∃ sc2, w2.schs s = some sc2 ∧ sc2.cursize = 0 := by
    have hmap := hrel.schs s
    rw [hs1, Option.map_some] at hmap
    obtain ⟨sc2, hs2, he⟩ := Option.map_eq_some_iff.mp hmap
    exact ⟨sc2, hs2, congrArg ZSchedule.cursize he⟩
  have hrun : zcrtSThrRemoveSch w t s fuel = .ok w2 := by
    unfold zcrtSThrRemoveSch
    rw [hjobs, except_ok_bind, hunlink]
  refine ⟨w2, v1, { th1 with schList := l2 }, sc2, hrun, hchains, ?_⟩
  exact {
    thr := ht2
    que := by
      have hseg := hchains.que t _ sc.pri ht2 hp
      rwa [hrem.que, List.nil_append] at hseg
    owner := fun b hb => by rw [howner2, hrem.owner b hb]
    otherQue := fun p hne hpn => by
      have hseg := hchains.que t _ p ht2 hpn
      rw [hrem.otherQue t p fun he => hne he.2] at hseg
      exact ⟨hrem.same.que p hne, hseg⟩
    free := by rwa [hrem.free] at hfree
    freeOnce := by
      rw [← hrem.free]
      exact hfree.nodup
    sch := hs2
    cursize := hsc2
    otherSch := fun s' hne => by rw [hrel.schs s', hrem.schs, Function.update_of_ne hne]
    list := hl2
    otherThr := fun t' hne => by
      rw [(hrel.thrs ht1).2 t' hne, hrem.thrs, Function.update_of_ne hne] }

/-! ## The counts -/

/-- The queues and free lists are chains that end, and each `cursize` is the number of the
    schedule's jobs in the queue of its priority; no `tail` is looked at. -/
def Counted (w : SchHeap F P) : Prop := ∃ v, Chains w v

/-- A send goes to a queue whose `tail` is its last node. -/
def SendsToLast (w : SchHeap F P) (op : SchOp F P) : Prop :=
  ∀ hd mem, (∃ cb p1 p2, op = .sendjob hd cb p1 p2 mem) ∨
      (∃ cb args, op = .sendjobArgn hd cb args mem) →
    ∀ s sc t th l, hd = some s → w.schs s = some sc → sc.thr = some t → w.thrs t = some th →
      Seg w.links (th.que sc.pri).jobs l none → (th.que sc.pri).tail = l.getLast?

theorem Sends.counted {hd mem : Option Nat} {r : EZCRTErr} (h : Sends w w' hd mem r)
    (hw : Counted w) (hmem : ∀ a, mem = some a → w.jobs a = none)
    (hlast : ∀ s sc t th l, hd = some s → w.schs s = some sc → sc.thr = some t →
      w.thrs t = some th → Seg w.links (th.que sc.pri).jobs l none →
      (th.que sc.pri).tail = l.getLast?) : Counted w' := by
  obtain ⟨v, hv⟩ := hw
  cases h with
  | nothing h =>
      subst h
      exact ⟨v, hv⟩
  | @job s sc fn argn args hhd hs hp h =>
      obtain ⟨t, th, hst, ht⟩ := hv.thr s sc hs
      have htl := hlast s sc t th _ hhd hs hst ht (hv.que t th sc.pri ht hp)
      obtain ⟨job, w1, f, th1, hn, heq⟩ := sendNewJob_eq hv hst ht fn argn args mem hmem
      rw [heq] at h
      cases job with
      | none =>
          obtain ⟨-, rfl⟩ := Prod.mk.inj (Except.ok.inj h)
          exact ⟨_, hn.chains⟩
      | some a =>
          obtain ⟨hv2, ht2, hs2⟩ := hn.filled hs argn args
          obtain ⟨w3, th', sc', hins, hi⟩ := zcrtSInsertJob_ok hv2 ht2 hs2 hst hp
            (by rw [hn.que]; exact htl) (a := a) (Function.update_self ..) rfl rfl
            (hn.loose a rfl)
          dsimp only at h
          rw [hins] at h
          obtain ⟨-, rfl⟩ := Prod.mk.inj (Except.ok.inj h)
          exact ⟨_, hi.chains⟩

/-- Every call that returns and every turn of a worker keeps the counts. -/
theorem Counted.next (hw : Counted w) {op : SchOp F P} (hlast : SendsToLast w op)
    (hn : schSys.next w op = some w') : Counted w' := by
  obtain ⟨ha, hr⟩ := exec_of_next hn
  cases op with
  | create type pri maxsize mem memThr =>
      obtain ⟨⟨r, w1⟩, hrun, rfl⟩ := except_map_eq_ok hr
      obtain ⟨ha1, ha2⟩ := Bool.and_eq_true_iff.mp ha
      obtain ⟨v, hv⟩ := hw
      rcases zcrtScheduleCreate_ok hrun with
        ⟨-, rfl⟩ | ⟨s, w2, t, th, th', sc, -, hs, hfor, -, -, hatt⟩
      · exact ⟨v, hv⟩
      · have hfresh := SchOp.eq_none_of_fresh ha1 s hs
        cases hfor with
        | own hm hnew =>
            obtain ⟨th1, hnt⟩ := zcrtSThrNew_ok hnew hv (SchOp.eq_none_of_fresh ha2)
            exact ⟨_, hatt.chains ((congrFun hnt.schs s).trans hfresh) hnt.chains⟩
        | shared htype hz => exact ⟨v, hatt.chains hfresh hv⟩
  | createShare sch1 pri maxsize mem =>
      obtain ⟨⟨r, w1⟩, hrun, rfl⟩ := except_map_eq_ok hr
      obtain ⟨-, ha2⟩ := Bool.and_eq_true_iff.mp ha
      obtain ⟨v, hv⟩ := hw
      rcases zcrtScheduleCreateShare_ok hrun with
        ⟨-, rfl⟩ | ⟨s, s1, sc1, t, th, th', sc, -, hs, -, -, -, -, hatt⟩
      · exact ⟨v, hv⟩
      · exact ⟨v, hatt.chains (SchOp.eq_none_of_fresh ha2 s hs) hv⟩
  | sendjob hd cb p1 p2 mem =>
      obtain ⟨⟨r, w1⟩, hrun, rfl⟩ := except_map_eq_ok hr
      obtain ⟨-, ha2⟩ := Bool.and_eq_true_iff.mp ha
      exact (sendjob_sends hrun).counted hw (SchOp.eq_none_of_fresh ha2)
        (hlast hd mem (Or.inl ⟨cb, p1, p2, rfl⟩))
  | sendjobArgn hd cb args mem =>
      obtain ⟨⟨r, w1⟩, hrun, rfl⟩ := except_map_eq_ok hr
      obtain ⟨-, ha2⟩ := Bool.and_eq_true_iff.mp ha
      exact (sendjobArgn_sends hrun).counted hw (SchOp.eq_none_of_fresh ha2)
        (hlast hd mem (Or.inr ⟨cb, args, rfl⟩))
  | work t =>
      obtain ⟨⟨r, w1⟩, hrun, rfl⟩ := except_map_eq_ok hr
      obtain ⟨v, hv⟩ := hw
      obtain ⟨th, ht⟩ := Option.isSome_iff_exists.mp ha
      rcases zcrtScheduleThreadProc_ok hv ht with
        ⟨hnone, -⟩ | ⟨a, s, sc, j, rest, w2, th', hsome, htaken⟩
      · obtain ⟨-, rfl⟩ := Prod.mk.inj (Except.ok.inj (hnone.symm.trans hrun))
        exact ⟨v, hv⟩
      · obtain ⟨-, rfl⟩ := Prod.mk.inj (Except.ok.inj (hsome.symm.trans hrun))
        exact ⟨_, htaken.chains hv⟩
  | delete hd fuel =>
      cases hd with
      | none =>
          obtain rfl := Except.ok.inj hr
          exact hw
      | some s =>
          obtain ⟨v, hv⟩ := hw
          obtain ⟨_, _, _, _, _, v1, _, _, _, _, _, _, -, -, hchains⟩ := zcrtScheduleDelete_ok hv hr
          exact ⟨v1, hchains⟩

/-- In any state that counts: a removal, given rounds enough, and any call or turn of a worker. -/
theorem zcrtSThrRemoveSch_exact (w : SchHeap F P) (v : SchView) (h : Chains w v) :
    (∀ t s th sc l fuel, w.thrs t = some th → w.schs s = some sc → sc.thr = some t →
      sc.pri ≠ .num → Seg w.schLinks th.schList l none → (v.que t sc.pri).length < fuel →
      l.length < fuel →
      ∃ w' th' sc', zcrtSThrRemoveSch w t s fuel = .ok w' ∧
        SchRemoved w w' v l t s th th' sc sc' ∧ Counted w') ∧
    ∀ op w', SendsToLast w op → schSys.next w op = some w' → Counted w' := by
  refine ⟨fun t s th sc l fuel ht hs hst hp hl hf hfl => ?_, fun op w' hlast hn => ?_⟩
  · obtain ⟨w', v', th', sc', hrun, hchains, hrem⟩ := zcrtSThrRemoveSch_ok h ht hs hst hp hl hf hfl
    exact ⟨w', th', sc', hrun, hrem, v', hchains⟩
  · exact Counted.next ⟨v, h⟩ hlast hn

/-- Two schedules of one queue, with the jobs of the first before, behind and between those of the
    second. -/
theorem zcrtSThrRemoveSch_exact_shared : ∃ (w w' : SchHeap Unit Unit) (v : SchView)
    (th th' : SchThr) (sc sc' : ZSchedule) (fuel : Nat), sc.cursize = 3 ∧
      zcrtSThrRemoveSch w 0 1 fuel = .ok w' ∧ SchRemoved w w' v [2, 1] 0 1 th th' sc sc' ∧
      Counted w' := by
  obtain ⟨w, h, hp⟩ := Sys.reach_of_run (C := fun _ _ => True) (c := fun _ _ => true)
    (p := fun w => (w.thrs 0).map SchThr.schList == some (some 2) &&
      ((w.schs 1).map (fun sc => (sc.thr, sc.pri, sc.cursize, sc.next)) ==
        some (some 0, .priLow, 3, none) && (w.schs 2).map ZSchedule.next == some (some 1)))
    (fun _ _ _ => trivial) (Sys.Reach.init (moduleHeap_init (F := Unit) (P := Unit)))
    [.create .zcrtThread .priLow 8 (some 1) none, .createShare (some 1) .priLow 8 (some 2),
      .sendjob (some 1) (some ()) () () (some 1), .sendjob (some 2) (some ()) () () (some 2),
      .sendjob (some 1) (some ()) () () (some 3), .sendjob (some 2) (some ()) () () (some 4),
      .sendjob (some 1) (some ()) () () (some 5)]
    (by decide)
  simp only [Bool.and_eq_true, beq_iff_eq, Option.map_eq_some_iff] at hp
  obtain ⟨⟨th, ht, hlist⟩, ⟨sc, hs, hsc⟩, ⟨sc2, hs2, hnext2⟩⟩ := hp
  simp only [Prod.mk.injEq] at hsc
  obtain ⟨hst, hpri, hcur, hnext⟩ := hsc
  obtain ⟨v, hv, -⟩ := queWeak_of_reachable h
  have hl : Seg w.schLinks th.schList [2, 1] none := by
    refine ⟨hlist, _, SchHeap.schLinks_of_schs hs2, hnext2, _, SchHeap.schLinks_of_schs hs, hnext⟩
  obtain ⟨w', th', sc', hrun, hrem, hcounted⟩ := (zcrtSThrRemoveSch_exact w v hv).1 0 1 th sc [2, 1]
    ((v.que 0 sc.pri).length + 3) ht hs hst (by rw [hpri]; decide) hl (by omega) (by simp)
  exact ⟨w, w', v, th, th', sc, sc', _, hcur, hrun, hrem, hcounted⟩

end Zcrt
