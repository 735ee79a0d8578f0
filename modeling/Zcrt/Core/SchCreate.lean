/-
  `zcrt_schedule_create` and `zcrt_schedule_create_share`: a schedule more on a thread.

  * `Attached`: what both do to the heap, the thread being there.
  * `zcrtScheduleCreate_ok`, `zcrtScheduleCreateShare_ok`: that is what they do.
  * `Attached.chains`, `Attached.tails`: no queue is changed.
-/
import Zcrt.Core.SchOps

namespace Zcrt

open Lib

variable {F P : Type} {w w' : SchHeap F P} {v : SchView} {t s : Nat} {th : SchThr} {sc : ZSchedule}

/-- Schedule `s` is new, without jobs, and counted by its thread `t`. -/
structure Attached (w w' : SchHeap F P) (t s : Nat) (th th' : SchThr) (sc : ZSchedule) : Prop where
  thr : w.thrs t = some th
  thrs : w'.thrs = Function.update w.thrs t (some th')
  que : th'.que = th.que
  freejobs : th'.freejobs = th.freejobs
  run : th'.run = th.run
  refCnt : th'.refCnt = th.refCnt + 1
  schs : w'.schs = Function.update w.schs s (some sc)
  schThr : sc.thr = some t
  cursize : sc.cursize = 0
  maxsize : 0 ≤ sc.maxsize
  jobs : w'.jobs = w.jobs
  zcrtthr : w'.zcrtthr = w.zcrtthr

theorem zcrtSThrAddSch_ok (ht : w.thrs t = some th) (hs : w.schs s = some sc) :
    ∃ n, zcrtSThrAddSch w t s =
      .ok ((w.setSch s { sc with next := n }).setThr t { th with schList := some s }) := by
  unfold zcrtSThrAddSch
  rw [deref_some ht, except_ok_bind]
  dsimp only
  rw [deref_some hs, except_ok_bind]
  dsimp only
  by_cases hl : th.schList.isSome = true
  · rw [if_pos hl]
    exact ⟨th.schList, rfl⟩
  · rw [if_neg hl]
    refine ⟨sc.next, ?_⟩
    have hsame : w.setSch s sc = w := by
      unfold SchHeap.setSch
      rw [← hs, Function.update_eq_self]
    rw [hsame]
    rfl

/-- The common end of the two: the thread's count, and its list of schedules. -/
theorem attached (ht : w.thrs t = some th) (hst : sc.thr = some t) (hc : sc.cursize = 0)
    (hm : 0 ≤ sc.maxsize) :
    ∃ w' th' sc',
      zcrtSThrAddSch ((w.setSch s sc).setThr t { th with refCnt := th.refCnt + 1 }) t s =
        .ok w' ∧ sc'.type = sc.type ∧ sc'.pri = sc.pri ∧ Attached w w' t s th th' sc' := by
  let th1 : SchThr := { th with refCnt := th.refCnt + 1 }
  have ht1 : ((w.setSch s sc).setThr t th1).thrs t = some th1 := Function.update_self ..
  have hs1 : ((w.setSch s sc).setThr t th1).schs s = some sc := Function.update_self ..
  obtain ⟨n, hn⟩ := zcrtSThrAddSch_ok ht1 hs1
  refine ⟨_, { th1 with schList := some s }, { sc with next := n }, hn, rfl, rfl, ?_⟩
  exact {
    thr := ht
    thrs := Function.update_idem ..
    que := rfl
    freejobs := rfl
    run := rfl
    refCnt := rfl
    schs := Function.update_idem ..
    schThr := hst
    cursize := hc
    maxsize := hm
    jobs := rfl
    zcrtthr := rfl }

/-- The heap with the thread `zcrt_schedule_create` attaches to: a new one or that of the module. -/
inductive ThrFor (w : SchHeap F P) (memThr : Option Nat) : EZCRTSchType → SchHeap F P → Nat → Prop
  | own {t : Nat} {w1 : SchHeap F P} (hm : memThr = some t)
      (h : zcrtSThrNew w true memThr = .ok (t, w1)) : ThrFor w memThr .selfThread w1 t
  | shared {t : Nat} {type : EZCRTSchType} (htype : type ≠ .selfThread) (h : w.zcrtthr = some t) :
      ThrFor w memThr type w t

/-- `zcrt_schedule_create` either has no memory, or makes a schedule. -/
theorem zcrtScheduleCreate_ok {type : EZCRTSchType} {pri : EZCRTPriority} {maxsize : UInt16}
    {mem memThr r : Option Nat}
    (h : zcrtScheduleCreate w type pri maxsize mem memThr = .ok (r, w')) :
    (r = none ∧ w' = w) ∨ ∃ s w1 t th th' sc, r = some s ∧ mem = some s ∧
      ThrFor w memThr type w1 t ∧
      sc.type = type ∧ sc.pri = pri ∧ Attached w1 w' t s th th' sc := by
  unfold zcrtScheduleCreate at h
  cases mem with
  | none =>
      obtain ⟨rfl, rfl⟩ := Prod.mk.inj (Except.ok.inj h)
      exact Or.inl ⟨rfl, rfl⟩
  | some s =>
      dsimp only at h
      obtain ⟨⟨thr, w1⟩, hthr, h⟩ := except_bind_eq_ok h
      dsimp only at h
      obtain ⟨⟨t, th⟩, ht, h⟩ := except_bind_eq_ok h
      obtain ⟨hthrt, ht⟩ := deref_eq_ok ht
      dsimp only at hthrt ht h
      subst hthrt
      have hfor : ThrFor w memThr type w1 t := by
        unfold createThr at hthr
        by_cases htype : type = .selfThread
        · rw [if_pos htype] at hthr
          obtain ⟨⟨t1, w2⟩, hnew, hthr⟩ := except_bind_eq_ok hthr
          obtain ⟨h1, rfl⟩ := Prod.mk.inj (Except.ok.inj hthr)
          obtain rfl := Option.some.inj h1
          subst htype
          refine ThrFor.own ?_ hnew
          cases memThr with
          | none => exact nomatch hnew
          | some t2 => rw [(Prod.mk.inj (Except.ok.inj hnew)).1]
        · rw [if_neg htype] at hthr
          obtain ⟨h1, rfl⟩ := Prod.mk.inj (Except.ok.inj hthr)
          exact ThrFor.shared htype h1
      obtain ⟨w2, hadd, h⟩ := except_bind_eq_ok h
      obtain ⟨rfl, rfl⟩ := Prod.mk.inj (Except.ok.inj h)
      let sc0 : ZSchedule :=
        { thr := some t, maxsize := maxsize.toNat, pri := pri, type := type, cursize := 0,
          maxhold := 0, next := none }
      obtain ⟨w3, th', sc', hadd', htype, hpri, hatt⟩ := attached (w := w1) (s := s) ht
        (show sc0.thr = some t from rfl) rfl (Int.natCast_nonneg _)
      rw [hadd'] at hadd
      obtain rfl := Except.ok.inj hadd
      exact Or.inr ⟨s, w1, t, th, th', sc', rfl, rfl, hfor, htype, hpri, hatt⟩

/-- `zcrt_schedule_create_share`, likewise; the thread is the one shared or that of the module. -/
theorem zcrtScheduleCreateShare_ok {sch1 : Option Nat} {pri : EZCRTPriority} {maxsize : UInt16}
    {mem r : Option Nat} (h : zcrtScheduleCreateShare w sch1 pri maxsize mem = .ok (r, w')) :
    (r = none ∧ w' = w) ∨ ∃ s s1 sc1 t th th' sc, r = some s ∧ mem = some s ∧ sch1 = some s1 ∧
      w.schs s1 = some sc1 ∧
      (sc1.type = .selfThread ∧ sc.type = .shareThread ∧ sc1.thr = some t ∨
        sc1.type ≠ .selfThread ∧ sc.type = .zcrtThread ∧ w.zcrtthr = some t) ∧
      sc.pri = pri ∧ Attached w w' t s th th' sc := by
  unfold zcrtScheduleCreateShare at h
  cases mem with
  | none =>
      obtain ⟨rfl, rfl⟩ := Prod.mk.inj (Except.ok.inj h)
      exact Or.inl ⟨rfl, rfl⟩
  | some s =>
      cases sch1 with
      | none =>
          obtain ⟨rfl, rfl⟩ := Prod.mk.inj (Except.ok.inj h)
          exact Or.inl ⟨rfl, rfl⟩
      | some s1 =>
          dsimp only at h
          obtain ⟨⟨s0, sc1⟩, hs1, h⟩ := except_bind_eq_ok h
          obtain ⟨hs0, hs1⟩ := deref_eq_ok hs1
          obtain rfl := Option.some.inj hs0
          dsimp only at hs1 h
          obtain ⟨⟨t, th⟩, ht, h⟩ := except_bind_eq_ok h
          obtain ⟨hthrt, ht⟩ := deref_eq_ok ht
          dsimp only at hthrt ht h
          obtain ⟨w2, hadd, h⟩ := except_bind_eq_ok h
          obtain ⟨rfl, rfl⟩ := Prod.mk.inj (Except.ok.inj h)
          let sc0 : ZSchedule :=
            { thr := some t, maxsize := maxsize.toNat, pri := pri,
              type := (if sc1.type = .selfThread then (EZCRTSchType.shareThread, sc1.thr)
                else (EZCRTSchType.zcrtThread, w.zcrtthr)).1,
              cursize := 0, maxhold := 0, next := none }
          obtain ⟨w3, th', sc', hadd', htype, hpri, hatt⟩ := attached (w := w) (s := s) ht
            (show sc0.thr = some t from rfl) rfl (Int.natCast_nonneg _)
          obtain rfl := Except.ok.inj (hadd'.symm.trans hadd)
          refine Or.inr ⟨s, s1, sc1, t, th, th', sc', rfl, rfl, rfl, hs1, ?_, hpri, hatt⟩
          dsimp only [sc0] at htype
          by_cases hself : sc1.type = .selfThread
          · rw [if_pos hself] at htype hthrt
            exact Or.inl ⟨hself, htype, hthrt⟩
          · rw [if_neg hself] at htype hthrt
            exact Or.inr ⟨hself, htype, hthrt⟩

/-! ## The queues -/

section Queues

variable {th' : SchThr}

theorem Attached.chains (h : Attached w w' t s th th' sc) (hs : w.schs s = none)
    (hv : Chains w v) : Chains w' v := by
  have h1 := hv.setThr h.thr h.que h.freejobs
  have ht : (w.setThr t th').thrs t = some th' := Function.update_self ..
  have h2 := h1.newSch (s := s) hs h.schThr ht h.cursize
  have hw : w' = { (w.setThr t th').setSch s sc with schthrList := w'.schthrList } := by
    rw [SchHeap.setSch, SchHeap.setThr, ← h.thrs, ← h.schs, ← h.jobs, ← h.zcrtthr]
  rw [hw]
  exact ⟨h2.que, h2.free, h2.place, h2.freeOwner, h2.freeDisj, h2.count, h2.thr, h2.live⟩

theorem Attached.tails {R : Option Nat → List Nat → Prop} (h : Attached w w' t s th th' sc)
    (htail : Tails R w v) : Tails R w' v :=
  htail.keep h.thr h.thrs h.que

/-- Thread `t` is new and has nothing to do. -/
structure NewThr (w w' : SchHeap F P) (v : SchView) (t : Nat) (th' : SchThr) : Prop where
  fresh : w.thrs t = none
  chains : Chains w' (v.setFree t [])
  thrs : w'.thrs = Function.update w.thrs t (some th')
  que : th'.que = fun _ => { jobs := none, tail := none }
  run : th'.run = true
  refCnt : th'.refCnt = 0
  schs : w'.schs = w.schs
  jobs : w'.jobs = w.jobs
  zcrtthr : w'.zcrtthr = w.zcrtthr
  empty : ∀ p, v.que t p = []

theorem zcrtSThrNew_ok {module : Bool} {mem : Option Nat}
    (h : zcrtSThrNew w module mem = .ok (t, w'))
    (hv : Chains w v) (hm : ∀ a, mem = some a → w.thrs a = none) :
    ∃ th', NewThr w w' v t th' := by
  unfold zcrtSThrNew at h
  cases mem with
  | none => exact nomatch h
  | some a =>
      obtain ⟨rfl, rfl⟩ := Prod.mk.inj (Except.ok.inj h)
      have hfresh := hm a rfl
      let th' : SchThr :=
        { que := fun _ => { jobs := none, tail := none }, freejobs := none, run := true,
          refCnt := 0,
          schList := none, next := if module then w.schthrList else none, joballoced := 0,
          jobfreed := 0, jobadded := 0 }
      have h1 :=
        hv.newThr hfresh (show th'.que = fun _ => { jobs := none, tail := none } from rfl) rfl
      refine ⟨th', ?_⟩
      exact {
        fresh := hfresh
        chains := ⟨h1.que, h1.free, h1.place, h1.freeOwner, h1.freeDisj, h1.count, h1.thr, h1.live⟩
        thrs := rfl
        que := rfl
        run := rfl
        refCnt := rfl
        schs := rfl
        jobs := rfl
        zcrtthr := rfl
        empty := fun p => by
          refine List.eq_nil_iff_forall_not_mem.mpr fun b hb => ?_
          obtain ⟨s1, sc1, -, hs1, hst1, -⟩ := hv.place a p b hb
          obtain ⟨t1, th1, ht1, hth1⟩ := hv.thr s1 sc1 hs1
          obtain rfl := Option.some.inj (hst1.symm.trans ht1)
          rw [hfresh] at hth1
          exact nomatch hth1 }

theorem NewThr.tails {R : Option Nat → List Nat → Prop} {th' : SchThr} (h : NewThr w w' v t th')
    (htail : Tails R w v) (hR : R none []) : Tails R w' (v.setFree t []) := by
  intro t1 th1 p1 h1 hp1
  rw [h.thrs] at h1
  rcases update_eq_some h1 with ⟨rfl, rfl⟩ | ⟨-, h1⟩
  · rw [h.que, SchView.setFree_que, h.empty p1]
    exact hR
  · exact htail t1 th1 p1 h1 hp1

/-- No schedule is gone, or changed its priority. -/
def PriKept (w w' : SchHeap F P) : Prop :=
  ∀ s sc, w.schs s = some sc → ∃ sc', w'.schs s = some sc' ∧ sc'.pri = sc.pri

theorem PriKept.of_eq {w w' : SchHeap F P} (h : w'.schs = w.schs) : PriKept w w' :=
  fun s sc hs => ⟨sc, by rw [h, hs], rfl⟩

theorem PriKept.of_update {w w' : SchHeap F P} {s : Nat} {sc sc' : ZSchedule}
    (h : w'.schs = Function.update w.schs s (some sc')) (hs : w.schs s = some sc)
    (hp : sc'.pri = sc.pri) : PriKept w w' := by
  intro s1 sc1 hs1
  rw [h]
  by_cases he : s1 = s
  · subst he
    obtain rfl := Option.some.inj (hs.symm.trans hs1)
    exact ⟨sc', Function.update_self .., hp⟩
  · exact ⟨sc1, by rw [Function.update_of_ne he, hs1], rfl⟩

theorem PriKept.of_new {w w' : SchHeap F P} {s : Nat} {sc' : ZSchedule}
    (h : w'.schs = Function.update w.schs s (some sc')) (hs : w.schs s = none) : PriKept w w' := by
  intro s1 sc1 hs1
  refine ⟨sc1, ?_, rfl⟩
  rw [h, Function.update_of_ne]
  · exact hs1
  · rintro rfl
    rw [hs] at hs1
    exact nomatch hs1

/-- Each schedule was there before, or is without jobs. -/
def SchsGrow (w w' : SchHeap F P) : Prop :=
  ∀ s sc, w'.schs s = some sc → w.schs s = some sc ∨ sc.cursize = 0 ∧ 0 ≤ sc.maxsize

theorem SchsGrow.of_eq {w w' : SchHeap F P} (h : w'.schs = w.schs) : SchsGrow w w' :=
  fun s sc hs => Or.inl (by rw [← h, hs])

theorem Attached.grow (h : Attached w w' t s th th' sc) : SchsGrow w w' := fun s1 sc1 hs1 => by
  rw [h.schs] at hs1
  by_cases he : s1 = s
  · rw [he, Function.update_self] at hs1
    obtain rfl := Option.some.inj hs1
    exact Or.inr ⟨h.cursize, h.maxsize⟩
  · rw [Function.update_of_ne he] at hs1
    exact Or.inl hs1

/-- What a creation is to the queues and the jobs: nothing. -/
structure Created (R : Option Nat → List Nat → Prop) (w w' : SchHeap F P) (v v' : SchView) :
    Prop where
  chains : Chains w' v'
  tails : Tails R w' v'
  que : v'.que = v.que
  free : ∀ t, ∀ a ∈ v'.free t, a ∈ v.free t
  jobs : w'.jobs = w.jobs
  pri : PriKept w w'
  grow : SchsGrow w w'

theorem created_refl {R : Option Nat → List Nat → Prop} (hv : Chains w v) (htail : Tails R w v) :
    Created R w w v v :=
  ⟨hv, htail, rfl, fun _ _ ha => ha, rfl, PriKept.of_eq rfl, SchsGrow.of_eq rfl⟩

theorem Attached.created {R : Option Nat → List Nat → Prop} (h : Attached w w' t s th th' sc)
    (hs : w.schs s = none) (hv : Chains w v) (htail : Tails R w v) : Created R w w' v v :=
  ⟨h.chains hs hv, h.tails htail, rfl, fun _ _ ha => ha, h.jobs, PriKept.of_new h.schs hs, h.grow⟩

theorem create_created {R : Option Nat → List Nat → Prop} (hR : TailRule R) (hv : Chains w v)
    (htail : Tails R w v) {type : EZCRTSchType} {pri : EZCRTPriority} {maxsize : UInt16}
    {mem memThr r : Option Nat} (hmem : ∀ a, mem = some a → w.schs a = none)
    (hthr : ∀ a, memThr = some a → w.thrs a = none)
    (hrun : zcrtScheduleCreate w type pri maxsize mem memThr = .ok (r, w')) :
    ∃ v', Created R w w' v v' := by
  rcases zcrtScheduleCreate_ok hrun with ⟨-, rfl⟩ | ⟨s, w1, t, th, th', sc, -, hs, hfor, -, -, hatt⟩
  · exact ⟨v, created_refl hv htail⟩
  · have hfresh := hmem s hs
    cases hfor with
    | own hm hnew =>
        obtain ⟨th1, hn⟩ := zcrtSThrNew_ok hnew hv hthr
        have hfresh1 : w1.schs s = none := by rw [hn.schs, hfresh]
        have hc := hatt.created hfresh1 hn.chains (hn.tails htail hR.empty)
        refine ⟨_, hc.chains, hc.tails, rfl, fun t' a ha => ?_, hc.jobs.trans hn.jobs, ?_,
          fun s1 sc1 hs1 => ?_⟩
        · by_cases ht' : t' = t
          · subst ht'
            rw [SchView.setFree_self] at ha
            exact absurd ha List.not_mem_nil
          · rwa [SchView.setFree_of_ne _ _ ht'] at ha
        · exact PriKept.of_new (by rw [hatt.schs, hn.schs]) hfresh
        · rw [← hn.schs]
          exact hc.grow s1 sc1 hs1
    | shared htype hz => exact ⟨v, hatt.created hfresh hv htail⟩

theorem createShare_created {R : Option Nat → List Nat → Prop} (hv : Chains w v)
    (htail : Tails R w v) {sch1 : Option Nat} {pri : EZCRTPriority} {maxsize : UInt16}
    {mem r : Option Nat} (hmem : ∀ a, mem = some a → w.schs a = none)
    (hrun : zcrtScheduleCreateShare w sch1 pri maxsize mem = .ok (r, w')) :
    ∃ v', Created R w w' v v' := by
  rcases zcrtScheduleCreateShare_ok hrun with
    ⟨-, rfl⟩ | ⟨s, s1, sc1, t, th, th', sc, -, hs, -, -, -, -, hatt⟩
  · exact ⟨v, created_refl hv htail⟩
  · exact ⟨v, hatt.created (hmem s hs) hv htail⟩

end Queues

end Zcrt
