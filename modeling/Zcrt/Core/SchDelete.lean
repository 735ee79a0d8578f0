/-
  `zcrt_schedule_delete`: what the loop of `_zcrt_s_thr_remove_sch` leaves in the queue.

  * `removeStep_ok`: one of the schedule's jobs goes.
  * `removeLoop_ok`: the others stay in order, and `tail` is `NULL` when the last job went.
  * `zcrtScheduleDelete_inv`: the queues are as they should be unless that job had others before it.
-/
import Zcrt.Core.SchOps

namespace Zcrt

open Lib

variable {F P : Type} {w : SchHeap F P} {v : SchView} {t s a : Nat} {th : SchThr} {sc : ZSchedule}

/-- One round of the loop at a job of the schedule, with the jobs `k` kept before it. -/
theorem removeStep_ok (h : Chains w v) (ht : w.thrs t = some th) (hs : w.schs s = some sc)
    (hst : sc.thr = some t) (hp : sc.pri ≠ .num) {k r : List Nat}
    (hq : v.que t sc.pri = k ++ a :: r) (ho : w.owner a = some s) :
    ∃ w' th' j, (∀ fuel, removeLoop t s sc.pri (fuel + 1) w (k.getLast?.or (some a)) (some a) =
        removeLoop t s sc.pri fuel w' (k.getLast?.or r.head?) r.head?) ∧
      Chains.Unlink w w' t th th' s sc a j k ∧ SameBut th th' sc.pri ∧
      ((th'.que sc.pri).tail =
        if (th.que sc.pri).tail = some a then none else (th.que sc.pri).tail) ∧
      ∀ b, b ∉ k ++ a :: r → w'.jobs b = w.jobs b := by
  have haq : a ∈ v.que t sc.pri := by
    rw [hq]
    simp
  obtain ⟨j, hj⟩ := h.live t sc.pri a (Or.inl haq)
  have hjs : j.sch = some s := (SchHeap.owner_of_jobs hj).symm.trans ho
  have hseg := h.que t th sc.pri ht hp
  rw [hq] at hseg
  have hnodup := hseg.nodup
  -- its link is what follows
  have hnext : j.next = r.head? := by
    obtain ⟨m, -, -, n, hn, hr⟩ := Seg.append_iff.mp hseg
    rw [SchHeap.links_of_jobs hj] at hn
    rw [Option.some.inj hn]
    exact hr.head
  have hsize : sc.cursize ≠ 0 := by
    rw [h.count s sc t hs hst]
    have : 0 < (v.que t sc.pri).countP fun b => w.owner b = some s :=
      List.countP_pos_iff.mpr ⟨a, haq, by simpa using ho⟩
    omega
  let jd : ScheduleJob F P := { j with next := th.freejobs, fn := none, sch := none }
  let th1 : SchThr := { th with freejobs := some a, jobfreed := th.jobfreed + 1 }
  let w1 := ((w.setJob a jd).setThr t th1).setSch s { sc with cursize := sc.cursize - 1 }
  have hdel : zcrtSJobDeleteHasMutex w t a = .ok w1 := zcrtSJobDeleteHasMutex_ok hj hjs ht hs
  have ht1 : w1.thrs t = some th1 := Function.update_self ..
  have hround : ∀ fuel prev w3 prev3 que3,
      (prev = some a ∧ w3 = w1 ∧ prev3 = j.next ∧ que3 = { th1.que sc.pri with jobs := j.next } ∨
        ∃ x jx, prev = some x ∧ x ≠ a ∧ w1.jobs x = some jx ∧
          w3 = w1.setJob x { jx with next := j.next } ∧ prev3 = some x ∧ que3 = th1.que sc.pri) →
      removeLoop t s sc.pri (fuel + 1) w prev (some a) =
        removeLoop t s sc.pri fuel (w3.setThr t (th1.setQue sc.pri { que3 with
          tail := if que3.tail = some a then none else que3.tail })) prev3 j.next := by
    intro fuel prev w3 prev3 que3 hprev
    rw [removeLoop]
    dsimp only
    rw [deref_some hs, except_ok_bind]
    dsimp only
    rw [if_neg hsize, deref_some hj, except_ok_bind]
    dsimp only
    rw [if_pos hjs, hdel, except_ok_bind, deref_some ht1, except_ok_bind]
    dsimp only
    rcases hprev with ⟨rfl, rfl, rfl, rfl⟩ | ⟨x, jx, rfl, hxa, hjx, rfl, rfl, rfl⟩
    · rw [if_pos rfl]
      rfl
    · rw [if_neg fun he => hxa (Option.some.inj he), deref_some hjx]
      rfl
  -- the thread afterwards, `jobs` being what the queue begins with
  let th2 : Option Nat → SchThr := fun jobs => th1.setQue sc.pri
    { jobs := jobs, tail := if (th.que sc.pri).tail = some a then none else (th.que sc.pri).tail }
  have hself : ∀ jobs, (th2 jobs).que sc.pri = ⟨jobs, if (th.que sc.pri).tail = some a then none
      else (th.que sc.pri).tail⟩ := fun jobs => Function.update_self ..
  have hother : ∀ jobs p, p ≠ sc.pri → (th2 jobs).que p = th.que p :=
    fun jobs p hp => Function.update_of_ne hp ..
  have hthrs : ∀ jobs, Function.update (Function.update w.thrs t (some th1)) t (some (th2 jobs)) =
      Function.update w.thrs t (some (th2 jobs)) := fun jobs => Function.update_idem ..
  have hlinks1 : ∀ b, b ≠ a → w1.links b = w.links b := fun b hb => by
    rw [SchHeap.setSch_links, SchHeap.setThr_links, SchHeap.setJob_links, Function.update_of_ne hb]
  have hlinka : w1.links a = some th.freejobs := by
    rw [SchHeap.setSch_links, SchHeap.setThr_links, SchHeap.setJob_links, Function.update_self]
  have howner1 : w1.owner = Function.update w.owner a none := by
    rw [SchHeap.setSch_owner, SchHeap.setThr_owner, SchHeap.setJob_owner]
  have hjob1 : ∀ b, b ≠ a → w1.jobs b = w.jobs b := fun b hb => Function.update_of_ne hb ..
  rcases List.eq_nil_or_concat k with rfl | ⟨k', x, rfl⟩
  · -- nothing is kept before it: the queue begins with its link
    refine ⟨w1.setThr t (th2 j.next), th2 j.next, j, fun fuel => ?_, ?_, ?_, by rw [hself],
      fun b hb => hjob1 b fun he => hb (he ▸ List.mem_cons_self)⟩
    · rw [← hnext]
      exact hround fuel _ _ _ _ (Or.inl ⟨rfl, rfl, rfl, rfl⟩)
    · exact
        { thr := ht, sch := hs, job := hj, jobSch := hjs, thrs := hthrs j.next, schs := rfl,
          freejobs := rfl, otherQue := hother _, link := hlinka,
          links := fun b hb _ => hlinks1 b hb,
          first := fun _ => by rw [hself],
          before := fun x hx => absurd hx.symm (Option.some_ne_none x), owner := howner1,
          zcrtthr := rfl, live := fun b hb => SchHeap.live_setJob hb }
    · exact ⟨hother _, rfl, rfl, rfl, rfl⟩
  · -- the job before it gets its link
    rw [List.concat_eq_append] at hq hnodup ⊢
    have hlast : (k' ++ [x]).getLast? = some x := by
      rw [List.getLast?_append, List.getLast?_singleton, Option.some_or]
    have hxq : x ∈ v.que t sc.pri := by
      rw [hq]
      simp
    have hxa : x ≠ a := by
      rintro rfl
      have := (List.nodup_cons.mp (List.nodup_middle.mp hnodup)).1
      exact this (by simp)
    obtain ⟨jx, hjx⟩ := h.live t sc.pri x (Or.inl hxq)
    have hjx1 : w1.jobs x = some jx := by
      rw [SchHeap.setSch_jobs, SchHeap.setThr_jobs, SchHeap.setJob_jobs, Function.update_of_ne hxa]
      exact hjx
    let w2 := w1.setJob x { jx with next := j.next }
    let jobs := (th.que sc.pri).jobs
    refine ⟨w2.setThr t (th2 jobs), th2 jobs, j, fun fuel => ?_, ?_, ?_, by rw [hself],
      fun b hb => ?_⟩
    · rw [hlast, Option.some_or, Option.some_or, ← hnext]
      exact hround fuel _ _ _ _ (Or.inr ⟨x, jx, rfl, hxa, hjx1, rfl, rfl, rfl⟩)
    · refine
        { thr := ht, sch := hs, job := hj, jobSch := hjs, thrs := hthrs jobs, schs := rfl,
          freejobs := rfl, otherQue := hother _, link := ?_, links := fun b hb hbx => ?_,
          first := fun hk => by simp at hk, before := fun y hy => ?_, owner := ?_,
          zcrtthr := rfl, live := fun b hb => SchHeap.live_setJob (SchHeap.live_setJob hb) }
      · rw [SchHeap.setThr_links, SchHeap.setJob_links, Function.update_of_ne hxa.symm, hlinka]
      · rw [hlast] at hbx
        rw [SchHeap.setThr_links, SchHeap.setJob_links,
          Function.update_of_ne fun he => hbx (by rw [he]), hlinks1 b hb]
      · rw [hlast] at hy
        obtain rfl := Option.some.inj hy
        rw [hself, SchHeap.setThr_links, SchHeap.setJob_links, Function.update_self]
        exact ⟨rfl, rfl⟩
      · rw [SchHeap.setThr_owner, SchHeap.setJob_owner, howner1]
        refine Function.update_eq_self_iff.mpr ?_
        rw [Function.update_of_ne hxa, SchHeap.owner_of_jobs hjx]
    · exact ⟨hother _, rfl, rfl, rfl, rfl⟩
    · have hba : b ≠ a := fun he => hb (he ▸ List.mem_append_right _ List.mem_cons_self)
      have hbx : b ≠ x := fun he => hb (he ▸ List.mem_append_left _ (by simp))
      exact (Function.update_of_ne hbx ..).trans (hjob1 b hba)

/-- One round at a job of another schedule, or the end when no job of this one is left. -/
theorem removeKeep_ok (h : Chains w v) (ht : w.thrs t = some th) (hs : w.schs s = some sc)
    (hp : sc.pri ≠ .num) {k r : List Nat} (hq : v.que t sc.pri = k ++ a :: r)
    (ho : w.owner a ≠ some s) (fuel : Nat) (prev : Option Nat) :
    removeLoop t s sc.pri (fuel + 1) w prev (some a) =
      if sc.cursize = 0 then .ok w else removeLoop t s sc.pri fuel w (some a) r.head? := by
  have haq : a ∈ v.que t sc.pri := by
    rw [hq]
    simp
  obtain ⟨j, hj⟩ := h.live t sc.pri a (Or.inl haq)
  have hjs : j.sch ≠ some s := fun he => ho ((SchHeap.owner_of_jobs hj).trans he)
  have hseg := h.que t th sc.pri ht hp
  rw [hq] at hseg
  have hnext : j.next = r.head? := by
    obtain ⟨m, -, -, n, hn, hr⟩ := Seg.append_iff.mp hseg
    rw [SchHeap.links_of_jobs hj] at hn
    rw [Option.some.inj hn]
    exact hr.head
  rw [removeLoop]
  dsimp only
  rw [deref_some hs, except_ok_bind]
  dsimp only
  split
  · rfl
  · rw [deref_some hj, except_ok_bind]
    dsimp only
    rw [if_neg hjs, hnext]

/-- What the loop leaves of the jobs `r` it goes over, `k` being those before them. -/
structure Removed (w w' : SchHeap F P) (v v' : SchView) (t s : Nat) (th th' : SchThr)
    (sc : ZSchedule) (k r : List Nat) : Prop where
  chains : Chains w' v'
  que : v'.que t sc.pri = k ++ r.filter fun b => w.owner b ≠ some s
  otherQue : ∀ t' p', ¬(t' = t ∧ p' = sc.pri) → v'.que t' p' = v.que t' p'
  free : v'.free t = (r.filter fun b => w.owner b = some s).reverse ++ v.free t
  thrs : w'.thrs = Function.update w.thrs t (some th')
  same : SameBut th th' sc.pri
  schs : w'.schs = Function.update w.schs s (some { sc with cursize := 0 })
  owner : ∀ b, w.owner b ≠ some s → w'.owner b = w.owner b
  otherFree : ∀ t', t' ≠ t → v'.free t' = v.free t'
  otherJob : ∀ b, b ∉ k ++ r → w'.jobs b = w.jobs b
  zcrtthr : w'.zcrtthr = w.zcrtthr
  tailNone : (th.que sc.pri).tail = none → (th'.que sc.pri).tail = none
  tail : ∀ z, (th.que sc.pri).tail = some z →
    (th'.que sc.pri).tail = if z ∈ r ∧ w.owner z = some s then none else some z

/-- Nothing is left to remove. -/
theorem removed_refl (h : Chains w v) (ht : w.thrs t = some th) (hs : w.schs s = some sc)
    (hst : sc.thr = some t) {k r : List Nat} (hq : v.que t sc.pri = k ++ r)
    (hno : ∀ b ∈ k ++ r, w.owner b ≠ some s) :
    Removed w w v v t s th th sc k r where
  chains := h
  que := by
    rw [hq, List.filter_eq_self.mpr]
    exact fun b hb => decide_eq_true (hno b (List.mem_append_right _ hb))
  otherQue := fun _ _ _ => rfl
  free := by
    rw [List.filter_eq_nil_iff.mpr]
    · rfl
    · exact fun b hb => by simpa using hno b (List.mem_append_right _ hb)
  thrs := by rw [← ht, Function.update_eq_self]
  same := ⟨fun _ _ => rfl, rfl, rfl, rfl, rfl⟩
  schs := by
    have hzero : sc.cursize = 0 := by
      rw [h.count s sc t hs hst, hq, List.countP_eq_zero.mpr]
      · rfl
      · exact fun b hb => by simpa using hno b hb
    rw [← hzero]
    exact (Function.update_eq_self_iff.mpr hs.symm).symm
  owner := fun _ _ => rfl
  otherFree := fun _ _ => rfl
  otherJob := fun _ _ => rfl
  zcrtthr := rfl
  tailNone := fun htail => htail
  tail := fun z hz => by
    rw [hz, if_neg fun hz => hno z (List.mem_append_right _ hz.1) hz.2]

/-- A job that goes, and then what goes of the rest. -/
theorem Removed.cons_gone {w1 w' : SchHeap F P} {v' : SchView} {th1 th' : SchThr}
    {j : ScheduleJob F P} {k r : List Nat} (hu : Chains.Unlink w w1 t th th1 s sc a j k)
    (hsame : SameBut th th1 sc.pri)
    (htl : (th1.que sc.pri).tail =
      if (th.que sc.pri).tail = some a then none else (th.que sc.pri).tail)
    (ho : w.owner a = some s) (har : ∀ b ∈ r, b ≠ a)
    (hjob : ∀ b, b ∉ k ++ a :: r → w1.jobs b = w.jobs b)
    (h : Removed w1 w' ((v.setQue t sc.pri (k ++ r)).setFree t (a :: v.free t)) v' t s th1 th'
      { sc with cursize := sc.cursize - 1 } k r) :
    Removed w w' v v' t s th th' sc k (a :: r) := by
  have howner : ∀ b, b ≠ a → w1.owner b = w.owner b := fun b hb => by
    rw [hu.owner, Function.update_of_ne hb]
  have hkeep : ∀ b, w.owner b ≠ some s → w1.owner b = w.owner b := fun b hb =>
    howner b fun he => hb (he ▸ ho)
  exact {
    chains := h.chains
    que := by
      refine h.que.trans (congrArg (k ++ ·) ?_)
      rw [List.filter_cons_of_neg (by simpa using ho)]
      exact List.filter_congr fun b hb => by rw [howner b (har b hb)]
    otherQue := fun t' p' hne => by
      rw [h.otherQue t' p' hne]
      exact SchView.setQue_of_ne _ _ hne
    free := by
      rw [h.free, SchView.setFree_self, List.filter_cons_of_pos (by simpa using ho),
        List.reverse_cons, List.append_assoc]
      refine congrArg (fun l => List.reverse l ++ _) ?_
      exact List.filter_congr fun b hb => by rw [howner b (har b hb)]
    thrs := by rw [h.thrs, hu.thrs, Function.update_idem]
    same := hsame.trans h.same
    schs := by rw [h.schs, hu.schs, Function.update_idem]
    owner := fun b hb => by rw [h.owner b (by rwa [hkeep b hb]), hkeep b hb]
    otherFree := fun t' ht' => by rw [h.otherFree t' ht', SchView.setFree_of_ne _ _ ht']; rfl
    otherJob := fun b hb => by
      have hr : b ∉ k ++ r := fun hm => hb ((List.mem_append.mp hm).elim
        (List.mem_append_left _) fun hm => List.mem_append_right _ (List.mem_cons_of_mem _ hm))
      rw [h.otherJob b hr, hjob b hb]
    zcrtthr := h.zcrtthr.trans hu.zcrtthr
    tailNone := fun htail => h.tailNone (by rw [htl, htail]; rfl)
    tail := fun z hz => by
      rw [hz] at htl
      by_cases hza : z = a
      · subst hza
        rw [if_pos rfl] at htl
        rw [h.tailNone htl, if_pos ⟨List.mem_cons_self, ho⟩]
      · rw [if_neg fun he => hza (Option.some.inj he)] at htl
        rw [h.tail z htl, howner z hza]
        simp only [List.mem_cons, hza, false_or] }

/-- A job that stays, and then what goes of the rest. -/
theorem Removed.cons_kept {w' : SchHeap F P} {v' : SchView} {th' : SchThr} {k r : List Nat}
    (ho : w.owner a ≠ some s) (h : Removed w w' v v' t s th th' sc (k ++ [a]) r) :
    Removed w w' v v' t s th th' sc k (a :: r) where
  chains := h.chains
  que := by
    rw [h.que, List.filter_cons_of_pos (by simpa using ho), List.append_assoc,
      List.singleton_append]
  otherQue := h.otherQue
  free := by rw [h.free, List.filter_cons_of_neg (by simpa using ho)]
  thrs := h.thrs
  same := h.same
  schs := h.schs
  owner := h.owner
  otherFree := h.otherFree
  otherJob := fun b hb => h.otherJob b (by rwa [List.append_assoc, List.singleton_append])
  zcrtthr := h.zcrtthr
  tailNone := h.tailNone
  tail := fun z hz => by
    rw [h.tail z hz]
    by_cases hza : z = a
    · subst hza
      rw [if_neg fun he => ho he.2, if_neg fun he => ho he.2]
    · simp only [List.mem_cons, hza, false_or]

/-- The loop, by induction on the jobs it has not met: the invariant is that what it met and kept
    is linked up in front of them. -/
theorem removeLoop_ok (r : List Nat) : ∀ {w : SchHeap F P} {v : SchView} {th : SchThr}
    {sc : ZSchedule} {k : List Nat} (fuel : Nat), Chains w v → w.thrs t = some th →
    w.schs s = some sc → sc.thr = some t → sc.pri ≠ .num → v.que t sc.pri = k ++ r →
    (∀ b ∈ k, w.owner b ≠ some s) → r.length < fuel →
    ∃ w' v' th', removeLoop t s sc.pri fuel w (k.getLast?.or r.head?) r.head? = .ok w' ∧
      Removed w w' v v' t s th th' sc k r := by
  induction r with
  | nil =>
      intro w v th sc k fuel h ht hs hst hp hq hk hf
      obtain ⟨fuel, rfl⟩ := Nat.exists_eq_add_of_lt hf
      refine ⟨w, v, th, rfl, removed_refl h ht hs hst hq ?_⟩
      rw [List.append_nil]
      exact hk
  | cons a r ih =>
      intro w v th sc k fuel h ht hs hst hp hq hk hf
      obtain ⟨fuel, rfl⟩ : ∃ n, fuel = n + 1 := ⟨fuel - 1, by omega⟩
      rw [List.length_cons] at hf
      by_cases ho : w.owner a = some s
      · -- it goes
        obtain ⟨w1, th1, j, hround, hu, hsame, htl, hjob⟩ := removeStep_ok h ht hs hst hp hq ho
        have hseg := h.que t th sc.pri ht hp
        rw [hq] at hseg
        have hnot := (List.nodup_cons.mp (List.nodup_middle.mp hseg.nodup)).1
        have hne : ∀ b ∈ k ++ r, b ≠ a := fun b hb he => hnot (he ▸ hb)
        have ht1 : w1.thrs t = some th1 := by
          rw [hu.thrs]
          exact Function.update_self ..
        have hs1 : w1.schs s = some { sc with cursize := sc.cursize - 1 } := by
          rw [hu.schs]
          exact Function.update_self ..
        obtain ⟨w', v', th', hrun, hrem⟩ := ih (k := k) fuel (h.unlink hu hst hp hq) ht1 hs1 hst hp
          (SchView.setQue_self ..)
          (fun b hb => by
            rw [hu.owner, Function.update_of_ne (hne b (List.mem_append_left _ hb))]
            exact hk b hb)
          (by omega)
        refine ⟨w', v', th', (hround fuel).trans hrun, ?_⟩
        exact hrem.cons_gone hu hsame htl ho (fun b hb => hne b (List.mem_append_right _ hb)) hjob
      · -- it stays
        rw [List.head?_cons, removeKeep_ok h ht hs hp hq ho]
        by_cases hsize : sc.cursize = 0
        · rw [if_pos hsize]
          refine ⟨w, v, th, rfl, removed_refl h ht hs hst hq ?_⟩
          have hc := h.count s sc t hs hst
          rw [hsize, hq] at hc
          have hc0 := List.countP_eq_zero.mp (Int.ofNat.inj hc).symm
          exact fun b hb he => hc0 b hb (decide_eq_true he)
        · rw [if_neg hsize]
          have hq' : v.que t sc.pri = (k ++ [a]) ++ r := by
            rw [hq, List.append_assoc, List.singleton_append]
          obtain ⟨w', v', th', hrun, hrem⟩ := ih (k := k ++ [a]) fuel h ht hs hst hp hq'
            (fun b hb => (List.mem_append.mp hb).elim (hk b) fun hb =>
              by rw [List.mem_singleton.mp hb]; exact ho) (by omega)
          rw [List.getLast?_append, List.getLast?_singleton, Option.some_or, Option.some_or] at hrun
          exact ⟨w', v', th', hrun, hrem.cons_kept ho⟩

/-! ## Rounds -/

/-- With more rounds a loop that had ended ends alike. -/
def Agrees {α : Type} (x y : Except SchFault α) : Prop := ∀ r, x = .ok r → y = .ok r

theorem Agrees.refl {α : Type} (x : Except SchFault α) : Agrees x x := fun _ h => h

theorem Agrees.bind {α β : Type} (x : Except SchFault α) {f g : α → Except SchFault β}
    (h : ∀ a, Agrees (f a) (g a)) : Agrees (x >>= f) (x >>= g) := by
  cases x with
  | error e => exact Agrees.refl _
  | ok a => exact h a

theorem removeLoop_agrees (p : EZCRTPriority) (fuel : Nat) : ∀ (w : SchHeap F P)
    (prev job : Option Nat),
    Agrees (removeLoop t s p fuel w prev job) (removeLoop t s p (fuel + 1) w prev job) := by
  induction fuel with
  | zero => exact fun w prev job r h => nomatch h
  | succ fuel ih =>
      intro w prev job
      unfold removeLoop
      cases job with
      | none => exact Agrees.refl _
      | some a =>
          refine Agrees.bind _ fun sc => ?_
          dsimp only
          split
          · exact Agrees.refl _
          refine Agrees.bind _ fun j => ?_
          split
          · refine Agrees.bind _ fun w1 => Agrees.bind _ fun th => ?_
            split
            · exact Agrees.bind _ fun x => ih _ _ _
            · exact Agrees.bind _ fun jp => Agrees.bind _ fun x => ih _ _ _
          · exact ih _ _ _

theorem removeLoop_more {p : EZCRTPriority} {fuel : Nat} {prev job : Option Nat} {w' : SchHeap F P}
    (h : removeLoop t s p fuel w prev job = .ok w') (n : Nat) :
    removeLoop t s p (fuel + n) w prev job = .ok w' := by
  induction n with
  | zero => exact h
  | succ n ih => exact removeLoop_agrees p (fuel + n) w prev job w' ih

/-! ## The whole removal -/

/-- What the first loop of `_zcrt_s_thr_remove_sch` leaves: none of the schedule's jobs. -/
theorem removeJobs_ok (h : Chains w v) (ht : w.thrs t = some th) (hs : w.schs s = some sc)
    (hst : sc.thr = some t) (hp : sc.pri ≠ .num) (fuel : Nat) {w' : SchHeap F P}
    (hrun : removeJobs w t s fuel = .ok w') :
    ∃ v' th', Removed w w' v v' t s th th' sc [] (v.que t sc.pri) := by
  have hseg := h.que t th sc.pri ht hp
  have hcount := h.count s sc t hs hst
  unfold removeJobs at hrun
  rw [deref_some hs, except_ok_bind] at hrun
  dsimp only at hrun
  rw [deref_some ht, except_ok_bind] at hrun
  dsimp only at hrun
  split at hrun
  · obtain ⟨w1, v1, th1, hrun1, hrem⟩ := removeLoop_ok (v.que t sc.pri) (k := [])
      (fuel + ((v.que t sc.pri).length + 1)) h ht hs hst hp rfl
      (fun b hb => absurd hb List.not_mem_nil) (by omega)
    have hmore := removeLoop_more hrun ((v.que t sc.pri).length + 1)
    rw [hseg.head] at hmore
    rw [List.getLast?_nil, Option.none_or, hmore] at hrun1
    obtain rfl := Except.ok.inj hrun1
    exact ⟨v1, th1, hrem⟩
  · obtain rfl := Except.ok.inj hrun
    refine ⟨v, th, removed_refl h ht hs hst rfl ?_⟩
    have hzero : ((v.que t sc.pri).countP fun a => w.owner a = some s) = 0 := by omega
    rw [List.nil_append]
    exact fun b hb he => List.countP_eq_zero.mp hzero b hb (decide_eq_true he)

/-- After it no job of the schedule is in any queue. -/
theorem Removed.notOwned {w' : SchHeap F P} {v' : SchView} {th' : SchThr}
    (h : Removed w w' v v' t s th th' sc [] (v.que t sc.pri)) (hst : sc.thr = some t) :
    ∀ t' p' b, b ∈ v'.que t' p' → w'.owner b ≠ some s := by
  intro t' p' b hb ho
  obtain ⟨s1, sc1, ho1, hs1, ht1, hp1⟩ := h.chains.place t' p' b hb
  obtain rfl := Option.some.inj (ho.symm.trans ho1)
  rw [h.schs, Function.update_self] at hs1
  obtain rfl := Option.some.inj hs1
  obtain rfl := Option.some.inj (hst.symm.trans ht1)
  subst hp1
  rw [h.que, List.nil_append] at hb
  have hne := of_decide_eq_true (List.mem_filter.mp hb).2
  exact hne ((h.owner b hne).symm.trans ho)

/-- The schedule's last job is not in front of the queue's end, unless all jobs are its own: the
    state before a deletion that leaves `tail` right. -/
def TailKept (w : SchHeap F P) (s : Nat) : Prop :=
  ∀ sc t th, w.schs s = some sc → sc.thr = some t → w.thrs t = some th →
    ∀ z, (th.que sc.pri).tail = some z → w.owner z = some s →
      ∀ b, Reaches w.links (th.que sc.pri).jobs b → w.owner b = some s

/-- The tails after the removal, that of the one queue aside. -/
theorem Removed.tails {w' : SchHeap F P} {v' : SchView} {th' : SchThr}
    {R : Option Nat → List Nat → Prop} (h : Removed w w' v v' t s th th' sc [] (v.que t sc.pri))
    (htail : Tails R w v) (ht : w.thrs t = some th)
    (hR : R (th'.que sc.pri).tail ((v.que t sc.pri).filter fun b => w.owner b ≠ some s)) :
    Tails R w' v' := by
  intro t1 th1 p1 h1 hp1
  have hother : ¬(t1 = t ∧ p1 = sc.pri) → v'.que t1 p1 = v.que t1 p1 := h.otherQue t1 p1
  rw [h.thrs] at h1
  rcases update_eq_some h1 with ⟨rfl, rfl⟩ | ⟨hne, h1⟩
  · by_cases hpri : p1 = sc.pri
    · subst hpri
      rw [h.que]
      exact hR
    · rw [h.same.que p1 hpri, hother fun he => hpri he.2]
      exact htail t1 th p1 ht hp1
  · rw [hother fun he => hne he.1]
    exact htail t1 th1 p1 h1 hp1

/-- The last job that stays, when the last of all does. -/
theorem getLast?_filter {l : List Nat} {q : Nat → Bool} {z : Nat} (h : l.getLast? = some z)
    (hz : q z = true) : (l.filter q).getLast? = some z := by
  rcases List.eq_nil_or_concat l with rfl | ⟨l, y, rfl⟩
  · exact nomatch h
  · rw [List.concat_eq_append, List.getLast?_append, List.getLast?_singleton, Option.some_or] at h
    obtain rfl := Option.some.inj h
    rw [List.concat_eq_append, List.filter_append, List.filter_cons_of_pos hz,
      List.getLast?_append]
    rfl

theorem Removed.tailOk {w' : SchHeap F P} {v' : SchView} {th' : SchThr}
    (h : Removed w w' v v' t s th th' sc [] (v.que t sc.pri)) (hv : Chains w v)
    (htail : TailOk w v) (ht : w.thrs t = some th) (hs : w.schs s = some sc)
    (hst : sc.thr = some t) (hp : sc.pri ≠ .num) (hkept : TailKept w s) : TailOk w' v' := by
  refine h.tails htail ht ?_
  have htl : (th.que sc.pri).tail = (v.que t sc.pri).getLast? := htail t th sc.pri ht hp
  cases hlast : (v.que t sc.pri).getLast? with
  | none =>
      rw [hlast] at htl
      rw [h.tailNone htl, List.getLast?_eq_none_iff.mp hlast]
      rfl
  | some z =>
      rw [hlast] at htl
      rw [h.tail z htl]
      by_cases ho : w.owner z = some s
      · -- its last job went, so all were its own
        have hall := hkept sc t th hs hst ht z htl ho
        rw [if_pos ⟨List.mem_of_getLast? hlast, ho⟩, List.filter_eq_nil_iff.mpr]
        · rfl
        · intro b hb hd
          exact of_decide_eq_true hd (hall b ((hv.que t th sc.pri ht hp).reaches hb))
      · rw [if_neg fun he => ho he.2]
        exact (getLast?_filter hlast (decide_eq_true ho)).symm

theorem Removed.tailWeak {w' : SchHeap F P} {v' : SchView} {th' : SchThr}
    (h : Removed w w' v v' t s th th' sc [] (v.que t sc.pri)) (htail : TailWeak w v)
    (ht : w.thrs t = some th) (hp : sc.pri ≠ .num) : TailWeak w' v' := by
  refine h.tails htail ht ?_
  cases hz : (th.que sc.pri).tail with
  | none => exact Or.inl (h.tailNone hz)
  | some z =>
      have hlast : (v.que t sc.pri).getLast? = some z := by
        rcases htail t th sc.pri ht hp with htl | htl
        · rw [hz] at htl
          exact nomatch htl
        · exact htl.symm.trans hz
      rw [h.tail z hz]
      by_cases ho : w.owner z = some s
      · exact Or.inl (if_pos ⟨List.mem_of_getLast? hlast, ho⟩)
      · rw [if_neg fun he => ho he.2]
        exact Or.inr (getLast?_filter hlast (decide_eq_true ho)).symm

/-- The second loop changes links between schedules only. -/
inductive Relinked (t : Nat) (w : SchHeap F P) : SchHeap F P → Prop
  | none : Relinked t w w
  | first {th : SchThr} (h : w.thrs t = some th) (l : Option Nat) :
      Relinked t w (w.setThr t { th with schList := l })
  | later {p : Nat} {sp : ZSchedule} (h : w.schs p = some sp) (n : Option Nat) :
      Relinked t w (w.setSch p { sp with next := n })

theorem unlinkSch_ok {w' : SchHeap F P} {fuel : Nat} (hrun : unlinkSch w t s fuel = .ok w') :
    Relinked t w w' := by
  unfold unlinkSch at hrun
  obtain ⟨⟨_, sc⟩, -, hrun⟩ := except_bind_eq_ok hrun
  obtain ⟨⟨t0, th⟩, ht, hrun⟩ := except_bind_eq_ok hrun
  obtain ⟨ht0, ht⟩ := deref_eq_ok ht
  obtain rfl := Option.some.inj ht0
  dsimp only at hrun
  split at hrun
  · obtain rfl := Except.ok.inj hrun
    exact Relinked.first ht _
  · obtain ⟨prev, -, hrun⟩ := except_bind_eq_ok hrun
    cases prev with
    | none =>
        obtain rfl := Except.ok.inj hrun
        exact Relinked.none
    | some prev =>
        obtain ⟨⟨p0, sp⟩, hsp, hrun⟩ := except_bind_eq_ok hrun
        obtain ⟨hp0, hsp⟩ := deref_eq_ok hsp
        obtain rfl := Option.some.inj hp0
        obtain rfl := Except.ok.inj hrun
        exact Relinked.later hsp _

/-- What relinking keeps. -/
theorem Relinked.chains {w' : SchHeap F P} (h : Relinked t w w') (hv : Chains w v) :
    Chains w' v := by
  cases h with
  | none => exact hv
  | first h l => exact hv.setThr h rfl rfl
  | later h n => exact hv.setSch h rfl rfl rfl

theorem Relinked.thrs {w' : SchHeap F P} (h : Relinked t w w') (ht : w.thrs t = some th) :
    (∃ l, w'.thrs t = some { th with schList := l }) ∧ ∀ t', t' ≠ t → w'.thrs t' = w.thrs t' := by
  cases h with
  | none => exact ⟨⟨th.schList, ht⟩, fun _ _ => rfl⟩
  | first h l =>
      obtain rfl := Option.some.inj (ht.symm.trans h)
      exact ⟨⟨l, Function.update_self ..⟩, fun t' ht' => Function.update_of_ne ht' ..⟩
  | later h n => exact ⟨⟨th.schList, ht⟩, fun _ _ => rfl⟩

/-- A schedule as far as its neighbours do not change it. -/
def ZSchedule.unlinked (sc : ZSchedule) : ZSchedule := { sc with next := none }

theorem Relinked.schs {w' : SchHeap F P} (h : Relinked t w w') (s' : Nat) :
    (w'.schs s').map ZSchedule.unlinked = (w.schs s').map ZSchedule.unlinked := by
  cases h with
  | none => rfl
  | first h l => rfl
  | later h n =>
      rename_i p sp
      rw [SchHeap.setSch_schs]
      by_cases hp : s' = p
      · subst hp
        rw [Function.update_self, h]
        rfl
      · rw [Function.update_of_ne hp]

theorem Relinked.jobs {w' : SchHeap F P} (h : Relinked t w w') : w'.jobs = w.jobs := by
  cases h <;> rfl

theorem Relinked.zcrtthr {w' : SchHeap F P} (h : Relinked t w w') : w'.zcrtthr = w.zcrtthr := by
  cases h <;> rfl

/-- The region of `zcrt_schedule_delete` under the mutex, `w1` being the heap when the jobs are out:
    the schedule has no job in any queue any more. -/
structure Purged (w w1 w' : SchHeap F P) (v v1 : SchView) (t s : Nat) (th th1 th' : SchThr)
    (sc : ZSchedule) : Prop where
  sch : w.schs s = some sc
  schThr : sc.thr = some t
  thr : w.thrs t = some th
  pri : sc.pri ≠ .num
  removed : Removed w w1 v v1 t s th th1 sc [] (v.que t sc.pri)
  chains : Chains w' v1
  jobs : w'.jobs = w1.jobs
  newThr : w'.thrs t = some th'
  que : th'.que = th1.que
  refCnt : th'.refCnt = th.refCnt
  run : th'.run = th.run
  otherThr : ∀ t', t' ≠ t → w'.thrs t' = w.thrs t'
  schs : ∀ s', (w'.schs s').map ZSchedule.unlinked =
    (Function.update w.schs s (some { sc with cursize := 0 }) s').map ZSchedule.unlinked
  zcrtthr : w'.zcrtthr = w.zcrtthr

theorem deleteRegion_ok (h : Chains w v) {fuel : Nat} {w' : SchHeap F P}
    (hrun : deleteRegion w s fuel = .ok w') :
    ∃ sc t th w1 v1 th1 th', Purged w w1 w' v v1 t s th th1 th' sc := by
  unfold deleteRegion at hrun
  obtain ⟨⟨s0, sc⟩, hs, hrun⟩ := except_bind_eq_ok hrun
  obtain ⟨hs0, hs⟩ := deref_eq_ok hs
  obtain rfl := Option.some.inj hs0
  dsimp only at hrun hs
  by_cases hp : sc.pri = .num
  · rw [if_pos hp] at hrun
    exact nomatch hrun
  rw [if_neg hp] at hrun
  obtain ⟨⟨t, th⟩, ht, hrun⟩ := except_bind_eq_ok hrun
  obtain ⟨hst, ht⟩ := deref_eq_ok ht
  dsimp only at hst ht hrun
  obtain ⟨w1, hjobs, hlist⟩ := except_bind_eq_ok hrun
  obtain ⟨v1, th1, hremoved⟩ := removeJobs_ok h ht hs hst hp fuel hjobs
  have hrel := unlinkSch_ok hlist
  have ht1 : w1.thrs t = some th1 := by
    rw [hremoved.thrs, Function.update_self]
  obtain ⟨⟨l, ht2⟩, hother⟩ := hrel.thrs ht1
  refine ⟨sc, t, th, w1, v1, th1, _, hs, hst, ht, hp, hremoved, hrel.chains hremoved.chains,
    hrel.jobs, ht2, rfl, hremoved.same.refCnt, hremoved.same.run, fun t' ht' => ?_, fun s' => ?_,
    hrel.zcrtthr.trans hremoved.zcrtthr⟩
  · rw [hother t' ht', hremoved.thrs, Function.update_of_ne ht']
  · rw [hrel.schs, hremoved.schs]

section Purged

variable {w1 w' : SchHeap F P} {v1 : SchView} {th1 th' : SchThr}

theorem Purged.owner (h : Purged w w1 w' v v1 t s th th1 th' sc) : w'.owner = w1.owner := by
  unfold SchHeap.owner
  rw [h.jobs]

/-- No job of the schedule is in any queue. -/
theorem Purged.notOwned (h : Purged w w1 w' v v1 t s th th1 th' sc) :
    ∀ t' p' b, b ∈ v1.que t' p' → w'.owner b ≠ some s := by
  rw [h.owner]
  exact h.removed.notOwned h.schThr

/-- What is still in a queue was there before, with its owner, another schedule. -/
theorem Purged.mem (h : Purged w w1 w' v v1 t s th th1 th' sc) (hv : Chains w v) {t' b : Nat}
    {p' : EZCRTPriority} (hb : b ∈ v1.que t' p') :
    b ∈ v.que t' p' ∧ w.owner b ≠ some s ∧ w'.owner b = w.owner b := by
  have hmem : b ∈ v.que t' p' ∧ w.owner b ≠ some s := by
    by_cases hq : t' = t ∧ p' = sc.pri
    · obtain ⟨rfl, rfl⟩ := hq
      rw [h.removed.que, List.nil_append] at hb
      exact ⟨(List.mem_filter.mp hb).1, of_decide_eq_true (List.mem_filter.mp hb).2⟩
    · rw [h.removed.otherQue t' p' hq] at hb
      refine ⟨hb, fun ho => hq ?_⟩
      obtain ⟨s1, sc1, ho1, hs1, ht1, hp1⟩ := hv.place t' p' b hb
      obtain rfl := Option.some.inj (ho.symm.trans ho1)
      obtain rfl := Option.some.inj (h.sch.symm.trans hs1)
      exact ⟨Option.some.inj (ht1.symm.trans h.schThr), hp1.symm⟩
  refine ⟨hmem.1, hmem.2, ?_⟩
  rw [h.owner, h.removed.owner b hmem.2]

/-- A loose node stays loose and keeps what it holds. -/
theorem Purged.loose (h : Purged w w1 w' v v1 t s th th1 th' sc) (hv : Chains w v) {b : Nat}
    (hb : v.Loose b) : v1.Loose b ∧ w'.jobs b = w.jobs b := by
  refine ⟨⟨fun t' p' hm => hb.que t' p' (h.mem hv hm).1, fun t' hm => ?_⟩, ?_⟩
  · by_cases ht' : t' = t
    · subst ht'
      rw [h.removed.free] at hm
      rcases List.mem_append.mp hm with hm | hm
      · exact hb.que t' sc.pri (List.mem_filter.mp (List.mem_reverse.mp hm)).1
      · exact hb.free t' hm
    · rw [h.removed.otherFree t' ht'] at hm
      exact hb.free t' hm
  · rw [h.jobs]
    exact h.removed.otherJob b (hb.que t sc.pri)

theorem Purged.tails {R : Option Nat → List Nat → Prop}
    (h : Purged w w1 w' v v1 t s th th1 th' sc) (h1 : Tails R w1 v1) : Tails R w' v1 := by
  intro t2 th2 p2 h2 hp2
  by_cases ht2 : t2 = t
  · subst ht2
    obtain rfl := Option.some.inj (h.newThr.symm.trans h2)
    rw [h.que]
    exact h1 t2 th1 p2 (by rw [h.removed.thrs, Function.update_self]) hp2
  · rw [h.otherThr t2 ht2] at h2
    refine h1 t2 th2 p2 ?_ hp2
    rw [h.removed.thrs, Function.update_of_ne ht2, h2]

theorem Purged.sameLife (h : Purged w w1 w' v v1 t s th th1 th' sc) : SameLife w w' where
  thr := fun t' => by
    by_cases ht' : t' = t
    · subst ht'
      rw [h.newThr, h.thr, Option.map_some, Option.map_some, h.run, h.refCnt]
    · rw [h.otherThr t' ht']
  sch := fun s' => by
    have hmap : ∀ {x y : Option ZSchedule}, x.map ZSchedule.unlinked = y.map ZSchedule.unlinked →
        x.map (fun sc => (sc.thr, sc.type)) = y.map fun sc => (sc.thr, sc.type) := by
      intro x y he
      have := congrArg (Option.map fun sc : ZSchedule => (sc.thr, sc.type)) he
      rwa [Option.map_map, Option.map_map] at this
    rw [hmap (h.schs s')]
    exact map_update_eq (y := { sc with cursize := 0 }) (fun sc => (sc.thr, sc.type)) h.sch rfl s'
  zcrtthr := h.zcrtthr

end Purged

/-- The rest of `zcrt_schedule_delete`. -/
structure Freed (w w' : SchHeap F P) (t s : Nat) (th th' : SchThr) (sc : ZSchedule) : Prop where
  sch : w.schs s = some sc
  schThr : sc.thr = some t
  thr : w.thrs t = some th
  thrs : w'.thrs = Function.update w.thrs t (some th')
  que : th'.que = th.que
  freejobs : th'.freejobs = th.freejobs
  refCnt : th'.refCnt = th.refCnt - 1
  run : th'.run = if sc.type = .selfThread ∧ th.refCnt - 1 = 0 then false else th.run
  schs : w'.schs = Function.update w.schs s none
  jobs : w'.jobs = w.jobs
  zcrtthr : w'.zcrtthr = w.zcrtthr

theorem deleteEnd_ok {w' : SchHeap F P} (hrun : deleteEnd w s = .ok w') :
    ∃ sc t th th', Freed w w' t s th th' sc := by
  unfold deleteEnd at hrun
  obtain ⟨⟨s0, sc⟩, hs, hrun⟩ := except_bind_eq_ok hrun
  obtain ⟨hs0, hs⟩ := deref_eq_ok hs
  obtain rfl := Option.some.inj hs0
  obtain ⟨⟨t, th⟩, ht, hrun⟩ := except_bind_eq_ok hrun
  obtain ⟨hst, ht⟩ := deref_eq_ok ht
  dsimp only at hs hst ht hrun
  obtain rfl := Except.ok.inj hrun
  exact ⟨sc, t, th, _, hs, hst, ht, rfl, rfl, rfl, rfl, rfl, rfl, rfl, rfl⟩

theorem Freed.chains {w' : SchHeap F P} {th' : SchThr} (h : Freed w w' t s th th' sc)
    (hv : Chains w v) (hno : ∀ t p b, b ∈ v.que t p → w.owner b ≠ some s) : Chains w' v := by
  have h1 := (hv.setThr h.thr h.que h.freejobs).freeSch hno
  have hw : w' = { (w.setThr t th') with
      schs := Function.update w.schs s none, schthrList := w'.schthrList } := by
    rw [SchHeap.setThr, ← h.thrs, ← h.schs, ← h.jobs, ← h.zcrtthr]
  rw [hw]
  exact ⟨h1.que, h1.free, h1.place, h1.freeOwner, h1.freeDisj, h1.count, h1.thr, h1.live⟩

theorem Freed.tails {R : Option Nat → List Nat → Prop} {w' : SchHeap F P} {th' : SchThr}
    (h : Freed w w' t s th th' sc) (htail : Tails R w v) : Tails R w' v :=
  htail.keep h.thr h.thrs h.que

/-- `zcrt_schedule_delete` is the one and then the other. -/
theorem zcrtScheduleDelete_ok (h : Chains w v) {fuel : Nat} {w' : SchHeap F P}
    (hrun : zcrtScheduleDelete w (some s) fuel = .ok w') :
    ∃ sc t th w1 w2 v1 th1 th2 sc2 t2 th3 th', Purged w w1 w2 v v1 t s th th1 th2 sc ∧
      Freed w2 w' t2 s th3 th' sc2 ∧ Chains w' v1 := by
  obtain ⟨w2, hregion, hend⟩ := except_bind_eq_ok hrun
  obtain ⟨sc, t, th, w1, v1, th1, th2, hpurged⟩ := deleteRegion_ok h hregion
  obtain ⟨sc2, t2, th3, th', hfreed⟩ := deleteEnd_ok hend
  exact ⟨sc, t, th, w1, w2, v1, th1, th2, sc2, t2, th3, th', hpurged, hfreed,
    hfreed.chains hpurged.chains hpurged.notOwned⟩

/-- A deletion keeps the queues as they should be when its last job had no other before it. -/
theorem zcrtScheduleDelete_inv (h : QueInv w) {fuel : Nat} {w' : SchHeap F P}
    (hrun : zcrtScheduleDelete w (some s) fuel = .ok w') (hkept : TailKept w s) : QueInv w' := by
  obtain ⟨v, hv, htail⟩ := h
  obtain ⟨sc, t, th, w1, w2, v1, th1, th2, sc2, t2, th3, th', hp, hf, hchains⟩ :=
    zcrtScheduleDelete_ok hv hrun
  refine ⟨v1, hchains, hf.tails (hp.tails ?_)⟩
  exact hp.removed.tailOk hv htail hp.thr hp.sch hp.schThr hp.pri hkept

/-- Any deletion leaves at worst a `tail` that is `NULL`. -/
theorem zcrtScheduleDelete_weak (h : QueWeak w) {fuel : Nat} {w' : SchHeap F P}
    (hrun : zcrtScheduleDelete w (some s) fuel = .ok w') : QueWeak w' := by
  obtain ⟨v, hv, htail⟩ := h
  obtain ⟨sc, t, th, w1, w2, v1, th1, th2, sc2, t2, th3, th', hp, hf, hchains⟩ :=
    zcrtScheduleDelete_ok hv hrun
  exact ⟨v1, hchains, hf.tails (hp.tails (hp.removed.tailWeak htail hp.thr hp.pri))⟩

end Zcrt
