/-
  The queues of a scheduler thread as lists: what each operation of `zschedule.c` does to them.

  * `Chains w v`: the heap `w` holds the job lists `v`, each job in the queue its schedule names,
    and each `cursize` is the number of its schedule's jobs.
  * `TailOk w v`: every `tail` is the last job of its queue.
  * `Chains.unlink`: a job taken out of the middle of a queue and put on the free list.
  * `Chains.append`: a job put behind the last one.
-/
import Zcrt.Core.Schedule

namespace Zcrt

open Lib

/-! ## Reading the heap -/

section Heap

variable {F P : Type}

@[simp] theorem deref_some {α : Type} {heap : Nat → Option α} {a : Nat} {n : α}
    (h : heap a = some n) : deref heap (some a) = .ok (a, n) := by
  rw [deref]
  simp only [h]

theorem deref_eq_ok {α : Type} {heap : Nat → Option α} {p : Option Nat} {r : Nat × α}
    (h : deref heap p = .ok r) : p = some r.1 ∧ heap r.1 = some r.2 := by
  cases p with
  | none => exact nomatch h
  | some a =>
      rw [deref] at h
      cases ha : heap a with
      | none =>
          rw [ha] at h
          exact nomatch h
      | some n =>
          rw [ha] at h
          obtain rfl := Except.ok.inj h
          exact ⟨rfl, ha⟩

/-- What is in a heap after one node was written. -/
theorem update_eq_some {α : Type} {heap : Nat → Option α} {a b : Nat} {x y : α}
    (h : Function.update heap a (some x) b = some y) :
    (b = a ∧ y = x) ∨ (b ≠ a ∧ heap b = some y) := by
  by_cases hb : b = a
  · subst hb
    rw [Function.update_self] at h
    exact Or.inl ⟨rfl, (Option.some.inj h).symm⟩
  · rw [Function.update_of_ne hb] at h
    exact Or.inr ⟨hb, h⟩

namespace SchHeap

/-- The callback and arguments of a job. -/
def item (w : SchHeap F P) (a : Nat) : Option (Option F × List P) :=
  (w.jobs a).map fun job => (job.fn, job.args)

/-- The schedule a job belongs to. -/
def owner (w : SchHeap F P) (a : Nat) : Option Nat := (w.jobs a).bind ScheduleJob.sch

variable (w : SchHeap F P) (a : Nat)

@[simp] theorem setJob_jobs (job : ScheduleJob F P) :
    (w.setJob a job).jobs = Function.update w.jobs a (some job) := rfl
@[simp] theorem setJob_schs (job : ScheduleJob F P) : (w.setJob a job).schs = w.schs := rfl
@[simp] theorem setJob_thrs (job : ScheduleJob F P) : (w.setJob a job).thrs = w.thrs := rfl
@[simp] theorem setSch_jobs (sch : ZSchedule) : (w.setSch a sch).jobs = w.jobs := rfl
@[simp] theorem setSch_schs (sch : ZSchedule) :
    (w.setSch a sch).schs = Function.update w.schs a (some sch) := rfl
@[simp] theorem setSch_thrs (sch : ZSchedule) : (w.setSch a sch).thrs = w.thrs := rfl
@[simp] theorem setThr_jobs (thr : SchThr) : (w.setThr a thr).jobs = w.jobs := rfl
@[simp] theorem setThr_schs (thr : SchThr) : (w.setThr a thr).schs = w.schs := rfl
@[simp] theorem setThr_thrs (thr : SchThr) :
    (w.setThr a thr).thrs = Function.update w.thrs a (some thr) := rfl
@[simp] theorem setSch_links (sch : ZSchedule) : (w.setSch a sch).links = w.links := rfl
@[simp] theorem setThr_links (thr : SchThr) : (w.setThr a thr).links = w.links := rfl
@[simp] theorem setSch_owner (sch : ZSchedule) : (w.setSch a sch).owner = w.owner := rfl
@[simp] theorem setThr_owner (thr : SchThr) : (w.setThr a thr).owner = w.owner := rfl

@[simp] theorem setJob_links (job : ScheduleJob F P) :
    (w.setJob a job).links = Function.update w.links a (some job.next) := by
  funext b
  by_cases hb : b = a
  · subst hb
    simp [links]
  · simp [links, hb]

@[simp] theorem setJob_owner (job : ScheduleJob F P) :
    (w.setJob a job).owner = Function.update w.owner a job.sch := by
  funext b
  by_cases hb : b = a
  · subst hb
    simp [owner]
  · simp [owner, hb]

@[simp] theorem setSch_item (sch : ZSchedule) : (w.setSch a sch).item = w.item := rfl
@[simp] theorem setThr_item (thr : SchThr) : (w.setThr a thr).item = w.item := rfl

@[simp] theorem setJob_item (job : ScheduleJob F P) :
    (w.setJob a job).item = Function.update w.item a (some (job.fn, job.args)) := by
  funext b
  by_cases hb : b = a
  · subst hb
    simp [item]
  · simp [item, hb]

variable {w a}

theorem item_of_jobs {job : ScheduleJob F P} (h : w.jobs a = some job) :
    w.item a = some (job.fn, job.args) := by
  rw [item, h]
  rfl

theorem links_of_jobs {job : ScheduleJob F P} (h : w.jobs a = some job) :
    w.links a = some job.next := by
  rw [links, h]
  rfl

theorem owner_of_jobs {job : ScheduleJob F P} (h : w.jobs a = some job) : w.owner a = job.sch := by
  rw [owner, h]
  rfl

theorem live_setJob {job : ScheduleJob F P} {b : Nat} (h : ∃ job, w.jobs b = some job) :
    ∃ job', (w.setJob a job).jobs b = some job' := by
  rw [setJob_jobs]
  by_cases hb : b = a
  · exact ⟨job, by rw [hb]; exact Function.update_self ..⟩
  · rw [Function.update_of_ne hb]
    exact h

end SchHeap

end Heap

/-! ## The lists in the heap -/

/-- The jobs in each queue and on each free list, by thread. -/
structure SchView where
  que : Nat → EZCRTPriority → List Nat
  free : Nat → List Nat

namespace SchView

def setQue (v : SchView) (t : Nat) (p : EZCRTPriority) (l : List Nat) : SchView :=
  { v with que := fun t' p' => if t' = t ∧ p' = p then l else v.que t' p' }

def setFree (v : SchView) (t : Nat) (l : List Nat) : SchView :=
  { v with free := fun t' => if t' = t then l else v.free t' }

@[simp] theorem setQue_free (v : SchView) (t : Nat) (p : EZCRTPriority) (l : List Nat) :
    (v.setQue t p l).free = v.free := rfl
@[simp] theorem setFree_que (v : SchView) (t : Nat) (l : List Nat) :
    (v.setFree t l).que = v.que := rfl
@[simp] theorem setQue_self (v : SchView) (t : Nat) (p : EZCRTPriority) (l : List Nat) :
    (v.setQue t p l).que t p = l := if_pos ⟨rfl, rfl⟩
@[simp] theorem setFree_self (v : SchView) (t : Nat) (l : List Nat) :
    (v.setFree t l).free t = l := if_pos rfl

theorem setQue_of_ne (v : SchView) {t t' : Nat} {p p' : EZCRTPriority} (l : List Nat)
    (h : ¬(t' = t ∧ p' = p)) : (v.setQue t p l).que t' p' = v.que t' p' := if_neg h

theorem setFree_of_ne (v : SchView) {t t' : Nat} (l : List Nat) (h : t' ≠ t) :
    (v.setFree t l).free t' = v.free t' := if_neg h

@[simp] theorem setFree_eq (v : SchView) (t : Nat) : v.setFree t (v.free t) = v := by
  unfold setFree
  congr 1
  funext t'
  by_cases h : t' = t
  · rw [if_pos h, h]
  · rw [if_neg h]

/-- The job is in no list. -/
structure Loose (v : SchView) (a : Nat) : Prop where
  que : ∀ t p, a ∉ v.que t p
  free : ∀ t, a ∉ v.free t

theorem Loose.ne_que {v : SchView} {a b t : Nat} {p : EZCRTPriority} (h : v.Loose a)
    (hb : b ∈ v.que t p) : b ≠ a := by
  rintro rfl
  exact h.que t p hb

theorem Loose.ne_free {v : SchView} {a b t : Nat} (h : v.Loose a) (hb : b ∈ v.free t) : b ≠ a := by
  rintro rfl
  exact h.free t hb

end SchView

variable {F P : Type}

/-- The job lists of all threads, `tail` left aside. -/
structure Chains (w : SchHeap F P) (v : SchView) : Prop where
  que : ∀ t th p, w.thrs t = some th → p ≠ .num → Seg w.links (th.que p).jobs (v.que t p) none
  free : ∀ t th, w.thrs t = some th → Seg w.links th.freejobs (v.free t) none
  place : ∀ t p a, a ∈ v.que t p →
    ∃ s sc, w.owner a = some s ∧ w.schs s = some sc ∧ sc.thr = some t ∧ sc.pri = p
  freeOwner : ∀ t a, a ∈ v.free t → w.owner a = none
  freeDisj : ∀ t t' a, a ∈ v.free t → a ∈ v.free t' → t = t'
  count : ∀ s sc t, w.schs s = some sc → sc.thr = some t →
    sc.cursize = ((v.que t sc.pri).countP fun a => w.owner a = some s : Nat)
  thr : ∀ s sc, w.schs s = some sc → ∃ t th, sc.thr = some t ∧ w.thrs t = some th
  live : ∀ t p a, a ∈ v.que t p ∨ a ∈ v.free t → ∃ job, w.jobs a = some job

/-- The `tail` of every queue is to its jobs as `R` says. -/
def Tails (R : Option Nat → List Nat → Prop) (w : SchHeap F P) (v : SchView) : Prop :=
  ∀ t th p, w.thrs t = some th → p ≠ .num → R (th.que p).tail (v.que t p)

/-- `tail` is the last job. -/
abbrev LastTail (tail : Option Nat) (l : List Nat) : Prop := tail = l.getLast?

/-- `tail` is the last job or `NULL`. -/
abbrev WeakTail (tail : Option Nat) (l : List Nat) : Prop := tail = none ∨ tail = l.getLast?

abbrev TailOk (w : SchHeap F P) (v : SchView) : Prop := Tails LastTail w v

abbrev TailWeak (w : SchHeap F P) (v : SchView) : Prop := Tails WeakTail w v

/-- Only the queue of `p` in thread `t` was written. -/
theorem Tails.edit {R : Option Nat → List Nat → Prop} {w w' : SchHeap F P} {v : SchView} {t : Nat}
    {th th' : SchThr} {p : EZCRTPriority} {l : List Nat} (h : Tails R w v)
    (ht : w.thrs t = some th) (hthrs : w'.thrs = Function.update w.thrs t (some th'))
    (hother : ∀ p', p' ≠ p → th'.que p' = th.que p') (htail : p ≠ .num → R (th'.que p).tail l) :
    Tails R w' (v.setQue t p l) := by
  intro t1 th1 p1 h1 hp1
  rw [hthrs] at h1
  rcases update_eq_some h1 with ⟨rfl, rfl⟩ | ⟨hne, h1⟩
  · by_cases hp : p1 = p
    · subst hp
      rw [SchView.setQue_self]
      exact htail hp1
    · rw [SchView.setQue_of_ne _ _ fun he => hp he.2, hother p1 hp]
      exact h t1 th p1 ht hp1
  · rw [SchView.setQue_of_ne _ _ fun he => hne he.1]
    exact h t1 th1 p1 h1 hp1

/-- No queue was written. -/
theorem Tails.keep {R : Option Nat → List Nat → Prop} {w w' : SchHeap F P} {v : SchView} {t : Nat}
    {th th' : SchThr} (h : Tails R w v) (ht : w.thrs t = some th)
    (hthrs : w'.thrs = Function.update w.thrs t (some th')) (hq : th'.que = th.que) :
    Tails R w' v := by
  intro t1 th1 p1 h1 hp1
  rw [hthrs] at h1
  rcases update_eq_some h1 with ⟨rfl, rfl⟩ | ⟨-, h1⟩
  · rw [hq]
    exact h t1 th p1 ht hp1
  · exact h t1 th1 p1 h1 hp1

/-- A thread of which only the queue of `p` and the free list were written. -/
structure SameBut (th th' : SchThr) (p : EZCRTPriority) : Prop where
  que : ∀ p', p' ≠ p → th'.que p' = th.que p'
  run : th'.run = th.run
  refCnt : th'.refCnt = th.refCnt
  schList : th'.schList = th.schList
  next : th'.next = th.next

theorem SameBut.trans {th th1 th2 : SchThr} {p : EZCRTPriority} (h1 : SameBut th th1 p)
    (h2 : SameBut th1 th2 p) : SameBut th th2 p where
  que := fun p' hp => (h2.que p' hp).trans (h1.que p' hp)
  run := h2.run.trans h1.run
  refCnt := h2.refCnt.trans h1.refCnt
  schList := h2.schList.trans h1.schList
  next := h2.next.trans h1.next

namespace Chains

variable {w w' : SchHeap F P} {v : SchView} {t s a : Nat} {th th' : SchThr} {sc sc' : ZSchedule}
  {p : EZCRTPriority}

/-- A job is in one queue only. -/
theorem que_unique (h : Chains w v) {t' : Nat} {p' : EZCRTPriority} (h1 : a ∈ v.que t p)
    (h2 : a ∈ v.que t' p') : t' = t ∧ p' = p := by
  obtain ⟨s1, sc1, ho1, hs1, ht1, hp1⟩ := h.place t p a h1
  obtain ⟨s2, sc2, ho2, hs2, ht2, hp2⟩ := h.place t' p' a h2
  obtain rfl := Option.some.inj (ho1.symm.trans ho2)
  obtain rfl := Option.some.inj (hs1.symm.trans hs2)
  exact ⟨(Option.some.inj (ht1.symm.trans ht2)).symm, hp2.symm.trans hp1⟩

theorem not_free_of_que (h : Chains w v) {t' : Nat} (h1 : a ∈ v.que t p) : a ∉ v.free t' := by
  intro h2
  obtain ⟨s, sc, ho, -⟩ := h.place t p a h1
  rw [h.freeOwner t' a h2] at ho
  exact nomatch ho

theorem loose_of_fresh (h : Chains w v) (ha : w.jobs a = none) : v.Loose a where
  que := fun t p hm => by
    obtain ⟨job, hj⟩ := h.live t p a (Or.inl hm)
    rw [ha] at hj
    exact nomatch hj
  free := fun t hm => by
    obtain ⟨job, hj⟩ := h.live t .num a (Or.inr hm)
    rw [ha] at hj
    exact nomatch hj

/-- Changes to a thread other than to its lists. -/
theorem setThr (h : Chains w v) (ht : w.thrs t = some th) (hq : th'.que = th.que)
    (hf : th'.freejobs = th.freejobs) : Chains (w.setThr t th') v where
  que := fun t1 th1 p1 h1 hp => by
    rcases update_eq_some h1 with ⟨rfl, rfl⟩ | ⟨-, h1⟩
    · rw [hq]
      exact h.que t1 th p1 ht hp
    · exact h.que t1 th1 p1 h1 hp
  free := fun t1 th1 h1 => by
    rcases update_eq_some h1 with ⟨rfl, rfl⟩ | ⟨-, h1⟩
    · rw [hf]
      exact h.free t1 th ht
    · exact h.free t1 th1 h1
  place := h.place
  freeOwner := h.freeOwner
  freeDisj := h.freeDisj
  count := h.count
  thr := fun s1 sc1 h1 => by
    obtain ⟨t1, th1, ht1, hth1⟩ := h.thr s1 sc1 h1
    by_cases he : t1 = t
    · exact ⟨t1, th', ht1, by rw [he]; exact Function.update_self ..⟩
    · exact ⟨t1, th1, ht1, by rw [SchHeap.setThr_thrs, Function.update_of_ne he]; exact hth1⟩
  live := h.live

/-- Changes to a schedule other than to its thread, its priority and its size. -/
theorem setSch (h : Chains w v) (hs : w.schs s = some sc) (ht : sc'.thr = sc.thr)
    (hp : sc'.pri = sc.pri) (hc : sc'.cursize = sc.cursize) : Chains (w.setSch s sc') v where
  que := h.que
  free := h.free
  place := fun t1 p1 a1 h1 => by
    obtain ⟨s1, sc1, ho, hs1, ht1, hp1⟩ := h.place t1 p1 a1 h1
    by_cases he : s1 = s
    · subst he
      obtain rfl := Option.some.inj (hs1.symm.trans hs)
      exact ⟨s1, sc', ho, Function.update_self .., ht.trans ht1, hp.trans hp1⟩
    · have hs1' : (w.setSch s sc').schs s1 = some sc1 := by
        rw [SchHeap.setSch_schs, Function.update_of_ne he]
        exact hs1
      exact ⟨s1, sc1, ho, hs1', ht1, hp1⟩
  freeOwner := h.freeOwner
  freeDisj := h.freeDisj
  count := fun s1 sc1 t1 h1 h2 => by
    rcases update_eq_some h1 with ⟨rfl, rfl⟩ | ⟨-, h1⟩
    · rw [hc, hp]
      exact h.count s1 sc t1 hs (ht.symm.trans h2)
    · exact h.count s1 sc1 t1 h1 h2
  thr := fun s1 sc1 h1 => by
    rcases update_eq_some h1 with ⟨rfl, rfl⟩ | ⟨-, h1⟩
    · rw [ht]
      exact h.thr s1 sc hs
    · exact h.thr s1 sc1 h1
  live := h.live

/-- A loose node may be written. -/
theorem setJob (h : Chains w v) (hl : v.Loose a) (j : ScheduleJob F P) :
    Chains (w.setJob a j) v where
  que := fun t1 th1 p1 h1 hp => (h.que t1 th1 p1 h1 hp).congr fun b hb => by
    rw [SchHeap.setJob_links, Function.update_of_ne (hl.ne_que hb)]
  free := fun t1 th1 h1 => (h.free t1 th1 h1).congr fun b hb => by
    rw [SchHeap.setJob_links, Function.update_of_ne (hl.ne_free hb)]
  place := fun t1 p1 b hb => by
    rw [SchHeap.setJob_owner, Function.update_of_ne (hl.ne_que hb)]
    exact h.place t1 p1 b hb
  freeOwner := fun t1 b hb => by
    rw [SchHeap.setJob_owner, Function.update_of_ne (hl.ne_free hb)]
    exact h.freeOwner t1 b hb
  freeDisj := h.freeDisj
  count := fun s1 sc1 t1 h1 h2 => by
    rw [h.count s1 sc1 t1 h1 h2]
    refine congrArg _ (List.countP_congr fun b hb => ?_)
    rw [SchHeap.setJob_owner, Function.update_of_ne (hl.ne_que hb)]
  thr := h.thr
  live := fun t1 p1 b hb => by
    rw [SchHeap.setJob_jobs, Function.update_of_ne]
    · exact h.live t1 p1 b hb
    · rintro rfl
      exact hb.elim (hl.que t1 p1) (hl.free t1)

/-- The first free node of a thread is taken. -/
theorem popFree (h : Chains w v) (ht : w.thrs t = some th) {n : Option Nat} {f : List Nat}
    (hf : v.free t = a :: f) (hn : w.links a = some n) (hq : th'.que = th.que)
    (hfree : th'.freejobs = n) :
    Chains (w.setThr t th') (v.setFree t f) ∧ (v.setFree t f).Loose a := by
  have hseg := h.free t th ht
  rw [hf] at hseg
  have hsub : ∀ t1 b, b ∈ (v.setFree t f).free t1 → b ∈ v.free t1 := fun t1 b hb => by
    by_cases he : t1 = t
    · subst he
      rw [SchView.setFree_self] at hb
      rw [hf]
      exact List.mem_cons_of_mem _ hb
    · rwa [SchView.setFree_of_ne _ _ he] at hb
  have haf : a ∈ v.free t := by
    rw [hf]
    exact List.mem_cons_self
  refine ⟨?_, fun t1 p1 hm => h.not_free_of_que hm haf, fun t1 hm => ?_⟩
  · exact {
      que := fun t1 th1 p1 h1 hp => by
        rcases update_eq_some h1 with ⟨rfl, rfl⟩ | ⟨-, h1⟩
        · rw [hq]
          exact h.que t1 th p1 ht hp
        · exact h.que t1 th1 p1 h1 hp
      free := fun t1 th1 h1 => by
        rcases update_eq_some h1 with ⟨rfl, rfl⟩ | ⟨hne, h1⟩
        · rw [SchView.setFree_self, hfree]
          exact hseg.pop hn fun _ _ => rfl
        · rw [SchView.setFree_of_ne _ _ hne]
          exact h.free t1 th1 h1
      place := h.place
      freeOwner := fun t1 b hb => h.freeOwner t1 b (hsub t1 b hb)
      freeDisj := fun t1 t2 b h1 h2 => h.freeDisj t1 t2 b (hsub t1 b h1) (hsub t2 b h2)
      count := h.count
      thr := fun s1 sc1 h1 => by
        obtain ⟨t1, th1, ht1, hth1⟩ := h.thr s1 sc1 h1
        by_cases he : t1 = t
        · exact ⟨t1, th', ht1, by rw [he]; exact Function.update_self ..⟩
        · exact ⟨t1, th1, ht1, by rw [SchHeap.setThr_thrs, Function.update_of_ne he]; exact hth1⟩
      live := fun t1 p1 b hb => h.live t1 p1 b (hb.imp_right (hsub t1 b)) }
  · by_cases he : t1 = t
    · subst he
      rw [SchView.setFree_self] at hm
      exact (List.nodup_cons.mp hseg.nodup).1 hm
    · exact he (h.freeDisj t1 t a (hsub t1 a hm) haf)

/-- A new thread has nothing to do. -/
theorem newThr (h : Chains w v) (ht : w.thrs t = none)
    (hq : th.que = fun _ => { jobs := none, tail := none }) (hf : th.freejobs = none) :
    Chains (w.setThr t th) (v.setFree t []) := by
  have hempty : ∀ p, v.que t p = [] := fun p => by
    refine List.eq_nil_iff_forall_not_mem.mpr fun b hb => ?_
    obtain ⟨s, sc, -, hs, hst, -⟩ := h.place t p b hb
    obtain ⟨t1, th1, ht1, hth1⟩ := h.thr s sc hs
    obtain rfl := Option.some.inj (hst.symm.trans ht1)
    rw [ht] at hth1
    exact nomatch hth1
  have hsub : ∀ t1 b, b ∈ (v.setFree t []).free t1 → b ∈ v.free t1 := fun t1 b hb => by
    by_cases he : t1 = t
    · subst he
      rw [SchView.setFree_self] at hb
      exact absurd hb List.not_mem_nil
    · rwa [SchView.setFree_of_ne _ _ he] at hb
  exact {
    que := fun t1 th1 p1 h1 hp => by
      rcases update_eq_some h1 with ⟨rfl, rfl⟩ | ⟨-, h1⟩
      · rw [hq, SchView.setFree_que, hempty p1]
        rfl
      · exact h.que t1 th1 p1 h1 hp
    free := fun t1 th1 h1 => by
      rcases update_eq_some h1 with ⟨rfl, rfl⟩ | ⟨hne, h1⟩
      · rw [SchView.setFree_self, hf]
        rfl
      · rw [SchView.setFree_of_ne _ _ hne]
        exact h.free t1 th1 h1
    place := h.place
    freeOwner := fun t1 b hb => h.freeOwner t1 b (hsub t1 b hb)
    freeDisj := fun t1 t2 b h1 h2 => h.freeDisj t1 t2 b (hsub t1 b h1) (hsub t2 b h2)
    count := h.count
    thr := fun s1 sc1 h1 => by
      obtain ⟨t1, th1, ht1, hth1⟩ := h.thr s1 sc1 h1
      refine ⟨t1, th1, ht1, ?_⟩
      rw [SchHeap.setThr_thrs, Function.update_of_ne]
      · exact hth1
      · rintro rfl
        rw [ht] at hth1
        exact nomatch hth1
    live := fun t1 p1 b hb => h.live t1 p1 b (hb.imp_right (hsub t1 b)) }

/-- A new schedule has no job. -/
theorem newSch (h : Chains w v) (hs : w.schs s = none) (hst : sc.thr = some t)
    (ht : w.thrs t = some th) (hc : sc.cursize = 0) : Chains (w.setSch s sc) v := by
  have hno : ∀ t1 p1 b, b ∈ v.que t1 p1 → w.owner b ≠ some s := fun t1 p1 b hb ho => by
    obtain ⟨s1, sc1, ho1, hs1, -⟩ := h.place t1 p1 b hb
    obtain rfl := Option.some.inj (ho.symm.trans ho1)
    rw [hs] at hs1
    exact nomatch hs1
  exact {
    que := h.que
    free := h.free
    place := fun t1 p1 b hb => by
      obtain ⟨s1, sc1, ho, hs1, hrest⟩ := h.place t1 p1 b hb
      refine ⟨s1, sc1, ho, ?_, hrest⟩
      rw [SchHeap.setSch_schs, Function.update_of_ne]
      · exact hs1
      · rintro rfl
        exact hno t1 p1 b hb ho
    freeOwner := h.freeOwner
    freeDisj := h.freeDisj
    count := fun s1 sc1 t1 h1 h2 => by
      rcases update_eq_some h1 with ⟨rfl, rfl⟩ | ⟨-, h1⟩
      · rw [hc]
        refine (congrArg Int.ofNat ?_).symm
        exact List.countP_eq_zero.mpr fun b hb hd => hno t1 _ b hb (of_decide_eq_true hd)
      · exact h.count s1 sc1 t1 h1 h2
    thr := fun s1 sc1 h1 => by
      rcases update_eq_some h1 with ⟨rfl, rfl⟩ | ⟨-, h1⟩
      · exact ⟨t, th, hst, ht⟩
      · exact h.thr s1 sc1 h1
    live := h.live }

/-- A schedule without jobs may go. -/
theorem freeSch (h : Chains w v) (hno : ∀ t p b, b ∈ v.que t p → w.owner b ≠ some s) :
    Chains { w with schs := Function.update w.schs s none } v := by
  have hold : ∀ s1 sc1, Function.update w.schs s none s1 = some sc1 → w.schs s1 = some sc1 :=
    fun s1 sc1 h1 => by
      by_cases he : s1 = s
      · subst he
        rw [Function.update_self] at h1
        exact nomatch h1
      · rwa [Function.update_of_ne he] at h1
  exact {
    que := h.que
    free := h.free
    place := fun t1 p1 b hb => by
      obtain ⟨s1, sc1, ho, hs1, hrest⟩ := h.place t1 p1 b hb
      refine ⟨s1, sc1, ho, ?_, hrest⟩
      dsimp only
      rw [Function.update_of_ne]
      · exact hs1
      · rintro rfl
        exact hno t1 p1 b hb ho
    freeOwner := h.freeOwner
    freeDisj := h.freeDisj
    count := fun s1 sc1 t1 h1 h2 => h.count s1 sc1 t1 (hold s1 sc1 h1) h2
    thr := fun s1 sc1 h1 => h.thr s1 sc1 (hold s1 sc1 h1)
    live := h.live }

/-- A job `a` of schedule `s` moves in or out of the queue of `s`, which becomes `l`, while the
    free list becomes `f`; nothing else is written. -/
structure Edit (w w' : SchHeap F P) (v : SchView) (t : Nat) (th th' : SchThr) (s : Nat)
    (sc sc' : ZSchedule) (a : Nat) (l f : List Nat) : Prop where
  thr : w.thrs t = some th
  sch : w.schs s = some sc
  schThr : sc.thr = some t
  thrs : w'.thrs = Function.update w.thrs t (some th')
  schs : w'.schs = Function.update w.schs s (some sc')
  sameThr : sc'.thr = sc.thr
  samePri : sc'.pri = sc.pri
  otherQue : ∀ p, p ≠ sc.pri → th'.que p = th.que p
  seg : sc.pri ≠ .num → Seg w'.links (th'.que sc.pri).jobs l none
  freeSeg : Seg w'.links th'.freejobs f none
  links : ∀ b, b ≠ a → b ∉ v.que t sc.pri → w'.links b = w.links b
  owner : ∀ b, b ≠ a → w'.owner b = w.owner b
  mem : ∀ b ∈ l, (b ∈ v.que t sc.pri ∧ b ≠ a) ∨ (b = a ∧ w'.owner a = some s)
  freeMem : ∀ b ∈ f, (b ∈ v.free t ∧ b ≠ a) ∨ (b = a ∧ w'.owner a = none)
  place : ∀ t' p', a ∈ v.que t' p' → t' = t ∧ p' = sc.pri
  notFree : ∀ t', a ∉ v.free t'
  count : sc'.cursize = (l.countP fun b => w'.owner b = some s : Nat)
  otherCount : ∀ s', s' ≠ s → (l.countP fun b => w'.owner b = some s') =
    (v.que t sc.pri).countP fun b => w.owner b = some s'
  live : ∀ b, b = a ∨ (∃ job, w.jobs b = some job) → ∃ job, w'.jobs b = some job

/-- Outside the queue of `s` and the free list the lists are as before. -/
theorem edit (h : Chains w v) {l f : List Nat} (e : Edit w w' v t th th' s sc sc' a l f) :
    Chains w' ((v.setQue t sc.pri l).setFree t f) where
  que := fun t1 th1 p1 h1 hp => by
    rw [e.thrs] at h1
    rw [SchView.setFree_que]
    by_cases hq : t1 = t ∧ p1 = sc.pri
    · obtain ⟨rfl, rfl⟩ := hq
      rw [Function.update_self] at h1
      obtain rfl := Option.some.inj h1
      rw [SchView.setQue_self]
      exact e.seg hp
    · rw [SchView.setQue_of_ne _ _ hq]
      have hframe : ∀ b ∈ v.que t1 p1, w'.links b = w.links b := fun b hb => by
        refine e.links b (fun he => hq ?_) fun hb' => hq ?_
        · subst he
          exact e.place t1 p1 hb
        · exact (h.que_unique hb' hb)
      rcases update_eq_some h1 with ⟨rfl, rfl⟩ | ⟨-, h1⟩
      · rw [e.otherQue p1 fun hp1 => hq ⟨rfl, hp1⟩]
        exact (h.que t1 th p1 e.thr hp).congr hframe
      · exact (h.que t1 th1 p1 h1 hp).congr hframe
  free := fun t1 th1 h1 => by
    rw [e.thrs] at h1
    rcases update_eq_some h1 with ⟨rfl, rfl⟩ | ⟨hne, h1⟩
    · rw [SchView.setFree_self]
      exact e.freeSeg
    · rw [SchView.setFree_of_ne _ _ hne]
      refine (h.free t1 th1 h1).congr fun b hb => e.links b (fun he => ?_) fun hb' => ?_
      · subst he
        exact e.notFree t1 hb
      · exact h.not_free_of_que hb' hb
  place := fun t1 p1 b hb => by
    rw [SchView.setFree_que] at hb
    by_cases hq : t1 = t ∧ p1 = sc.pri
    · obtain ⟨rfl, rfl⟩ := hq
      rw [SchView.setQue_self] at hb
      rcases e.mem b hb with ⟨hb, hne⟩ | ⟨rfl, ho⟩
      · obtain ⟨s1, sc1, ho, hs1, ht1, hp1⟩ := h.place _ _ b hb
        rw [← e.owner b hne] at ho
        by_cases he : s1 = s
        · subst he
          exact ⟨s1, sc', ho, by rw [e.schs]; exact Function.update_self ..,
            e.sameThr.trans e.schThr, e.samePri⟩
        · exact ⟨s1, sc1, ho, by rw [e.schs, Function.update_of_ne he]; exact hs1, ht1, hp1⟩
      · exact ⟨s, sc', ho, by rw [e.schs]; exact Function.update_self ..,
          e.sameThr.trans e.schThr, e.samePri⟩
    · rw [SchView.setQue_of_ne _ _ hq] at hb
      obtain ⟨s1, sc1, ho, hs1, ht1, hp1⟩ := h.place _ _ b hb
      have hne : b ≠ a := fun he => hq (e.place t1 p1 (he ▸ hb))
      rw [← e.owner b hne] at ho
      by_cases he : s1 = s
      · subst he
        obtain rfl := Option.some.inj (hs1.symm.trans e.sch)
        exact ⟨s1, sc', ho, by rw [e.schs]; exact Function.update_self .., e.sameThr.trans ht1,
          e.samePri.trans hp1⟩
      · exact ⟨s1, sc1, ho, by rw [e.schs, Function.update_of_ne he]; exact hs1, ht1, hp1⟩
  freeOwner := fun t1 b hb => by
    by_cases ht1 : t1 = t
    · subst ht1
      rw [SchView.setFree_self] at hb
      rcases e.freeMem b hb with ⟨hb, hne⟩ | ⟨rfl, ho⟩
      · rw [e.owner b hne]
        exact h.freeOwner t1 b hb
      · exact ho
    · rw [SchView.setFree_of_ne _ _ ht1] at hb
      rw [e.owner b fun he => e.notFree t1 (he ▸ hb)]
      exact h.freeOwner t1 b hb
  freeDisj := fun t1 t2 b h1 h2 => by
    have hold : ∀ t', t' ≠ t → b ∈ ((v.setQue t sc.pri l).setFree t f).free t' →
        b ∈ v.free t' ∧ b ≠ a := fun t' ht' hb => by
      rw [SchView.setFree_of_ne _ _ ht'] at hb
      exact ⟨hb, fun he => e.notFree t' (he ▸ hb)⟩
    have hnew : b ∈ ((v.setQue t sc.pri l).setFree t f).free t → b ≠ a → b ∈ v.free t :=
      fun hb hne => by
        rw [SchView.setFree_self] at hb
        exact (e.freeMem b hb).elim (fun hb => hb.1) fun hb => absurd hb.1 hne
    by_cases ht1 : t1 = t <;> by_cases ht2 : t2 = t
    · rw [ht1, ht2]
    · obtain ⟨hb2, hne⟩ := hold t2 ht2 h2
      subst ht1
      exact h.freeDisj t1 t2 b (hnew h1 hne) hb2
    · obtain ⟨hb1, hne⟩ := hold t1 ht1 h1
      subst ht2
      exact h.freeDisj t1 t2 b hb1 (hnew h2 hne)
    · exact h.freeDisj t1 t2 b (hold t1 ht1 h1).1 (hold t2 ht2 h2).1
  count := fun s1 sc1 t1 h1 h2 => by
    rw [SchView.setFree_que]
    rw [e.schs] at h1
    rcases update_eq_some h1 with ⟨rfl, rfl⟩ | ⟨hne, h1⟩
    · rw [e.sameThr, e.schThr] at h2
      obtain rfl := Option.some.inj h2
      rw [e.samePri, SchView.setQue_self]
      exact e.count
    · rw [h.count s1 sc1 t1 h1 h2]
      by_cases hq : t1 = t ∧ sc1.pri = sc.pri
      · rw [hq.1, hq.2, SchView.setQue_self, e.otherCount s1 hne]
      · rw [SchView.setQue_of_ne _ _ hq]
        refine congrArg _ (List.countP_congr fun b hb => ?_)
        rw [e.owner b fun he => hq (e.place _ _ (he ▸ hb))]
  thr := fun s1 sc1 h1 => by
    have hthr : ∀ t1 th1, w.thrs t1 = some th1 → ∃ th2, w'.thrs t1 = some th2 :=
      fun t1 th1 ht1 => by
        rw [e.thrs]
        by_cases he : t1 = t
        · exact ⟨th', by rw [he]; exact Function.update_self ..⟩
        · exact ⟨th1, by rw [Function.update_of_ne he]; exact ht1⟩
    rw [e.schs] at h1
    rcases update_eq_some h1 with ⟨rfl, rfl⟩ | ⟨-, h1⟩
    · obtain ⟨th2, hth2⟩ := hthr t th e.thr
      exact ⟨t, th2, e.sameThr.trans e.schThr, hth2⟩
    · obtain ⟨t1, th1, ht1, hth1⟩ := h.thr s1 sc1 h1
      obtain ⟨th2, hth2⟩ := hthr t1 th1 hth1
      exact ⟨t1, th2, ht1, hth2⟩
  live := fun t1 p1 b hb => by
    rw [SchView.setFree_que] at hb
    refine e.live b ?_
    by_cases ha : b = a
    · exact Or.inl ha
    refine Or.inr ?_
    rcases hb with hb | hb
    · by_cases hq : t1 = t ∧ p1 = sc.pri
      · obtain ⟨rfl, rfl⟩ := hq
        rw [SchView.setQue_self] at hb
        exact h.live t1 _ b (Or.inl ((e.mem b hb).elim And.left fun hb => absurd hb.1 ha))
      · rw [SchView.setQue_of_ne _ _ hq] at hb
        exact h.live t1 p1 b (Or.inl hb)
    · by_cases ht1 : t1 = t
      · subst ht1
        rw [SchView.setFree_self] at hb
        exact h.live t1 .num b (Or.inr ((e.freeMem b hb).elim And.left fun hb => absurd hb.1 ha))
      · rw [SchView.setFree_of_ne _ _ ht1] at hb
        exact h.live t1 .num b (Or.inr hb)

/-- A job `a` leaves its queue, `k ++ a :: r`, for the free list: either the queue now begins with
    what followed it, or the job before it has its link. -/
structure Unlink (w w' : SchHeap F P) (t : Nat) (th th' : SchThr) (s : Nat) (sc : ZSchedule)
    (a : Nat) (j : ScheduleJob F P) (k : List Nat) : Prop where
  thr : w.thrs t = some th
  sch : w.schs s = some sc
  job : w.jobs a = some j
  jobSch : j.sch = some s
  thrs : w'.thrs = Function.update w.thrs t (some th')
  schs : w'.schs = Function.update w.schs s (some { sc with cursize := sc.cursize - 1 })
  freejobs : th'.freejobs = some a
  otherQue : ∀ p, p ≠ sc.pri → th'.que p = th.que p
  link : w'.links a = some th.freejobs
  links : ∀ b, b ≠ a → k.getLast? ≠ some b → w'.links b = w.links b
  first : k = [] → (th'.que sc.pri).jobs = j.next
  before : ∀ x, k.getLast? = some x →
    (th'.que sc.pri).jobs = (th.que sc.pri).jobs ∧ w'.links x = some j.next
  owner : w'.owner = Function.update w.owner a none
  zcrtthr : w'.zcrtthr = w.zcrtthr
  live : ∀ b, (∃ job, w.jobs b = some job) → ∃ job, w'.jobs b = some job

theorem unlink (h : Chains w v) {j : ScheduleJob F P} {k r : List Nat}
    (e : Unlink w w' t th th' s sc a j k) (hst : sc.thr = some t) (hp : sc.pri ≠ .num)
    (hq : v.que t sc.pri = k ++ a :: r) :
    Chains w' ((v.setQue t sc.pri (k ++ r)).setFree t (a :: v.free t)) := by
  have hseg := h.que t th sc.pri e.thr hp
  rw [hq] at hseg
  have hnodup := hseg.nodup
  have hkr : ∀ b ∈ k ++ r, b ≠ a := by
    intro b hb he
    subst he
    have := (List.nodup_middle.mp hnodup)
    exact (List.nodup_cons.mp this).1 hb
  have ho : w.owner a = some s := (SchHeap.owner_of_jobs e.job).trans e.jobSch
  have haq : a ∈ v.que t sc.pri := by
    rw [hq]
    simp
  have howner : ∀ b, b ≠ a → w'.owner b = w.owner b := fun b hb => by
    rw [e.owner, Function.update_of_ne hb]
  have hfreeLinks : ∀ b ∈ v.free t, w'.links b = w.links b := fun b hb => by
    refine e.links b (fun he => ?_) fun hk => ?_
    · subst he
      exact h.not_free_of_que haq hb
    · refine h.not_free_of_que (t := t) (p := sc.pri) ?_ hb
      rw [hq]
      exact List.mem_append_left _ (List.mem_of_getLast? hk)
  suffices he : Edit w w' v t th th' s sc { sc with cursize := sc.cursize - 1 } a (k ++ r)
      (a :: v.free t) from h.edit he
  refine
    { thr := e.thr, sch := e.sch, schThr := hst, thrs := e.thrs, schs := e.schs, sameThr := rfl,
      samePri := rfl, otherQue := e.otherQue, seg := fun _ => ?_, freeSeg := ?_, links := ?_,
      owner := howner, mem := ?_, freeMem := ?_, place := ?_, notFree := ?_, count := ?_,
      otherCount := ?_, live := ?_ }
  · -- the queue without `a`
    rcases List.eq_nil_or_concat k with rfl | ⟨k', x, rfl⟩
    · rw [e.first rfl]
      refine hseg.pop (SchHeap.links_of_jobs e.job) fun b hb => e.links b (hkr b hb) (by simp)
    · obtain ⟨hjobs, hx⟩ := e.before x (by simp)
      rw [List.concat_eq_append, List.append_assoc, List.singleton_append] at hseg hnodup ⊢
      have hxl : ∀ b ∈ k' ++ r, b ≠ x := by
        intro b hb he
        subst he
        have hd := List.nodup_append.mp hnodup
        rcases List.mem_append.mp hb with hb | hb
        · exact hd.2.2 b hb b List.mem_cons_self rfl
        · have := (List.nodup_cons.mp hd.2.1).1
          exact this (List.mem_cons_of_mem _ hb)
      have hlk : ∀ b ∈ k' ++ r, w'.links b = w.links b := fun b hb => by
        refine e.links b (hkr b ?_) fun hk => hxl b hb ?_
        · rw [List.concat_eq_append, List.append_assoc]
          rcases List.mem_append.mp hb with hb | hb
          · exact List.mem_append_left _ hb
          · exact List.mem_append_right _ (List.mem_append_right _ hb)
        · simpa using hk.symm
      rw [hjobs]
      refine hseg.unlink (fun b hb => hlk b (List.mem_append_left _ hb))
        (fun b hb => hlk b (List.mem_append_right _ hb)) ?_
      rw [hx, SchHeap.links_of_jobs e.job]
  · rw [e.freejobs]
    exact (h.free t th e.thr).push hfreeLinks e.link
  · intro b hb hnq
    refine e.links b hb fun hk => hnq ?_
    rw [hq]
    exact List.mem_append_left _ (List.mem_of_getLast? hk)
  · intro b hb
    refine Or.inl ⟨?_, hkr b hb⟩
    rw [hq]
    rcases List.mem_append.mp hb with hb | hb
    · exact List.mem_append_left _ hb
    · exact List.mem_append_right _ (List.mem_cons_of_mem _ hb)
  · intro b hb
    rcases List.mem_cons.mp hb with rfl | hfree
    · exact Or.inr ⟨rfl, by rw [e.owner, Function.update_self]⟩
    · exact Or.inl ⟨hfree, fun he => h.not_free_of_que haq (he ▸ hfree)⟩
  · exact fun t' p' hm => (h.que_unique haq hm)
  · exact fun t' hm => h.not_free_of_que haq hm
  · have hc := h.count s sc t e.sch hst
    have hsame : ((k ++ r).countP fun b => w'.owner b = some s) =
        (k ++ r).countP fun b => w.owner b = some s :=
      List.countP_congr fun b hb => by rw [howner b (hkr b hb)]
    rw [hq, List.countP_append, List.countP_cons_of_pos (by simpa using ho)] at hc
    change sc.cursize - 1 = _
    rw [hsame, List.countP_append, hc]
    omega
  · intro s' hs'
    have hsame : ((k ++ r).countP fun b => w'.owner b = some s') =
        (k ++ r).countP fun b => w.owner b = some s' :=
      List.countP_congr fun b hb => by rw [howner b (hkr b hb)]
    rw [hsame, hq, List.countP_append, List.countP_append, List.countP_cons_of_neg]
    rw [ho]
    simpa using fun he => hs' he.symm
  · rintro b (rfl | hb)
    · exact e.live b ⟨j, e.job⟩
    · exact e.live b hb

/-- A loose job `a` of schedule `s` comes behind the last job of its queue: that job gets its
    address as link, or the queue begins with it. -/
structure Append (w w' : SchHeap F P) (v : SchView) (t : Nat) (th th' : SchThr) (s : Nat)
    (sc sc' : ZSchedule) (a : Nat) (j : ScheduleJob F P) : Prop where
  thr : w.thrs t = some th
  sch : w.schs s = some sc
  job : w.jobs a = some j
  jobSch : j.sch = some s
  jobNext : j.next = none
  loose : v.Loose a
  thrs : w'.thrs = Function.update w.thrs t (some th')
  schs : w'.schs = Function.update w.schs s (some sc')
  sameThr : sc'.thr = sc.thr
  samePri : sc'.pri = sc.pri
  cursize : sc'.cursize = sc.cursize + 1
  freejobs : th'.freejobs = th.freejobs
  otherQue : ∀ p, p ≠ sc.pri → th'.que p = th.que p
  links : ∀ b, (v.que t sc.pri).getLast? ≠ some b → w'.links b = w.links b
  first : v.que t sc.pri = [] → (th'.que sc.pri).jobs = some a
  before : ∀ x, (v.que t sc.pri).getLast? = some x →
    (th'.que sc.pri).jobs = (th.que sc.pri).jobs ∧ w'.links x = some (some a)
  owner : w'.owner = w.owner
  live : ∀ b, (∃ job, w.jobs b = some job) → ∃ job, w'.jobs b = some job

theorem append (h : Chains w v) {j : ScheduleJob F P} (e : Append w w' v t th th' s sc sc' a j)
    (hst : sc.thr = some t) (hp : sc.pri ≠ .num) :
    Chains w' (v.setQue t sc.pri (v.que t sc.pri ++ [a])) := by
  have hseg := h.que t th sc.pri e.thr hp
  have hne : ∀ b ∈ v.que t sc.pri, b ≠ a := fun b hb he => e.loose.que t sc.pri (he ▸ hb)
  have ho : w'.owner a = some s := by
    rw [e.owner, SchHeap.owner_of_jobs e.job, e.jobSch]
  have hla : w'.links a = some none := by
    rw [e.links a fun hk => e.loose.que t sc.pri (List.mem_of_getLast? hk),
      SchHeap.links_of_jobs e.job, e.jobNext]
  suffices he : Edit w w' v t th th' s sc sc' a (v.que t sc.pri ++ [a]) (v.free t) by
    have hfree := SchView.setFree_eq (v.setQue t sc.pri (v.que t sc.pri ++ [a])) t
    have hedit := h.edit he
    rwa [show (v.setQue t sc.pri (v.que t sc.pri ++ [a])).setFree t (v.free t) =
      v.setQue t sc.pri (v.que t sc.pri ++ [a]) from hfree] at hedit
  refine
    { thr := e.thr, sch := e.sch, schThr := hst, thrs := e.thrs, schs := e.schs,
      sameThr := e.sameThr, samePri := e.samePri, otherQue := e.otherQue, seg := fun _ => ?_,
      freeSeg := ?_, links := ?_, owner := fun b _ => by rw [e.owner], mem := ?_, freeMem := ?_,
      place := fun t' p' hm => absurd hm (e.loose.que t' p'), notFree := e.loose.free, count := ?_,
      otherCount := ?_, live := ?_ }
  · -- the queue with `a` behind its last job
    rcases List.eq_nil_or_concat (v.que t sc.pri) with hnil | ⟨l, x, hl⟩
    · rw [hnil, e.first hnil]
      exact ⟨rfl, none, hla, rfl⟩
    · rw [List.concat_eq_append] at hl
      obtain ⟨hjobs, hx⟩ := e.before x (by rw [hl]; simp)
      rw [hl] at hseg
      have hnodup := List.nodup_append.mp hseg.nodup
      rw [hjobs, hl, List.append_assoc]
      refine hseg.snoc (fun b hb => e.links b fun hk => ?_) hx hla
      rw [hl, List.getLast?_append, List.getLast?_singleton, Option.some_or] at hk
      obtain rfl := Option.some.inj hk
      exact hnodup.2.2 x hb x (by simp) rfl
  · rw [e.freejobs]
    refine (h.free t th e.thr).congr fun b hb => e.links b fun hk => ?_
    exact h.not_free_of_que (List.mem_of_getLast? hk) hb
  · exact fun b _ hnq => e.links b fun hk => hnq (List.mem_of_getLast? hk)
  · intro b hb
    rcases List.mem_append.mp hb with hq | ha
    · exact Or.inl ⟨hq, hne b hq⟩
    · obtain rfl := List.mem_singleton.mp ha
      exact Or.inr ⟨rfl, ho⟩
  · exact fun b hb => Or.inl ⟨hb, fun he => e.loose.free t (he ▸ hb)⟩
  · rw [e.cursize, h.count s sc t e.sch hst, List.countP_append, e.owner,
      List.countP_cons_of_pos (by rw [← e.owner, ho]; simp), List.countP_nil]
    omega
  · intro s' hs'
    rw [List.countP_append, e.owner, List.countP_cons_of_neg, List.countP_nil, Nat.add_zero]
    rw [← e.owner, ho]
    simpa using fun he => hs' he.symm
  · rintro b (rfl | hb)
    · exact e.live b ⟨j, e.job⟩
    · exact e.live b hb

end Chains

end Zcrt
