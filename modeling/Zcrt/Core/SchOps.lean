/-
  The operations of `zschedule.c` on the lists of `SchQueue`: each returns, and does to the queues
  what its structure says.

  * `zcrtSInsertJob_ok`: a new job comes last, and no assertion fails.
  * `zcrtSJobNew_ok`: a node in no list.
  * `zcrtScheduleThreadProc_ok`: the worker takes the first job of the highest queue that has one.
  * `sendNewJob_ok`: a job sent can be reached from its queue.
-/
import Zcrt.Core.SchQueue

namespace Zcrt

open Lib

variable {F P : Type} {w : SchHeap F P} {v : SchView} {t s a : Nat} {th : SchThr} {sc : ZSchedule}

/-! ## Inserting -/

/-- Job `a` was put at the end of the queue of schedule `s`. -/
structure Inserted (w w' : SchHeap F P) (v : SchView) (t s a : Nat) (th th' : SchThr)
    (sc sc' : ZSchedule) : Prop where
  chains : Chains w' (v.setQue t sc.pri (v.que t sc.pri ++ [a]))
  thrs : w'.thrs = Function.update w.thrs t (some th')
  same : SameBut th th' sc.pri
  tail : (th'.que sc.pri).tail = some a
  sch : w.schs s = some sc
  schs : w'.schs = Function.update w.schs s (some sc')
  schThr : sc'.thr = sc.thr
  schPri : sc'.pri = sc.pri
  schType : sc'.type = sc.type
  maxsize : sc'.maxsize = sc.maxsize
  cursize : sc'.cursize = sc.cursize + 1
  item : w'.item = w.item
  owner : w'.owner = w.owner
  job : w'.jobs a = w.jobs a
  otherJob : ∀ b, b ∉ v.que t sc.pri → w'.jobs b = w.jobs b
  zcrtthr : w'.zcrtthr = w.zcrtthr

theorem Inserted.tails {w' : SchHeap F P} {th' : SchThr} {sc' : ZSchedule}
    {R : Option Nat → List Nat → Prop} (h : Inserted w w' v t s a th th' sc sc')
    (ht : w.thrs t = some th) (htail : Tails R w v)
    (hR : ∀ l : List Nat, R (l ++ [a]).getLast? (l ++ [a])) :
    Tails R w' (v.setQue t sc.pri (v.que t sc.pri ++ [a])) := by
  refine htail.edit ht h.thrs h.same.que fun _ => ?_
  have := hR (v.que t sc.pri)
  rwa [List.getLast?_append, List.getLast?_singleton, Option.some_or, ← h.tail] at this

theorem zcrtSInsertJob_ok (h : Chains w v) (ht : w.thrs t = some th) (hs : w.schs s = some sc)
    (hst : sc.thr = some t) (hp : sc.pri ≠ .num)
    (htl : (th.que sc.pri).tail = (v.que t sc.pri).getLast?) {j : ScheduleJob F P}
    (hj : w.jobs a = some j) (hjs : j.sch = some s) (hjn : j.next = none) (hl : v.Loose a) :
    ∃ w' th' sc', zcrtSInsertJob w s a = .ok w' ∧ Inserted w w' v t s a th th' sc sc' := by
  have hseg := h.que t th sc.pri ht hp
  let cursize := sc.cursize + 1
  let sc' : ZSchedule :=
    { sc with
      thr := some t, cursize := cursize
      maxhold := if sc.maxhold < cursize then cursize else sc.maxhold }
  unfold zcrtSInsertJob
  rw [deref_some hs, except_ok_bind]
  dsimp only
  rw [hst, deref_some ht, except_ok_bind]
  dsimp only
  rcases List.eq_nil_or_concat (v.que t sc.pri) with hnil | ⟨l, x, hlx⟩
  · -- the queue was empty
    rw [hnil] at hseg htl
    have hjobs : (th.que sc.pri).jobs = none := hseg
    let th' := th.setQue sc.pri { jobs := some a, tail := some a }
    have hself : th'.que sc.pri = { jobs := some a, tail := some a } := Function.update_self ..
    have hother : ∀ p, p ≠ sc.pri → th'.que p = th.que p := fun p hp => Function.update_of_ne hp ..
    rw [hjobs, htl]
    let w1 := (w.setThr t th').setSch s sc'
    have happ : Chains.Append w w1 v t th th' s sc sc' a j :=
      { thr := ht, sch := hs, job := hj, jobSch := hjs, jobNext := hjn, loose := hl, thrs := rfl,
        schs := rfl, sameThr := hst.symm, samePri := rfl, cursize := rfl, freejobs := rfl,
        otherQue := hother, links := fun _ _ => rfl, first := fun _ => by rw [hself],
        before := fun x hx => by rw [hnil] at hx; exact (nomatch hx), owner := rfl,
        live := fun b hb => hb }
    refine ⟨w1, th', sc', rfl, ?_⟩
    exact {
      chains := h.append happ hst hp
      thrs := rfl
      same := ⟨hother, rfl, rfl, rfl, rfl⟩
      tail := by rw [hself]
      sch := hs
      schs := rfl
      schThr := hst.symm
      schPri := rfl
      schType := rfl
      maxsize := rfl
      cursize := rfl
      item := rfl
      owner := rfl
      job := rfl
      otherJob := fun _ _ => rfl
      zcrtthr := rfl }
  · -- it ended in `x`
    rw [List.concat_eq_append] at hlx
    have hlast : (v.que t sc.pri).getLast? = some x := by
      rw [hlx, List.getLast?_append, List.getLast?_singleton, Option.some_or]
    have hxq : x ∈ v.que t sc.pri := List.mem_of_getLast? hlast
    obtain ⟨jx, hjx⟩ := h.live t sc.pri x (Or.inl hxq)
    have hne : a ≠ x := fun he => hl.que t sc.pri (he ▸ hxq)
    obtain ⟨b, hb⟩ : ∃ b, (th.que sc.pri).jobs = some b := by
      rw [hseg.head, hlx]
      cases l with
      | nil => exact ⟨x, rfl⟩
      | cons y l => exact ⟨y, rfl⟩
    let th' := th.setQue sc.pri { jobs := some b, tail := some a }
    have hself : th'.que sc.pri = { jobs := some b, tail := some a } := Function.update_self ..
    have hother : ∀ p, p ≠ sc.pri → th'.que p = th.que p := fun p hp => Function.update_of_ne hp ..
    let w1 := (w.setJob x { jx with next := some a }).setThr t th'
    have hjobs : ∀ c, c ≠ x → (w1.setSch s sc').jobs c = w.jobs c := fun c hc => by
      rw [SchHeap.setSch_jobs, SchHeap.setThr_jobs, SchHeap.setJob_jobs, Function.update_of_ne hc]
    have howner : (w1.setSch s sc').owner = w.owner := by
      rw [SchHeap.setSch_owner, SchHeap.setThr_owner, SchHeap.setJob_owner]
      exact Function.update_eq_self_iff.mpr (SchHeap.owner_of_jobs hjx).symm
    rw [hlast] at htl
    rw [hb, htl]
    dsimp only
    rw [deref_some hjx, except_ok_bind]
    have happ : Chains.Append w (w1.setSch s sc') v t th th' s sc sc' a j := by
      refine
        { thr := ht, sch := hs, job := hj, jobSch := hjs, jobNext := hjn, loose := hl,
          thrs := rfl, schs := rfl, sameThr := hst.symm, samePri := rfl, cursize := rfl,
          freejobs := rfl, otherQue := hother, links := fun b hb => ?_,
          first := fun hnil => by rw [hnil] at hlx; simp at hlx,
          before := fun y hy => ?_, owner := howner, live := fun b hb => ?_ }
      · rw [hlast] at hb
        rw [SchHeap.setSch_links, SchHeap.setThr_links, SchHeap.setJob_links,
          Function.update_of_ne fun he => hb (by rw [he])]
      · rw [hlast] at hy
        obtain rfl := Option.some.inj hy
        rw [hself, SchHeap.setSch_links, SchHeap.setThr_links, SchHeap.setJob_links,
          Function.update_self]
        exact ⟨hb.symm, rfl⟩
      · rw [SchHeap.setSch_jobs, SchHeap.setThr_jobs]
        exact SchHeap.live_setJob hb
    refine ⟨w1.setSch s sc', th', sc', ?_, ?_⟩
    · rw [except_pure, except_ok_bind]
      rfl
    · exact {
        chains := h.append happ hst hp
        thrs := rfl
        same := ⟨hother, rfl, rfl, rfl, rfl⟩
        tail := by rw [hself]
        sch := hs
        schs := rfl
        schThr := hst.symm
        schPri := rfl
        schType := rfl
        maxsize := rfl
        cursize := rfl
        item := by
          rw [SchHeap.setSch_item, SchHeap.setThr_item, SchHeap.setJob_item]
          exact Function.update_eq_self_iff.mpr (SchHeap.item_of_jobs hjx).symm
        owner := howner
        job := hjobs a hne
        otherJob := fun c hc => hjobs c fun he => hc (he ▸ hxq)
        zcrtthr := rfl }

/-- An insertion that returned found `tail` right. -/
theorem tail_of_insert (h : Chains w v) (ht : w.thrs t = some th) (hs : w.schs s = some sc)
    (hst : sc.thr = some t) (hp : sc.pri ≠ .num)
    (hweak : (th.que sc.pri).tail = none ∨ (th.que sc.pri).tail = (v.que t sc.pri).getLast?)
    {w' : SchHeap F P} (hrun : zcrtSInsertJob w s a = .ok w') :
    (th.que sc.pri).tail = (v.que t sc.pri).getLast? := by
  rcases hweak with hnone | hlast
  · cases hq : v.que t sc.pri with
    | nil => exact hnone
    | cons b l =>
        -- jobs, but no tail: the assertion fails
        have hseg := h.que t th sc.pri ht hp
        rw [hq] at hseg
        have hjobs : (th.que sc.pri).jobs = some b := hseg.1
        unfold zcrtSInsertJob at hrun
        rw [deref_some hs, except_ok_bind] at hrun
        dsimp only at hrun
        rw [hst, deref_some ht, except_ok_bind] at hrun
        dsimp only at hrun
        rw [hjobs, hnone] at hrun
        exact nomatch hrun
  · exact hlast

/-! ## A node for a job -/

/-- A job node asked for: `job`, taken from the free list, of which `f` is left, or from the
    allocator. No queue is changed. -/
structure NewJob (w w' : SchHeap F P) (v : SchView) (t : Nat) (th th' : SchThr) (cb : F)
    (job : Option Nat) (f : List Nat) : Prop where
  chains : Chains w' (v.setFree t f)
  thrs : w'.thrs = Function.update w.thrs t (some th')
  que : th'.que = th.que
  run : th'.run = th.run
  refCnt : th'.refCnt = th.refCnt
  schs : w'.schs = w.schs
  zcrtthr : w'.zcrtthr = w.zcrtthr
  otherJob : ∀ b, job ≠ some b → w'.jobs b = w.jobs b
  loose : ∀ a, job = some a → (v.setFree t f).Loose a
  blank : ∀ a, job = some a →
    w'.jobs a = some { fn := some cb, argn := 0, args := [], sch := none, next := none }
  source : ∀ a, job = some a → a ∈ v.free t ∨ w.jobs a = none
  sub : ∀ b ∈ f, b ∈ v.free t

theorem NewJob.tails {w' : SchHeap F P} {th' : SchThr} {cb : F} {job : Option Nat} {f : List Nat}
    {R : Option Nat → List Nat → Prop} (h : NewJob w w' v t th th' cb job f)
    (ht : w.thrs t = some th) (htail : Tails R w v) : Tails R w' (v.setFree t f) :=
  htail.keep ht h.thrs h.que

/-- A node that is in use stays loose, and is not the one handed out. -/
theorem NewJob.other {w' : SchHeap F P} {th' : SchThr} {cb : F} {job : Option Nat} {f : List Nat}
    (h : NewJob w w' v t th th' cb job f) {b : Nat} (hb : v.Loose b) {j : ScheduleJob F P}
    (hj : w.jobs b = some j) : job ≠ some b ∧ (v.setFree t f).Loose b := by
  refine ⟨fun he => ?_, hb.que, fun t1 hm => ?_⟩
  · rcases h.source b he with hf | hn
    · exact hb.free t hf
    · rw [hj] at hn
      exact nomatch hn
  · by_cases ht1 : t1 = t
    · subst ht1
      rw [SchView.setFree_self] at hm
      exact hb.free t1 (h.sub b hm)
    · rw [SchView.setFree_of_ne _ _ ht1] at hm
      exact hb.free t1 hm

theorem zcrtSJobNew_ok (h : Chains w v) (ht : w.thrs t = some th) (cb : F)
    (mem : Option Nat) (hmem : ∀ a, mem = some a → w.jobs a = none) :
    ∃ job w' f th', zcrtSJobNew w (some t) cb mem = .ok (job, w') ∧
      NewJob w w' v t th th' cb job f := by
  unfold zcrtSJobNew
  dsimp only
  rw [deref_some ht, except_ok_bind]
  dsimp only
  have hfree := h.free t th ht
  cases hf : th.freejobs with
  | some job =>
      -- the first free node
      obtain ⟨f, hvf⟩ : ∃ f, v.free t = job :: f := by
        rw [hf] at hfree
        rcases hv : v.free t with _ | ⟨b, f⟩
        · rw [hv] at hfree
          exact nomatch hfree
        · rw [hv] at hfree
          exact ⟨f, by rw [Option.some.inj hfree.1]⟩
      have hjf : job ∈ v.free t := by
        rw [hvf]
        exact List.mem_cons_self
      obtain ⟨j, hj⟩ := h.live t .num job (Or.inr hjf)
      dsimp only
      rw [deref_some hj, except_ok_bind]
      let th' : SchThr := { th with jobadded := th.jobadded + 1, freejobs := j.next }
      obtain ⟨hpop, hloose⟩ := h.popFree ht hvf (SchHeap.links_of_jobs hj)
        (show th'.que = th.que from rfl) rfl
      refine ⟨some job, _, f, th', rfl, ?_⟩
      exact {
        chains := hpop.setJob hloose _
        thrs := rfl
        que := rfl
        run := rfl
        refCnt := rfl
        schs := rfl
        zcrtthr := rfl
        otherJob := fun b hb => Function.update_of_ne (fun he => hb (by rw [he])) ..
        loose := fun a ha => Option.some.inj ha ▸ hloose
        blank := fun a ha => by
          obtain rfl := Option.some.inj ha
          exact Function.update_self ..
        source := fun a ha => Or.inl (Option.some.inj ha ▸ hjf)
        sub := fun b hb => by rw [hvf]; exact List.mem_cons_of_mem _ hb }
  | none =>
      let th' : SchThr := { th with
        jobadded := th.jobadded + 1, freejobs := none, joballoced := th.joballoced + 1 }
      have hset : Chains (w.setThr t th') (v.setFree t (v.free t)) := by
        rw [SchView.setFree_eq]
        exact h.setThr ht rfl hf.symm
      cases mem with
      | none =>
          refine ⟨none, _, v.free t, th', rfl, ?_⟩
          exact {
            chains := hset
            thrs := rfl
            que := rfl
            run := rfl
            refCnt := rfl
            schs := rfl
            zcrtthr := rfl
            otherJob := fun _ _ => rfl
            loose := fun a ha => (nomatch ha)
            blank := fun a ha => (nomatch ha)
            source := fun a ha => (nomatch ha)
            sub := fun b hb => hb }
      | some job =>
          -- a node from the allocator
          have hfresh := hmem job rfl
          have hloose : (v.setFree t (v.free t)).Loose job := by
            rw [SchView.setFree_eq]
            exact h.loose_of_fresh hfresh
          refine ⟨some job, _, v.free t, th', rfl, ?_⟩
          exact {
            chains := hset.setJob hloose _
            thrs := rfl
            que := rfl
            run := rfl
            refCnt := rfl
            schs := rfl
            zcrtthr := rfl
            otherJob := fun b hb => Function.update_of_ne (fun he => hb (by rw [he])) ..
            loose := fun a ha => Option.some.inj ha ▸ hloose
            blank := fun a ha => by
              obtain rfl := Option.some.inj ha
              exact Function.update_self ..
            source := fun a ha => Or.inr (Option.some.inj ha ▸ hfresh)
            sub := fun b hb => hb }

/-! ## The worker -/

/-- Where a priority stands in the worker's search. -/
def EZCRTPriority.level : EZCRTPriority → Nat
  | priHigh => 0
  | priNormal => 1
  | priLow => 2
  | num => 3

theorem EZCRTPriority.mem_levels (p : EZCRTPriority) (h : p ≠ .num) :
    p ∈ [priHigh, priNormal, priLow] := by
  cases p
  · decide
  · decide
  · decide
  · exact absurd rfl h

/-- The priorities tried before `p` are those above it. -/
theorem EZCRTPriority.split_levels {p : EZCRTPriority} {ps1 ps2 : List EZCRTPriority}
    (h : [priHigh, priNormal, priLow] = ps1 ++ p :: ps2) :
    p ≠ .num ∧ ∀ p', p'.level < p.level → p' ∈ ps1 := by
  rcases ps1 with _ | ⟨a1, _ | ⟨a2, _ | ⟨a3, ps1⟩⟩⟩
  all_goals simp only [List.nil_append, List.cons_append, List.cons.injEq] at h
  · obtain ⟨rfl, -⟩ := h
    exact ⟨by decide, fun p' hlt => absurd hlt (Nat.not_lt_zero _)⟩
  · obtain ⟨rfl, rfl, -⟩ := h
    exact ⟨by decide, fun p' hlt => by cases p' <;> simp_all [level]⟩
  · obtain ⟨rfl, rfl, rfl, -⟩ := h
    exact ⟨by decide, fun p' hlt => by cases p' <;> simp_all [level]⟩
  · exact absurd h.2.2.2.symm (List.append_ne_nil_of_right_ne_nil _ (List.cons_ne_nil _ _))

/-- The last job after the first is gone. -/
theorem getLast?_drop_first {r : List Nat} (h : a ∉ r) :
    (if (a :: r).getLast? = some a then none else (a :: r).getLast?) = r.getLast? := by
  rcases List.eq_nil_or_concat r with rfl | ⟨l, x, rfl⟩
  · exact if_pos rfl
  · rw [List.concat_eq_append] at h ⊢
    have hx : x ≠ a := fun he => h (he ▸ List.mem_append_right _ (List.mem_singleton_self x))
    have h1 : (a :: (l ++ [x])).getLast? = some x := by
      rw [← List.cons_append, List.getLast?_append, List.getLast?_singleton, Option.some_or]
    have h2 : (l ++ [x]).getLast? = some x := by
      rw [List.getLast?_append, List.getLast?_singleton, Option.some_or]
    rw [h1, h2, if_neg fun he => hx (Option.some.inj he)]

/-- The queues are tried in turn: the first that has one gives up its first job. -/
theorem getjobLoop_ok (h : Chains w v) (ht : w.thrs t = some th) (ps : List EZCRTPriority)
    (hps : ∀ p ∈ ps, p ≠ .num) :
    getjobLoop w th.que ps = .ok (none, th.que) ∧ (∀ p ∈ ps, v.que t p = []) ∨
      ∃ ps1 p ps2 a r j, ps = ps1 ++ p :: ps2 ∧ (∀ p' ∈ ps1, v.que t p' = []) ∧
        v.que t p = a :: r ∧ w.jobs a = some j ∧
        getjobLoop w th.que ps = .ok (some a, Function.update th.que p
          { jobs := j.next,
            tail := if (th.que p).tail = some a then none else (th.que p).tail }) := by
  induction ps with
  | nil => exact Or.inl ⟨rfl, fun p hp => absurd hp List.not_mem_nil⟩
  | cons p ps ih =>
      have hp := hps p List.mem_cons_self
      have hseg := h.que t th p ht hp
      rw [getjobLoop]
      unfold zcrtSThrGetjob
      rcases hq : v.que t p with _ | ⟨a, r⟩
      · rw [hq] at hseg
        have hjobs : (th.que p).jobs = none := hseg
        rw [hjobs]
        dsimp only
        rw [except_ok_bind]
        dsimp only
        rw [Function.update_eq_self]
        rcases ih fun p hp => hps p (List.mem_cons_of_mem _ hp) with
          ⟨hrun, hall⟩ | ⟨ps1, p', ps2, a, r, j, rfl, hall, hrest⟩
        · exact Or.inl ⟨hrun, List.forall_mem_cons.mpr ⟨hq, hall⟩⟩
        · exact Or.inr ⟨p :: ps1, p', ps2, a, r, j, rfl, List.forall_mem_cons.mpr ⟨hq, hall⟩, hrest⟩
      · rw [hq] at hseg
        have hjobs : (th.que p).jobs = some a := hseg.1
        obtain ⟨j, hj⟩ := h.live t p a (Or.inl (by rw [hq]; exact List.mem_cons_self))
        rw [hjobs]
        dsimp only
        rw [deref_some hj, except_ok_bind, except_pure, except_ok_bind]
        exact Or.inr ⟨[], p, ps, a, r, j, rfl, fun p' hp' => absurd hp' List.not_mem_nil, hq, hj,
          rfl⟩

/-- The effect of `_zcrt_s_job_delete_has_mutex` on a queued job. -/
theorem zcrtSJobDeleteHasMutex_ok {j : ScheduleJob F P} (hj : w.jobs a = some j)
    (hjs : j.sch = some s) (ht : w.thrs t = some th) (hs : w.schs s = some sc) :
    zcrtSJobDeleteHasMutex w t a =
      .ok (((w.setJob a { j with next := th.freejobs, fn := none, sch := none }).setThr t
        { th with freejobs := some a, jobfreed := th.jobfreed + 1 }).setSch s
        { sc with cursize := sc.cursize - 1 }) := by
  unfold zcrtSJobDeleteHasMutex
  rw [deref_some hj, except_ok_bind]
  dsimp only
  rw [deref_some ht, except_ok_bind]
  dsimp only
  rw [hjs]
  dsimp only
  rw [deref_some (a := s) (n := sc) (by simpa using hs)]
  rfl

/-- Job `a` of schedule `s`, the first of the highest queue that has one, is taken by the worker;
    `r` is the rest of its queue. -/
structure Taken (w w' : SchHeap F P) (v : SchView) (t s a : Nat) (th th' : SchThr)
    (sc : ZSchedule) (j : ScheduleJob F P) (r : List Nat) : Prop where
  unlink : Chains.Unlink w w' t th th' s sc a j []
  schThr : sc.thr = some t
  pri : sc.pri ≠ .num
  first : v.que t sc.pri = a :: r
  higher : ∀ p, p.level < sc.pri.level → v.que t p = []
  same : SameBut th th' sc.pri
  tail : (th'.que sc.pri).tail =
    if (th.que sc.pri).tail = some a then none else (th.que sc.pri).tail
  otherJob : ∀ b, b ≠ a → w'.jobs b = w.jobs b

theorem Taken.chains {w' : SchHeap F P} {th' : SchThr} {j : ScheduleJob F P} {r : List Nat}
    (h : Taken w w' v t s a th th' sc j r) (hv : Chains w v) :
    Chains w' ((v.setQue t sc.pri r).setFree t (a :: v.free t)) :=
  hv.unlink h.unlink h.schThr h.pri h.first

theorem Taken.tails {w' : SchHeap F P} {th' : SchThr} {j : ScheduleJob F P} {r : List Nat}
    {R : Option Nat → List Nat → Prop} (h : Taken w w' v t s a th th' sc j r) (hv : Chains w v)
    (htail : Tails R w v)
    (hR : ∀ tail, a ∉ r → R tail (a :: r) → R (if tail = some a then none else tail) r) :
    Tails R w' ((v.setQue t sc.pri r).setFree t (a :: v.free t)) := by
  have hseg := hv.que t th sc.pri h.unlink.thr h.pri
  rw [h.first] at hseg
  refine htail.edit (l := r) h.unlink.thr h.unlink.thrs h.same.que fun hp => ?_
  rw [h.tail]
  refine hR _ (List.nodup_cons.mp hseg.nodup).1 ?_
  have := htail t th sc.pri h.unlink.thr h.pri
  rwa [h.first] at this

/-- The worker's turn: nothing when all queues are empty, else the job that is due. -/
theorem zcrtScheduleThreadProc_ok (h : Chains w v) (ht : w.thrs t = some th) :
    zcrtScheduleThreadProc w t = .ok (none, w) ∧ (∀ p, p ≠ .num → v.que t p = []) ∨
      ∃ a s sc j r w' th', zcrtScheduleThreadProc w t = .ok (some (a, j), w') ∧
        Taken w w' v t s a th th' sc j r := by
  unfold zcrtScheduleThreadProc
  rw [deref_some ht, except_ok_bind]
  dsimp only
  rcases getjobLoop_ok h ht [.priHigh, .priNormal, .priLow] (by decide) with
    ⟨hnone, hempty⟩ | ⟨ps1, p, ps2, a, r, j, hps, hempty, hq, hj, hsome⟩
  · rw [hnone, except_ok_bind]
    have hsame : w.setThr t th = w := by
      unfold SchHeap.setThr
      rw [← ht, Function.update_eq_self]
    refine Or.inl ⟨?_, fun p hp => hempty p (p.mem_levels hp)⟩
    dsimp only
    rw [hsame]
    rfl
  · rw [hsome, except_ok_bind]
    dsimp only
    obtain ⟨s, sc, ho, hs, hst, rfl⟩ := h.place t p a (by rw [hq]; exact List.mem_cons_self)
    have hjs : j.sch = some s := (SchHeap.owner_of_jobs hj).symm.trans ho
    obtain ⟨hp, hhigher⟩ := EZCRTPriority.split_levels hps
    let que : SchPriList :=
      { jobs := j.next,
        tail := if (th.que sc.pri).tail = some a then none else (th.que sc.pri).tail }
    let th1 : SchThr := { th with que := Function.update th.que sc.pri que }
    let th2 : SchThr := { th1 with freejobs := some a, jobfreed := th1.jobfreed + 1 }
    have hself : th2.que sc.pri = que := Function.update_self ..
    have hother : ∀ p, p ≠ sc.pri → th2.que p = th.que p := fun p hp => Function.update_of_ne hp ..
    have hthrs : Function.update (Function.update w.thrs t (some th1)) t (some th2) =
        Function.update w.thrs t (some th2) := Function.update_idem ..
    have ht1 : (w.setThr t th1).thrs t = some th1 := Function.update_self ..
    rw [deref_some (a := a) (n := j) (by simpa using hj), except_ok_bind,
      zcrtSJobDeleteHasMutex_ok (w := w.setThr t th1) hj hjs ht1 hs, except_ok_bind]
    refine Or.inr ⟨a, s, sc, j, r, _, th2, rfl, ?_⟩
    exact {
      unlink := by
        refine
          { thr := ht, sch := hs, job := hj, jobSch := hjs, thrs := hthrs, schs := rfl,
            freejobs := rfl, otherQue := hother, link := ?_, links := fun b hb _ => ?_,
            first := fun _ => by rw [hself], before := fun x hx => (nomatch hx), owner := ?_,
            zcrtthr := rfl, live := fun b hb => SchHeap.live_setJob hb }
        · rw [SchHeap.setSch_links, SchHeap.setThr_links, SchHeap.setJob_links,
            Function.update_self]
        · rw [SchHeap.setSch_links, SchHeap.setThr_links, SchHeap.setJob_links,
            Function.update_of_ne hb, SchHeap.setThr_links]
        · rw [SchHeap.setSch_owner, SchHeap.setThr_owner, SchHeap.setJob_owner,
            SchHeap.setThr_owner]
      schThr := hst
      pri := hp
      first := hq
      higher := fun p hlt => hempty p (hhigher p hlt)
      same := ⟨hother, rfl, rfl, rfl, rfl⟩
      tail := by rw [hself]
      otherJob := fun b hb => Function.update_of_ne hb .. }

/-! ## Sending -/

/-- A job of schedule `s` with this callback and these arguments can be reached from `jobs`. -/
def Queued (w : SchHeap F P) (s : Nat) (fn : F) (argn : UInt32) (args : List P) : Prop :=
  ∃ sc t th a j, w.schs s = some sc ∧ sc.thr = some t ∧ w.thrs t = some th ∧
    Reaches w.links (th.que sc.pri).jobs a ∧ w.jobs a = some j ∧ j.fn = some fn ∧ j.argn = argn ∧
    j.args = args ∧ j.sch = some s

/-- What stopping threads and attaching schedules to them depends on. -/
structure SameLife (w w' : SchHeap F P) : Prop where
  thr : ∀ t, (w'.thrs t).map (fun th => (th.run, th.refCnt)) =
    (w.thrs t).map fun th => (th.run, th.refCnt)
  sch : ∀ s, (w'.schs s).map (fun sc => (sc.thr, sc.type)) =
    (w.schs s).map fun sc => (sc.thr, sc.type)
  zcrtthr : w'.zcrtthr = w.zcrtthr

theorem SameLife.refl (w : SchHeap F P) : SameLife w w := ⟨fun _ => rfl, fun _ => rfl, rfl⟩

theorem SameLife.trans {w1 w' : SchHeap F P} (h1 : SameLife w w1) (h2 : SameLife w1 w') :
    SameLife w w' :=
  ⟨fun t => (h2.thr t).trans (h1.thr t), fun s => (h2.sch s).trans (h1.sch s),
    h2.zcrtthr.trans h1.zcrtthr⟩

/-- A field of a node kept by the one write. -/
theorem map_update_eq {α β : Type} {heap : Nat → Option α} {a : Nat} {x y : α} (f : α → β)
    (h : heap a = some x) (hf : f y = f x) (b : Nat) :
    (Function.update heap a (some y) b).map f = (heap b).map f := by
  by_cases hb : b = a
  · subst hb
    rw [Function.update_self, h, Option.map_some, Option.map_some, hf]
  · rw [Function.update_of_ne hb]

theorem NewJob.sameLife {w' : SchHeap F P} {th' : SchThr} {cb : F} {job : Option Nat}
    {f : List Nat} (h : NewJob w w' v t th th' cb job f) (ht : w.thrs t = some th) :
    SameLife w w' where
  thr := by
    rw [h.thrs]
    exact map_update_eq _ ht (by rw [h.run, h.refCnt])
  sch := fun _ => by rw [h.schs]
  zcrtthr := h.zcrtthr

theorem Inserted.sameLife {w' : SchHeap F P} {th' : SchThr} {sc' : ZSchedule}
    (h : Inserted w w' v t s a th th' sc sc') (ht : w.thrs t = some th) (hs : w.schs s = some sc) :
    SameLife w w' where
  thr := by
    rw [h.thrs]
    exact map_update_eq _ ht (by rw [h.same.run, h.same.refCnt])
  sch := by
    rw [h.schs]
    exact map_update_eq _ hs (by rw [h.schThr, h.schType])
  zcrtthr := h.zcrtthr

theorem Taken.sameLife {w' : SchHeap F P} {th' : SchThr} {j : ScheduleJob F P} {r : List Nat}
    (h : Taken w w' v t s a th th' sc j r) : SameLife w w' where
  thr := by
    rw [h.unlink.thrs]
    exact map_update_eq _ h.unlink.thr (by rw [h.same.run, h.same.refCnt])
  sch := by
    rw [h.unlink.schs]
    exact map_update_eq _ h.unlink.sch rfl
  zcrtthr := h.unlink.zcrtthr

/-- The job as the senders fill it. -/
def filledJob (s : Nat) (cb : F) (argn : UInt32) (args : List P) : ScheduleJob F P :=
  { fn := some cb, argn := argn, args := args, sch := some s, next := none }

/-- Both senders: a node is asked for, and if there is one it is filled and inserted. -/
theorem sendNewJob_eq (hv : Chains w v) (hst : sc.thr = some t)
    (ht : w.thrs t = some th) (cb : F) (argn : UInt32) (args : List P) (mem : Option Nat)
    (hmem : ∀ a, mem = some a → w.jobs a = none) :
    ∃ job w1 f th1, NewJob w w1 v t th th1 cb job f ∧
      sendNewJob w s sc cb argn args mem = match job with
        | none => .ok (.noMem, w1)
        | some a => (zcrtSInsertJob (w1.setJob a (filledJob s cb argn args)) s a).bind
            fun w' => .ok (.success, w') := by
  obtain ⟨job, w1, f, th1, hnew, hn⟩ := zcrtSJobNew_ok hv ht cb mem hmem
  refine ⟨job, w1, f, th1, hn, ?_⟩
  unfold sendNewJob
  rw [hst, hnew, except_ok_bind]
  cases job with
  | none => rfl
  | some a =>
      dsimp only
      rw [deref_some (hn.blank a rfl), except_ok_bind]
      rfl

/-- With the node filled, the heap is ready for its insertion. -/
theorem NewJob.filled {w1 : SchHeap F P} {th1 : SchThr} {cb : F} {f : List Nat}
    (hn : NewJob w w1 v t th th1 cb (some a) f) (hs : w.schs s = some sc) (argn : UInt32)
    (args : List P) :
    Chains (w1.setJob a (filledJob s cb argn args)) (v.setFree t f) ∧
      (w1.setJob a (filledJob s cb argn args)).thrs t = some th1 ∧
      (w1.setJob a (filledJob s cb argn args)).schs s = some sc := by
  refine ⟨hn.chains.setJob (hn.loose a rfl) _, ?_, ?_⟩
  · rw [SchHeap.setJob_thrs, hn.thrs, Function.update_self]
  · rw [SchHeap.setJob_schs, hn.schs, hs]

/-- Sending returns when `tail` is right, and with success the job is in its queue. -/
theorem sendNewJob_ok (hv : Chains w v) (htail : TailOk w v) (hs : w.schs s = some sc)
    (hp : sc.pri ≠ .num) (cb : F) (argn : UInt32) (args : List P) (mem : Option Nat)
    (hmem : ∀ a, mem = some a → w.jobs a = none) :
    ∃ r w', sendNewJob w s sc cb argn args mem = .ok (r, w') ∧
      (r = .success → Queued w' s cb argn args) := by
  obtain ⟨t, th, hst, ht⟩ := hv.thr s sc hs
  obtain ⟨job, w1, f, th1, hn, hrun⟩ := sendNewJob_eq hv hst ht cb argn args mem hmem
  cases job with
  | none => exact ⟨.noMem, w1, hrun, fun he => nomatch he⟩
  | some a =>
      obtain ⟨hv2, ht2, hs2⟩ := hn.filled hs argn args
      obtain ⟨w', th', sc', hins, hi⟩ := zcrtSInsertJob_ok hv2 ht2 hs2 hst hp
        (hn.tails ht htail t th1 sc.pri ht2 hp) (a := a) (Function.update_self ..) rfl rfl
        (hn.loose a rfl)
      refine ⟨.success, w', ?_, fun _ => ?_⟩
      · rw [hrun]
        dsimp only
        rw [hins]
        rfl
      · have ht' : w'.thrs t = some th' := by
          rw [hi.thrs, Function.update_self]
        have hs' : w'.schs s = some sc' := by
          rw [hi.schs, Function.update_self]
        have hseg := hi.chains.que t th' sc.pri ht' hp
        refine ⟨sc', t, th', a, _, hs', hi.schThr.trans hst, ht', ?_,
          hi.job.trans (Function.update_self ..), rfl, rfl, rfl, rfl⟩
        rw [hi.schPri]
        refine hseg.reaches ?_
        rw [SchView.setQue_self]
        exact List.mem_append_right _ (List.mem_singleton_self a)

/-- What holds of a `tail` and its queue and is kept by the edits of both. -/
structure TailRule (R : Option Nat → List Nat → Prop) : Prop where
  weak : ∀ tail l, R tail l → tail = none ∨ tail = l.getLast?
  empty : R none []
  snoc : ∀ (l : List Nat) (a : Nat), R (l ++ [a]).getLast? (l ++ [a])
  pop : ∀ tail a r, a ∉ r → R tail (a :: r) → R (if tail = some a then none else tail) r

theorem tailRule_ok : TailRule LastTail where
  weak := fun _ _ h => Or.inr h
  empty := rfl
  snoc := fun _ _ => rfl
  pop := fun tail a r ha h => by
    subst h
    exact getLast?_drop_first ha

theorem tailRule_weak : TailRule WeakTail where
  weak := fun _ _ h => h
  empty := Or.inl rfl
  snoc := fun _ _ => Or.inr rfl
  pop := fun tail a r ha h => by
    rcases h with rfl | rfl
    · exact Or.inl rfl
    · exact Or.inr (getLast?_drop_first ha)

/-- The queues are as they should be, each `tail` as `R` says. -/
def QueBy (R : Option Nat → List Nat → Prop) (w : SchHeap F P) : Prop :=
  ∃ v, Chains w v ∧ Tails R w v

/-- The queues are as they should be. -/
abbrev QueInv (w : SchHeap F P) : Prop := QueBy LastTail w

/-- The queues are as they should be, but for tails that are `NULL`. -/
abbrev QueWeak (w : SchHeap F P) : Prop := QueBy WeakTail w

/-- A call that sends keeps the queues. -/
theorem sendNewJob_inv {R : Option Nat → List Nat → Prop} (hR : TailRule R) (h : QueBy R w)
    (hs : w.schs s = some sc) (hp : sc.pri ≠ .num) {cb : F} {argn : UInt32} {args : List P}
    {mem : Option Nat} (hmem : ∀ a, mem = some a → w.jobs a = none) {r : EZCRTErr}
    {w' : SchHeap F P} (hrun : sendNewJob w s sc cb argn args mem = .ok (r, w')) :
    QueBy R w' ∧ SameLife w w' := by
  obtain ⟨v, hv, htail⟩ := h
  obtain ⟨t, th, hst, ht⟩ := hv.thr s sc hs
  obtain ⟨job, w1, f, th1, hn, heq⟩ := sendNewJob_eq hv hst ht cb argn args mem hmem
  have htail1 := hn.tails ht htail
  rw [heq] at hrun
  cases job with
  | none =>
      obtain ⟨-, rfl⟩ := Prod.mk.inj (Except.ok.inj hrun)
      exact ⟨⟨_, hn.chains, htail1⟩, hn.sameLife ht⟩
  | some a =>
      obtain ⟨w2, hins, hrun⟩ := except_bind_eq_ok hrun
      obtain ⟨-, rfl⟩ := Prod.mk.inj (Except.ok.inj hrun)
      obtain ⟨hv2, ht2, hs2⟩ := hn.filled hs argn args
      have htl := tail_of_insert hv2 ht2 hs2 hst hp
        (hR.weak _ _ (htail1 t th1 sc.pri ht2 hp)) hins
      obtain ⟨w3, th', sc', hins', hi⟩ := zcrtSInsertJob_ok hv2 ht2 hs2 hst hp htl (a := a)
        (Function.update_self ..) rfl rfl (hn.loose a rfl)
      obtain rfl := Except.ok.inj (hins.symm.trans hins')
      refine ⟨⟨_, hi.chains, hi.tails ht2 htail1 fun l => hR.snoc l a⟩, ?_⟩
      have hset : SameLife w1 (w1.setJob a (filledJob s cb argn args)) :=
        ⟨fun _ => rfl, fun _ => rfl, rfl⟩
      exact (hn.sameLife ht).trans (hset.trans (hi.sameLife ht2 hs2))

end Zcrt
