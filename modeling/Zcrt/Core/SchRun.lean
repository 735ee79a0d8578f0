/-
  Runs of the scheduler: creations, deletions, jobs sent and jobs taken, in any order.

  * `schSys`: the calls and the turns of the workers as a transition system.
  * `queues_ok_of_kept`: the queues of every thread are well formed as long as no deletion takes the
    last job of a queue away from others.
  * `deleteSecond_tailNull`: one that does leaves a queue without `tail`.
-/
import Zcrt.Core.SchCreate
import Zcrt.Core.SchDelete
import Zcrt.Lib.Steps

namespace Zcrt

open Lib

variable {F P : Type}

/-- A call of the interface with what `zcrt_malloc` returned to it, or the turn of a worker. -/
inductive SchOp (F P : Type)
  | create (type : EZCRTSchType) (pri : EZCRTPriority) (maxsize : UInt16) (mem memThr : Option Nat)
  | createShare (sch1 : Option Nat) (pri : EZCRTPriority) (maxsize : UInt16) (mem : Option Nat)
  | sendjob (h : Option Nat) (cb : Option F) (p1 p2 : P) (mem : Option Nat)
  | sendjobArgn (h : Option Nat) (cb : Option F) (args : List P) (mem : Option Nat)
  | work (thr : Nat)
  | delete (h : Option Nat) (fuel : Nat)

namespace SchOp

def exec (w : SchHeap F P) : SchOp F P → Except SchFault (SchHeap F P)
  | create type pri maxsize mem memThr =>
      (zcrtScheduleCreate w type pri maxsize mem memThr).map Prod.snd
  | createShare sch1 pri maxsize mem =>
      (zcrtScheduleCreateShare w sch1 pri maxsize mem).map Prod.snd
  | sendjob h cb p1 p2 mem => (zcrtScheduleSendjob w h cb p1 p2 mem).map Prod.snd
  | sendjobArgn h cb args mem => (zcrtScheduleSendjobArgn w h cb args mem).map Prod.snd
  | work thr => (zcrtScheduleThreadProc w thr).map Prod.snd
  | delete h fuel => zcrtScheduleDelete w h fuel

/-- The handle is `NULL` or one of a schedule not deleted. -/
def live {α : Type} (heap : Nat → Option α) (h : Option Nat) : Bool :=
  h.all fun a => (heap a).isSome

/-- The memory is none or was not in use. -/
def fresh {α : Type} (heap : Nat → Option α) (mem : Option Nat) : Bool :=
  mem.all fun a => (heap a).isNone

def allowed (w : SchHeap F P) : SchOp F P → Bool
  | create _ _ _ mem memThr => fresh w.schs mem && fresh w.thrs memThr
  | createShare sch1 _ _ mem => live w.schs sch1 && fresh w.schs mem
  | sendjob h _ _ _ mem => live w.schs h && fresh w.jobs mem
  | sendjobArgn h _ _ mem => live w.schs h && fresh w.jobs mem
  | work thr => (w.thrs thr).isSome
  | delete h _ => live w.schs h

theorem eq_none_of_fresh {α : Type} {heap : Nat → Option α} {mem : Option Nat}
    (h : fresh heap mem = true) (a : Nat) (ha : mem = some a) : heap a = none := by
  subst ha
  exact Option.isNone_iff_eq_none.mp h

theorem exists_of_live {α : Type} {heap : Nat → Option α} {h : Option Nat}
    (hl : live heap h = true) (a : Nat) (ha : h = some a) : ∃ n, heap a = some n := by
  subst ha
  exact Option.isSome_iff_exists.mp hl

end SchOp

/-- The heap of a module without threads. -/
def SchHeap.empty : SchHeap F P :=
  { jobs := fun _ => none, schs := fun _ => none, thrs := fun _ => none, zcrtthr := none,
    schthrList := none }

/-- `zcrt_schedule_module_init`, its result put where the module keeps it. -/
def zcrtScheduleModuleInit (mem : Option Nat) : Except SchFault (SchHeap F P) := do
  let (thr, w) ← zcrtSThrNew SchHeap.empty false mem
  pure { w with zcrtthr := some thr }

/-- The scheduler: first a module's thread alone, then any calls with handles that are valid, each
    of which returns. -/
def schSys : Sys (SchHeap F P) (SchOp F P) where
  init w := ∃ mem, zcrtScheduleModuleInit mem = .ok w
  next w op := if op.allowed w then (op.exec w).toOption else none

theorem exec_of_next {w w' : SchHeap F P} {op : SchOp F P} (h : schSys.next w op = some w') :
    op.allowed w = true ∧ op.exec w = .ok w' := by
  unfold schSys at h
  dsimp only at h
  split at h
  · rename_i ha
    refine ⟨ha, ?_⟩
    cases he : op.exec w with
    | error e =>
        rw [he] at h
        exact nomatch h
    | ok w1 =>
        rw [he] at h
        rw [Option.some.inj h]
  · exact nomatch h

/-! ## The queues along a run -/

section Queues

variable {w w' : SchHeap F P} {R : Option Nat → List Nat → Prop}

theorem queBy_init (hR : TailRule R) (h : schSys.init w) : QueBy R w := by
  obtain ⟨mem, hinit⟩ := h
  have hv : Chains (SchHeap.empty : SchHeap F P) ⟨fun _ _ => [], fun _ => []⟩ :=
    { que := fun _ _ _ ht => (nomatch ht), free := fun _ _ ht => (nomatch ht),
      place := fun _ _ _ ha => (nomatch ha), freeOwner := fun _ _ ha => (nomatch ha),
      freeDisj := fun _ _ _ ha => (nomatch ha), count := fun _ _ _ hs => (nomatch hs),
      thr := fun _ _ hs => (nomatch hs), live := fun _ _ _ ha => by simp at ha }
  obtain ⟨⟨t, w1⟩, hnew, hrest⟩ := except_bind_eq_ok hinit
  obtain rfl := Except.ok.inj hrest
  obtain ⟨th', hn⟩ := zcrtSThrNew_ok hnew hv fun _ _ => rfl
  have h1 := hn.chains
  refine ⟨_, ⟨h1.que, h1.free, h1.place, h1.freeOwner, h1.freeDisj, h1.count, h1.thr, h1.live⟩, ?_⟩
  exact hn.tails (R := R) (fun _ _ _ ht => nomatch ht) hR.empty

/-- A send comes to nothing, or to a job for a schedule with a queue. -/
inductive Sends (w w' : SchHeap F P) (hd mem : Option Nat) (r : EZCRTErr) : Prop
  | nothing (h : w' = w)
  | job {s : Nat} {sc : ZSchedule} {fn : F} {argn : UInt32} {args : List P} (hhd : hd = some s)
      (hs : w.schs s = some sc) (hp : sc.pri ≠ .num)
      (h : sendNewJob w s sc fn argn args mem = .ok (r, w'))

theorem sendjob_sends {hd : Option Nat} {cb : Option F} {p1 p2 : P} {mem : Option Nat}
    {r : EZCRTErr} (hrun : zcrtScheduleSendjob w hd cb p1 p2 mem = .ok (r, w')) :
    Sends w w' hd mem r := by
  unfold zcrtScheduleSendjob at hrun
  have hsame : ∀ {r' : EZCRTErr}, (Except.ok (r', w) : Except SchFault _) = .ok (r, w') →
      Sends w w' hd mem r := fun he => Sends.nothing (Prod.mk.inj (Except.ok.inj he)).2.symm
  split at hrun
  · obtain ⟨⟨s, sc⟩, hs, hrun⟩ := except_bind_eq_ok hrun
    obtain ⟨hs0, hs⟩ := deref_eq_ok hs
    obtain rfl := Option.some.inj hs0
    dsimp only at hrun hs
    split at hrun
    · exact hsame hrun
    · rename_i hp
      split at hrun
      · exact hsame hrun
      · split at hrun
        · exact nomatch hrun
        · exact Sends.job rfl hs hp hrun
  · exact hsame hrun

theorem sendjobArgn_sends {hd : Option Nat} {cb : Option F} {args : List P} {mem : Option Nat}
    {r : EZCRTErr} (hrun : zcrtScheduleSendjobArgn w hd cb args mem = .ok (r, w')) :
    Sends w w' hd mem r := by
  unfold zcrtScheduleSendjobArgn at hrun
  have hsame : ∀ {r' : EZCRTErr}, (Except.ok (r', w) : Except SchFault _) = .ok (r, w') →
      Sends w w' hd mem r := fun he => Sends.nothing (Prod.mk.inj (Except.ok.inj he)).2.symm
  split at hrun
  · obtain ⟨⟨s, sc⟩, hs, hrun⟩ := except_bind_eq_ok hrun
    obtain ⟨hs0, hs⟩ := deref_eq_ok hs
    obtain rfl := Option.some.inj hs0
    dsimp only at hrun hs
    split at hrun
    · exact hsame hrun
    · rename_i hp
      split at hrun
      · exact hsame hrun
      · exact Sends.job rfl hs (fun he => hp (Or.inl he)) hrun
  · exact hsame hrun

theorem Sends.inv {hd mem : Option Nat} {r : EZCRTErr} (h : Sends w w' hd mem r) (hR : TailRule R)
    (hq : QueBy R w) (hmem : ∀ a, mem = some a → w.jobs a = none) :
    QueBy R w' ∧ SameLife w w' := by
  cases h with
  | nothing h =>
      subst h
      exact ⟨hq, SameLife.refl _⟩
  | job hhd hs hp h => exact sendNewJob_inv hR hq hs hp hmem h

theorem work_inv (hR : TailRule R) (h : QueBy R w) {t : Nat} {x : Option (Nat × ScheduleJob F P)}
    (hrun : zcrtScheduleThreadProc w t = .ok (x, w')) : QueBy R w' ∧ SameLife w w' := by
  obtain ⟨v, hv, htail⟩ := h
  obtain ⟨⟨t0, th⟩, ht, -⟩ := except_bind_eq_ok hrun
  obtain ⟨ht0, ht⟩ := deref_eq_ok ht
  obtain rfl := Option.some.inj ht0
  rcases zcrtScheduleThreadProc_ok hv ht with ⟨hnone, -⟩ | ⟨a, s, sc, j, r, w1, th', hsome, htaken⟩
  · obtain ⟨-, rfl⟩ := Prod.mk.inj (Except.ok.inj (hnone.symm.trans hrun))
    exact ⟨⟨v, hv, htail⟩, SameLife.refl _⟩
  · obtain ⟨-, rfl⟩ := Prod.mk.inj (Except.ok.inj (hsome.symm.trans hrun))
    exact ⟨⟨_, htaken.chains hv, htaken.tails hv htail fun tail hr => hR.pop tail a r hr⟩,
      htaken.sameLife⟩

/-- A step keeps the queues if it does as a deletion. -/
theorem queBy_next (hR : TailRule R) (h : QueBy R w) {op : SchOp F P}
    (hdel : ∀ s fuel, op = .delete (some s) fuel → zcrtScheduleDelete w (some s) fuel = .ok w' →
      QueBy R w') (hn : schSys.next w op = some w') : QueBy R w' := by
  obtain ⟨ha, hr⟩ := exec_of_next hn
  cases op with
  | create type pri maxsize mem memThr =>
      obtain ⟨⟨r, w1⟩, hrun, rfl⟩ := except_map_eq_ok hr
      obtain ⟨ha1, ha2⟩ := Bool.and_eq_true_iff.mp ha
      obtain ⟨v, hv, htail⟩ := h
      obtain ⟨v', hc⟩ := create_created hR hv htail (SchOp.eq_none_of_fresh ha1)
        (SchOp.eq_none_of_fresh ha2) hrun
      exact ⟨v', hc.chains, hc.tails⟩
  | createShare sch1 pri maxsize mem =>
      obtain ⟨⟨r, w1⟩, hrun, rfl⟩ := except_map_eq_ok hr
      obtain ⟨-, ha2⟩ := Bool.and_eq_true_iff.mp ha
      obtain ⟨v, hv, htail⟩ := h
      obtain ⟨v', hc⟩ := createShare_created hv htail (SchOp.eq_none_of_fresh ha2) hrun
      exact ⟨v', hc.chains, hc.tails⟩
  | sendjob hd cb p1 p2 mem =>
      obtain ⟨⟨r, w1⟩, hrun, rfl⟩ := except_map_eq_ok hr
      obtain ⟨-, ha2⟩ := Bool.and_eq_true_iff.mp ha
      exact ((sendjob_sends hrun).inv hR h (SchOp.eq_none_of_fresh ha2)).1
  | sendjobArgn hd cb args mem =>
      obtain ⟨⟨r, w1⟩, hrun, rfl⟩ := except_map_eq_ok hr
      obtain ⟨-, ha2⟩ := Bool.and_eq_true_iff.mp ha
      exact ((sendjobArgn_sends hrun).inv hR h (SchOp.eq_none_of_fresh ha2)).1
  | work t =>
      obtain ⟨⟨r, w1⟩, hrun, rfl⟩ := except_map_eq_ok hr
      exact (work_inv hR h hrun).1
  | delete hd fuel =>
      cases hd with
      | none =>
          obtain rfl := Except.ok.inj hr
          exact h
      | some s => exact hdel s fuel rfl hr

end Queues

/-- A deletion leaves the queue of its schedule with its last job, or empty. -/
def KeepsTail (w : SchHeap F P) (op : SchOp F P) : Prop :=
  ∀ s fuel, op = .delete (some s) fuel → TailKept w s

/-- A call that deletes, if anything, a schedule whose job is not the last of its queue. -/
def SchOp.tailOther (w : SchHeap F P) : SchOp F P → Bool
  | delete (some s) _ => ((w.schs s).bind fun sc => sc.thr.bind fun t => (w.thrs t).bind fun th =>
      (th.que sc.pri).tail.bind w.owner) != some s
  | _ => true

theorem keepsTail_of_tailOther {w : SchHeap F P} {op : SchOp F P} (h : op.tailOther w = true) :
    KeepsTail w op := by
  rintro s fuel rfl sc t th hs hst ht z hz ho
  simp [SchOp.tailOther, hs, hst, ht, hz, ho] at h

/-- A queue that is well formed: a chain that ends, in `tail`. -/
structure QueueOk (w : SchHeap F P) (que : SchPriList) : Prop where
  null : que.jobs = none ↔ que.tail = none
  chain : ∃ l, Seg w.links que.jobs l none ∧ que.tail = l.getLast?

theorem queInv_of_reach {w : SchHeap F P} (h : schSys.Reach KeepsTail w) : QueInv w := by
  refine h.invariant (fun w => queBy_init tailRule_ok) fun w op w' hw hc hn => ?_
  exact queBy_next tailRule_ok hw (fun s fuel hop hrun =>
    zcrtScheduleDelete_inv hw hrun (hc s fuel hop)) hn

theorem queWeak_of_reachable {w : SchHeap F P} {C : SchHeap F P → SchOp F P → Prop}
    (h : schSys.Reach C w) : QueWeak w := by
  refine h.invariant (fun w => queBy_init tailRule_weak) fun w op w' hw _ hn => ?_
  exact queBy_next tailRule_weak hw (fun s fuel _ hrun => zcrtScheduleDelete_weak hw hrun) hn

theorem QueInv.queueOk {w : SchHeap F P} (h : QueInv w) {t : Nat} {th : SchThr} {p : EZCRTPriority}
    (ht : w.thrs t = some th) (hp : p ≠ .num) : QueueOk w (th.que p) := by
  obtain ⟨v, hv, htail⟩ := h
  have hseg := hv.que t th p ht hp
  have htl : (th.que p).tail = (v.que t p).getLast? := htail t th p ht hp
  refine ⟨?_, v.que t p, hseg, htl⟩
  rw [hseg.head, htl, List.head?_eq_none_iff, List.getLast?_eq_none_iff]

/-- Sending a job meets no failed assertion, and with success the job can be reached. -/
theorem QueInv.sendjob {w : SchHeap F P} (h : QueInv w) {hd mem : Option Nat}
    (hlive : SchOp.live w.schs hd = true) (hfresh : SchOp.fresh w.jobs mem = true) (cb : Option F)
    (p1 p2 : P) : ∃ r w', zcrtScheduleSendjob w hd cb p1 p2 mem = .ok (r, w') ∧
      (r = .success → ∃ s fn, hd = some s ∧ cb = some fn ∧ Queued w' s fn 2 [p1, p2]) := by
  obtain ⟨v, hv, htail⟩ := h
  unfold zcrtScheduleSendjob
  split
  · rename_i s fn
    obtain ⟨sc, hs⟩ := SchOp.exists_of_live hlive s rfl
    rw [deref_some hs, except_ok_bind]
    dsimp only
    split
    · exact ⟨.paramErr, w, rfl, fun he => nomatch he⟩
    · rename_i hp
      split
      · exact ⟨.full, w, rfl, fun he => nomatch he⟩
      · obtain ⟨t, th, hst, -⟩ := hv.thr s sc hs
        rw [if_neg (by rw [hst]; exact Option.some_ne_none t)]
        obtain ⟨r, w', hrun, hq⟩ := sendNewJob_ok hv htail hs hp fn 2 [p1, p2] mem
          (SchOp.eq_none_of_fresh hfresh)
        exact ⟨r, w', hrun, fun he => ⟨s, fn, rfl, rfl, hq he⟩⟩
  · exact ⟨.paramErr, w, rfl, fun he => nomatch he⟩

theorem QueInv.sendjobArgn {w : SchHeap F P} (h : QueInv w) {hd mem : Option Nat}
    (hlive : SchOp.live w.schs hd = true) (hfresh : SchOp.fresh w.jobs mem = true) (cb : Option F)
    (args : List P) : ∃ r w', zcrtScheduleSendjobArgn w hd cb args mem = .ok (r, w') ∧
      (r = .success → ∃ s fn, hd = some s ∧ cb = some fn ∧
        Queued w' s fn (UInt32.ofNat args.length) args) := by
  obtain ⟨v, hv, htail⟩ := h
  unfold zcrtScheduleSendjobArgn
  split
  · rename_i s fn
    obtain ⟨sc, hs⟩ := SchOp.exists_of_live hlive s rfl
    rw [deref_some hs, except_ok_bind]
    dsimp only
    split
    · exact ⟨.paramErr, w, rfl, fun he => nomatch he⟩
    · rename_i hp
      split
      · exact ⟨.full, w, rfl, fun he => nomatch he⟩
      · obtain ⟨r, w', hrun, hq⟩ := sendNewJob_ok hv htail hs (fun he => hp (Or.inl he)) fn
          (UInt32.ofNat args.length) args mem (SchOp.eq_none_of_fresh hfresh)
        exact ⟨r, w', hrun, fun he => ⟨s, fn, rfl, rfl, hq he⟩⟩
  · exact ⟨.paramErr, w, rfl, fun he => nomatch he⟩

/-- In a run whose deletions keep the tails every queue is well formed and every job sent without
    error can be reached from its queue. -/
theorem queues_ok_of_kept {w : SchHeap F P} (h : schSys.Reach KeepsTail w) :
    (∀ t th p, w.thrs t = some th → p ≠ .num → QueueOk w (th.que p)) ∧
      ∀ hd mem, SchOp.live w.schs hd = true → SchOp.fresh w.jobs mem = true →
        (∀ cb p1 p2, ∃ r w', zcrtScheduleSendjob w hd cb p1 p2 mem = .ok (r, w') ∧
          (r = .success → ∃ s fn, hd = some s ∧ cb = some fn ∧ Queued w' s fn 2 [p1, p2])) ∧
        ∀ cb args, ∃ r w', zcrtScheduleSendjobArgn w hd cb args mem = .ok (r, w') ∧
          (r = .success → ∃ s fn, hd = some s ∧ cb = some fn ∧
            Queued w' s fn (UInt32.ofNat args.length) args) := by
  have hinv := queInv_of_reach h
  refine ⟨fun t th p ht hp => hinv.queueOk ht hp, fun hd mem hlive hfresh => ⟨?_, ?_⟩⟩
  · exact fun cb p1 p2 => hinv.sendjob hlive hfresh cb p1 p2
  · exact fun cb args => hinv.sendjobArgn hlive hfresh cb args

/-- The heap the module's thread, at address 0, is in alone. -/
def moduleHeap : SchHeap F P :=
  { jobs := fun _ => none, schs := fun _ => none,
    thrs := Function.update (fun _ => none) 0 (some
      { que := fun _ => { jobs := none, tail := none }, freejobs := none, run := true, refCnt := 0,
        schList := none, next := none, joballoced := 0, jobfreed := 0, jobadded := 0 }),
    zcrtthr := some 0, schthrList := none }

theorem moduleHeap_init : schSys.init (moduleHeap : SchHeap F P) := ⟨some 0, rfl⟩

/-- Two schedules of one queue, two jobs of each in turn, and the first schedule deleted: the queue
    has the jobs of the second. -/
theorem queues_ok_of_kept_shared : ∃ w : SchHeap Unit Unit, schSys.Reach KeepsTail w ∧
    (w.schs 1).isNone = true ∧
    (w.thrs 0).map (fun th => th.que .priLow) = some ⟨some 2, some 4⟩ ∧
    (∀ t th p, w.thrs t = some th → p ≠ .num → QueueOk w (th.que p)) ∧
    ∃ r w', zcrtScheduleSendjob w (some 2) (some ()) () () (some 5) = .ok (r, w') ∧
      (r = .success → ∃ s fn, some 2 = some s ∧ some () = some fn ∧ Queued w' s fn 2 [(), ()]) := by
  obtain ⟨w, h, hp⟩ := Sys.reach_of_run (C := KeepsTail) (c := fun w op => op.tailOther w)
    (p := fun w => (w.schs 1).isNone &&
      ((w.thrs 0).map (fun th => th.que .priLow) == some ⟨some 2, some 4⟩ &&
        (SchOp.live w.schs (some 2) && SchOp.fresh w.jobs (some 5))))
    (fun _ _ => keepsTail_of_tailOther)
    (Sys.Reach.init (moduleHeap_init (F := Unit) (P := Unit)))
    [.create .zcrtThread .priLow 8 (some 1) none,
      .createShare (some 1) .priLow 8 (some 2), .sendjob (some 1) (some ()) () () (some 1),
      .sendjob (some 2) (some ()) () () (some 2), .sendjobArgn (some 1) (some ()) [()] (some 3),
      .sendjobArgn (some 2) (some ()) [()] (some 4), .delete (some 1) 5]
    (by decide)
  simp only [Bool.and_eq_true, beq_iff_eq] at hp
  obtain ⟨hgone, hque, hlive, hfresh⟩ := hp
  obtain ⟨hok, hsend⟩ := queues_ok_of_kept h
  exact ⟨w, h, hgone, hque, hok, (hsend (some 2) (some 5) hlive hfresh).1 (some ()) () ()⟩

/-- The call ends in a failed assertion. -/
def asserts {α : Type} : Except SchFault α → Bool
  | .error .assert => true
  | _ => false

theorem eq_of_asserts {α : Type} {x : Except SchFault α} (h : asserts x = true) :
    x = .error .assert := by
  unfold asserts at h
  split at h
  · rfl
  · exact nomatch h

/-- The second deleted instead: a job is left without `tail`, and the next assertion fails. -/
theorem deleteSecond_tailNull : ∃ w : SchHeap Unit Unit, schSys.Reachable w ∧
    ¬(∀ t th p, w.thrs t = some th → p ≠ .num → QueueOk w (th.que p)) ∧
    SchOp.live w.schs (some 1) = true ∧ SchOp.fresh w.jobs (some 3) = true ∧
    zcrtScheduleSendjob w (some 1) (some ()) () () (some 3) = .error .assert := by
  obtain ⟨w, h, hp⟩ := Sys.reach_of_run (C := fun _ _ => True) (c := fun _ _ => true)
    (p := fun w => (w.thrs 0).map (fun th => th.que .priLow) == some ⟨some 1, none⟩ &&
      (SchOp.live w.schs (some 1) && (SchOp.fresh w.jobs (some 3) &&
        asserts (zcrtScheduleSendjob w (some 1) (some ()) () () (some 3)))))
    (fun _ _ _ => trivial) (Sys.Reach.init (moduleHeap_init (F := Unit) (P := Unit)))
    [.create .zcrtThread .priLow 8 (some 1) none,
      .createShare (some 1) .priLow 8 (some 2), .sendjob (some 1) (some ()) () () (some 1),
      .sendjob (some 2) (some ()) () () (some 2), .delete (some 2) 3]
    (by decide)
  simp only [Bool.and_eq_true, beq_iff_eq, Option.map_eq_some_iff] at hp
  obtain ⟨⟨th, ht, hque⟩, hlive, hfresh, hass⟩ := hp
  refine ⟨w, h, fun hok => ?_, hlive, hfresh, eq_of_asserts hass⟩
  have hnull := (hok 0 th .priLow ht (by decide)).null
  rw [hque] at hnull
  exact nomatch hnull.mpr rfl

end Zcrt
