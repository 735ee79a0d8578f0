/-
  A schedule and the schedules that came of it through `zcrt_schedule_create_share`, along any run
  of the calls of any modules and the turns of the workers.

  The thread a share gets goes by the type of the schedule shared: the same thread for one that has
  a thread of its own, else that of the calling module. A share does not have that type.

  * `ShareState.tree`: the schedule and what came of it, as far as they are not deleted.
  * `Bound`: they are all bound to the thread of the first, where their jobs are.
  * `bound_iff_sharesThread`: so it is until a share gets another thread.
-/
import Zcrt.Core.SchStop

namespace Zcrt

open Lib

variable {F P : Type}

/-- What a module keeps for the scheduler. -/
structure SchModule where
  zcrtthr : Option Nat
  schthrList : Option Nat

/-- The heap as a call with this module finds it. -/
def SchHeap.ofModule (w : SchHeap F P) (m : SchModule) : SchHeap F P :=
  { w with zcrtthr := m.zcrtthr, schthrList := m.schthrList }

/-- The scheduler, and a schedule of which the others are followed. -/
structure ShareState (F P : Type) where
  heap : SchHeap F P
  /-- the schedules that came of the first, and itself -/
  tree : List Nat
  /-- the thread of the first -/
  thr : Nat

/-- A share of one of the tree is another of it; a schedule deleted is no more. -/
def SchOp.tree (tree : List Nat) : SchOp F P → List Nat
  | createShare (some p) _ _ (some s) => if p ∈ tree then s :: tree else tree
  | delete (some s) _ => tree.filter (· ≠ s)
  | _ => tree

/-- The schedule just created by `zcrt_schedule_create`. -/
def ShareState.Fresh (x : ShareState F P) : Prop :=
  ∃ (w : SchHeap F P) (m : SchModule) (type : EZCRTSchType) (pri : EZCRTPriority)
    (maxsize : UInt16) (s : Nat) (memThr : Option Nat) (sc : ZSchedule),
    QueWeak w ∧
    schSys.next (w.ofModule m) (.create type pri maxsize (some s) memThr) = some x.heap ∧
      x.tree = [s] ∧ x.heap.schs s = some sc ∧ sc.thr = some x.thr

/-- The calls, each with its module, and the turns of the workers. -/
def shareSys : Sys (ShareState F P) (SchModule × SchOp F P) where
  init := ShareState.Fresh
  next x l := (schSys.next (x.heap.ofModule l.1) l.2).map fun w =>
    { heap := w, tree := l.2.tree x.tree, thr := x.thr }

/-- All of the tree are bound to the thread of the first, and their jobs wait there. -/
structure Bound (x : ShareState F P) : Prop where
  thr : ∀ s ∈ x.tree, ∃ sc, x.heap.schs s = some sc ∧ sc.thr = some x.thr
  jobs : ∀ t th p b s, x.heap.thrs t = some th → p ≠ .num →
    Reaches x.heap.links (th.que p).jobs b → x.heap.owner b = some s → s ∈ x.tree → t = x.thr

/-- A share of one of the tree is a share of a schedule with a thread of its own, or the calling
    module has the thread of the tree. -/
def SharesThread (x : ShareState F P) (l : SchModule × SchOp F P) : Prop :=
  ∀ p pri maxsize s, l.2 = .createShare (some p) pri maxsize (some s) → p ∈ x.tree →
    (∃ sc, x.heap.schs p = some sc ∧ sc.type = .selfThread) ∨ l.1.zcrtthr = some x.thr

section Step

variable {w w' : SchHeap F P} {x x' : ShareState F P} {l : SchModule × SchOp F P}

theorem QueWeak.ofModule (h : QueWeak w) (m : SchModule) : QueWeak (w.ofModule m) := by
  obtain ⟨v, hv, htail⟩ := h
  exact ⟨v, ⟨hv.que, hv.free, hv.place, hv.freeOwner, hv.freeDisj, hv.count, hv.thr, hv.live⟩,
    htail⟩

theorem QueWeak.next (h : QueWeak w) {op : SchOp F P} (hn : schSys.next w op = some w') :
    QueWeak w' :=
  queBy_next tailRule_weak h (fun _ _ _ hrun => zcrtScheduleDelete_weak h hrun) hn

/-- A schedule keeps its thread and its type until it is deleted. -/
theorem schs_kept (h : QueWeak w) {op : SchOp F P} (hn : schSys.next w op = some w') {s : Nat}
    {sc : ZSchedule} (hs : w.schs s = some sc) (hdel : ∀ fuel, op ≠ .delete (some s) fuel) :
    ∃ sc', w'.schs s = some sc' ∧ sc'.thr = sc.thr ∧ sc'.type = sc.type := by
  have hsame : ∀ {w1 w2 : SchHeap F P}, SameLife w1 w2 → w1.schs s = some sc →
      ∃ sc', w2.schs s = some sc' ∧ sc'.thr = sc.thr ∧ sc'.type = sc.type := by
    intro w1 w2 hlife hs1
    have hm := hlife.sch s
    rw [hs1, Option.map_some] at hm
    obtain ⟨sc', hs', he⟩ := Option.map_eq_some_iff.mp hm
    obtain ⟨hthr, htype⟩ := Prod.mk.inj he
    exact ⟨sc', hs', hthr, htype⟩
  have hatt : ∀ {w1 : SchHeap F P} {t s1 : Nat} {th th' : SchThr} {sc1 : ZSchedule},
      w1.schs = w.schs → w.schs s1 = none → Attached w1 w' t s1 th th' sc1 →
      ∃ sc', w'.schs s = some sc' ∧ sc'.thr = sc.thr ∧ sc'.type = sc.type := by
    intro w1 t s1 th th' sc1 hw1 hs1 ha
    have hne : s ≠ s1 := by
      rintro rfl
      rw [hs] at hs1
      exact absurd hs1 (Option.some_ne_none _)
    refine ⟨sc, ?_, rfl, rfl⟩
    rw [ha.schs, Function.update_of_ne hne, hw1]
    exact hs
  rcases life_cases h hn with hlife | ha | ⟨s1, fuel, w2, t, th, th', sc1, hop, hlife, hf⟩
  · exact hsame hlife hs
  · cases ha with
    | old hs1 _ ha => exact hatt rfl hs1 ha
    | new hs1 _ hnew ha => exact hatt hnew.schs hs1 ha
  · have hne : s ≠ s1 := by
      rintro rfl
      exact hdel fuel hop
    obtain ⟨sc', hs', hthr, htype⟩ := hsame hlife hs
    refine ⟨sc', ?_, hthr, htype⟩
    rw [hf.schs, Function.update_of_ne hne]
    exact hs'

/-- A share that has memory is a schedule on one of the two threads. -/
theorem share_thr {p s : Nat} {pri : EZCRTPriority} {maxsize : UInt16} {sc : ZSchedule}
    (hs : w.schs p = some sc)
    (hn : schSys.next w (.createShare (some p) pri maxsize (some s)) = some w') :
    w.schs s = none ∧ ∃ sc', w'.schs s = some sc' ∧
      sc'.thr = if sc.type = .selfThread then sc.thr else w.zcrtthr := by
  obtain ⟨ha, hr⟩ := exec_of_next hn
  obtain ⟨⟨r, w1⟩, hrun, rfl⟩ := except_map_eq_ok hr
  obtain ⟨-, ha2⟩ := Bool.and_eq_true_iff.mp ha
  refine ⟨SchOp.eq_none_of_fresh ha2 s rfl, ?_⟩
  rcases zcrtScheduleCreateShare_ok hrun with
    ⟨rfl, -⟩ | ⟨s1, p1, sc1, t, th, th', sc', -, hmem, hpar, hs1, hthr, -, hatt⟩
  · -- the call does not return `NULL`
    unfold zcrtScheduleCreateShare at hrun
    dsimp only at hrun
    obtain ⟨_, -, hrun⟩ := except_bind_eq_ok hrun
    obtain ⟨_, -, hrun⟩ := except_bind_eq_ok hrun
    obtain ⟨_, -, hrun⟩ := except_bind_eq_ok hrun
    exact absurd (Prod.mk.inj (Except.ok.inj hrun)).1 (Option.some_ne_none s)
  · obtain rfl := Option.some.inj hmem
    obtain rfl := Option.some.inj hpar
    obtain rfl := Option.some.inj (hs.symm.trans hs1)
    refine ⟨sc', by rw [hatt.schs, Function.update_self], hatt.schThr.trans ?_⟩
    rcases hthr with ⟨htype, -, hst⟩ | ⟨htype, -, hz⟩
    · rw [if_pos htype, hst]
    · rw [if_neg htype, hz]

/-- A bound tree whose threads have queues is bound in its jobs as well. -/
theorem bound_of_thr (h : QueWeak x.heap)
    (hthr : ∀ s ∈ x.tree, ∃ sc, x.heap.schs s = some sc ∧ sc.thr = some x.thr) : Bound x where
  thr := hthr
  jobs := by
    intro t th p b s ht hp hb ho hs
    obtain ⟨v, hv, -⟩ := h
    have hmem := (hv.que t th p ht hp).mem_of_reaches hb
    obtain ⟨s1, sc1, ho1, hs1, hst1, -⟩ := hv.place t p b hmem
    obtain rfl := Option.some.inj (ho.symm.trans ho1)
    obtain ⟨sc, hs2, hst2⟩ := hthr s hs
    obtain rfl := Option.some.inj (hs1.symm.trans hs2)
    exact Option.some.inj (hst1.symm.trans hst2)

/-- What is left of the tree when the call is no share of one of it. -/
theorem SchOp.mem_tree {tree : List Nat} {op : SchOp F P}
    (hno : ∀ p pri maxsize s, op = .createShare (some p) pri maxsize (some s) → p ∉ tree) {s : Nat}
    (hs : s ∈ op.tree tree) : s ∈ tree ∧ ∀ fuel, op ≠ .delete (some s) fuel := by
  cases op with
  | createShare sch1 pri maxsize mem =>
      refine ⟨?_, fun fuel he => by cases he⟩
      cases sch1 with
      | none => exact hs
      | some p =>
          cases mem with
          | none => exact hs
          | some a =>
              have htree : SchOp.tree (F := F) (P := P) tree
                  (.createShare (some p) pri maxsize (some a)) = tree :=
                if_neg (hno p pri maxsize a rfl)
              rwa [htree] at hs
  | delete hd fuel =>
      cases hd with
      | none => exact ⟨hs, fun fuel he => by cases he⟩
      | some a =>
          have hs' := List.mem_filter.mp hs
          refine ⟨hs'.1, fun fuel he => ?_⟩
          have ha := Option.some.inj (SchOp.delete.inj he).1
          exact of_decide_eq_true hs'.2 ha.symm
  | create type pri maxsize mem memThr => exact ⟨hs, fun fuel he => by cases he⟩
  | sendjob hd cb p1 p2 mem => exact ⟨hs, fun fuel he => by cases he⟩
  | sendjobArgn hd cb args mem => exact ⟨hs, fun fuel he => by cases he⟩
  | work t => exact ⟨hs, fun fuel he => by cases he⟩

/-- One step: the tree stays bound exactly when its share, if it is one, gets the thread. -/
theorem bound_step (hq : QueWeak x.heap) (hb : Bound x) (hn : shareSys.next x l = some x') :
    QueWeak x'.heap ∧ (Bound x' ↔ SharesThread x l) := by
  obtain ⟨m, op⟩ := l
  obtain ⟨w', hop, rfl⟩ := Option.map_eq_some_iff.mp hn
  dsimp only at hop
  have hqm := hq.ofModule m
  have hq' := hqm.next hop
  refine ⟨hq', ?_⟩
  have hkept : ∀ s ∈ x.tree, (∀ fuel, op ≠ .delete (some s) fuel) →
      ∃ sc, w'.schs s = some sc ∧ sc.thr = some x.thr := by
    intro s hs hdel
    obtain ⟨sc, hsc, hst⟩ := hb.thr s hs
    obtain ⟨sc', hs', hthr, -⟩ := schs_kept hqm hop hsc hdel
    exact ⟨sc', hs', hthr.trans hst⟩
  by_cases hshare : ∃ p pri maxsize s, op = .createShare (some p) pri maxsize (some s) ∧ p ∈ x.tree
  · -- a share of `p`
    obtain ⟨p, pri, maxsize, s, rfl, hp⟩ := hshare
    obtain ⟨sc, hsc, hst⟩ := hb.thr p hp
    obtain ⟨-, sc', hs', hthr⟩ := share_thr (w := x.heap.ofModule m) hsc hop
    have htree : SchOp.tree (F := F) (P := P) x.tree (.createShare (some p) pri maxsize (some s)) =
        s :: x.tree := if_pos hp
    have hnew : sc'.thr = some x.thr ↔ sc.type = .selfThread ∨ m.zcrtthr = some x.thr := by
      rw [hthr]
      by_cases htype : sc.type = .selfThread
      · rw [if_pos htype]
        exact iff_of_true hst (Or.inl htype)
      · rw [if_neg htype]
        exact ⟨Or.inr, fun h => h.resolve_left htype⟩
    constructor
    · intro h p' pri' maxsize' a he hp'
      obtain ⟨hpp, -, -, -⟩ := SchOp.createShare.inj he
      obtain rfl := Option.some.inj hpp
      obtain ⟨sc2, hs2, hst2⟩ := h.thr s (by rw [htree]; exact List.mem_cons_self)
      obtain rfl := Option.some.inj (hs'.symm.trans hs2)
      exact (hnew.mp hst2).imp_left fun htype => ⟨sc, hsc, htype⟩
    · intro h
      refine bound_of_thr hq' fun s1 hs1 => ?_
      rw [htree] at hs1
      rcases List.mem_cons.mp hs1 with rfl | hs1
      · refine ⟨sc', hs', hnew.mpr ((h p pri maxsize s1 rfl hp).imp_left ?_)⟩
        rintro ⟨sc2, hs2, htype⟩
        obtain rfl := Option.some.inj (hsc.symm.trans hs2)
        exact htype
      · exact hkept s1 hs1 fun fuel he => by cases he
  · have hno : ∀ p pri maxsize s, op = .createShare (some p) pri maxsize (some s) → p ∉ x.tree :=
      fun p pri maxsize s he hp => hshare ⟨p, pri, maxsize, s, he, hp⟩
    refine iff_of_true (bound_of_thr hq' fun s hs => ?_) fun p pri maxsize s he hp =>
      absurd hp (hno p pri maxsize s he)
    obtain ⟨hmem, hdel⟩ := SchOp.mem_tree hno hs
    exact hkept s hmem hdel

end Step

/-! ## Along a run -/

theorem ShareState.Fresh.bound {x : ShareState F P} (h : x.Fresh) : QueWeak x.heap ∧ Bound x := by
  obtain ⟨w, m, type, pri, maxsize, s, memThr, sc, hq, hn, htree, hs, hst⟩ := h
  have hq' := (hq.ofModule m).next hn
  refine ⟨hq', bound_of_thr hq' fun s1 hs1 => ?_⟩
  rw [htree, List.mem_singleton] at hs1
  subst hs1
  exact ⟨sc, hs, hst⟩

/-- As long as every share of the tree gets its thread the tree is bound, and the first that does
    not ends it. -/
theorem bound_iff_sharesThread {x : ShareState F P} (h : shareSys.Reach SharesThread x) :
    Bound x ∧ ∀ l x', shareSys.next x l = some x' → (Bound x' ↔ SharesThread x l) := by
  have hinv : QueWeak x.heap ∧ Bound x := by
    refine h.invariant (I := fun x => QueWeak x.heap ∧ Bound x)
      (fun x hx => ShareState.Fresh.bound hx) ?_
    intro x l x' hx hc hn
    obtain ⟨hq', hiff⟩ := bound_step hx.1 hx.2 hn
    exact ⟨hq', hiff.mpr hc⟩
  exact ⟨hinv.2, fun l x' hn => (bound_step hinv.1 hinv.2 hn).2⟩

/-- The module whose thread is at 0. -/
def moduleZero : SchModule := { zcrtthr := some 0, schthrList := none }

/-- A schedule with a thread of its own, both at 1. -/
def privateFirst : ShareState Unit Unit where
  heap := (schSys.next (moduleHeap.ofModule moduleZero)
    (.create .selfThread .priLow 8 (some 1) (some 1))).getD SchHeap.empty
  tree := [1]
  thr := 1

theorem privateFirst_fresh : privateFirst.Fresh := by
  have hsome : (schSys.next ((moduleHeap : SchHeap Unit Unit).ofModule moduleZero)
      (.create .selfThread .priLow 8 (some 1) (some 1))).isSome = true := by decide
  obtain ⟨w, hw⟩ := Option.isSome_iff_exists.mp hsome
  have hheap : privateFirst.heap = w := by
    unfold privateFirst
    rw [hw]
    rfl
  have hthr : (privateFirst.heap.schs 1).map ZSchedule.thr = some (some 1) := by decide
  obtain ⟨sc, hs, hst⟩ := Option.map_eq_some_iff.mp hthr
  exact ⟨moduleHeap, moduleZero, .selfThread, .priLow, 8, 1, some 1, sc,
    queBy_init tailRule_weak moduleHeap_init, by rw [hheap]; exact hw, rfl, hs, hst⟩

/-- The call is a share of a schedule with a thread of its own. -/
def sharesOwn (x : ShareState F P) (l : SchModule × SchOp F P) : Bool :=
  match l.2 with
  | .createShare (some p) _ _ _ =>
      (x.heap.schs p).map ZSchedule.type == some EZCRTSchType.selfThread
  | _ => false

theorem sharesThread_of_own {x : ShareState F P} {l : SchModule × SchOp F P}
    (h : sharesOwn x l = true) : SharesThread x l := by
  intro p pri maxsize s he hp
  unfold sharesOwn at h
  rw [he] at h
  obtain ⟨sc, hs, htype⟩ := Option.map_eq_some_iff.mp (beq_iff_eq.mp h)
  exact Or.inl ⟨sc, hs, htype⟩

/-- The schedule shared twice. -/
theorem bound_iff_sharesThread_twice : ∃ x : ShareState Unit Unit,
    shareSys.Reach SharesThread x ∧ x.tree = [3, 2, 1] ∧ Bound x ∧
      ∀ l x', shareSys.next x l = some x' → (Bound x' ↔ SharesThread x l) := by
  have hinit : shareSys.Reach SharesThread privateFirst := Sys.Reach.init privateFirst_fresh
  obtain ⟨x, h, hp⟩ := Sys.reach_of_run (c := sharesOwn)
    (p := fun x => x.tree == [3, 2, 1]) (fun _ _ => sharesThread_of_own) hinit
    [(moduleZero, .createShare (some 1) .priLow 8 (some 2)),
      (moduleZero, .createShare (some 1) .priHigh 8 (some 3))]
    (by decide)
  have hb := bound_iff_sharesThread h
  exact ⟨x, h, beq_iff_eq.mp hp, hb.1, hb.2⟩

/-- The share of a share is on the thread of the module. -/
theorem shareOfShare_elsewhere : ∃ x : ShareState Unit Unit, shareSys.Reachable x ∧
    x.thr = 1 ∧ 3 ∈ x.tree ∧ (x.heap.schs 3).map ZSchedule.thr = some (some 0) ∧ ¬Bound x := by
  have hinit : shareSys.Reachable privateFirst := Sys.Reach.init privateFirst_fresh
  obtain ⟨x, h, hp⟩ := Sys.reach_of_run (c := fun _ _ => true)
    (p := fun x => x.thr == 1 && (x.tree.contains 3 &&
      (x.heap.schs 3).map ZSchedule.thr == some (some 0)))
    (fun _ _ _ => trivial) hinit
    [(moduleZero, .createShare (some 1) .priLow 8 (some 2)),
      (moduleZero, .createShare (some 2) .priLow 8 (some 3))]
    (by decide)
  simp only [Bool.and_eq_true, beq_iff_eq, List.contains_iff_mem] at hp
  obtain ⟨hx, hmem, hthr⟩ := hp
  refine ⟨x, h, hx, hmem, hthr, fun hb => ?_⟩
  obtain ⟨sc, hs, hst⟩ := hb.thr 3 hmem
  rw [hs, Option.map_some, hst, hx] at hthr
  exact absurd hthr (by decide)

end Zcrt
