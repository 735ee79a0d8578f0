/-
  Timers one of which has no container: `zcrt_timercon_add_argn` leaves it at the zero of
  `_zcrt_timer_malloc_cb`, which is no container.

  * `ZTimer.hide`: the same timers, one of them without its container.
  * `timerTurn_hide`, `timerTake_hide` and their like: each function of `ztimer.c` goes along.
  * `isLive_hide`: all that differs is whether a timer that is due is called.
-/
import Zcrt.Core.TimerRun

namespace Zcrt

open Lib

variable {F P : Type}

/-! ## A timer without a container -/

/-- The node at `b`, without a container if it is the one of the timer looked at. -/
def hideNode (own : Option Nat) (b : Nat) (n : Node (ZTimerCB F P)) : Node (ZTimerCB F P) :=
  if own = some b then { n with data := { n.data with timecon := ZTIMER_INVALID_CONTAINER } } else n

/-- The same timers, the one at `own` without a container. -/
def ZTimer.hide (own : Option Nat) (mng : ZTimer F P) : ZTimer F P :=
  { mng with nodes := mng.nodes.mapIdx (hideNode own) }

def TimerRun.conceal (st : TimerRun F P) : TimerRun F P :=
  { st with mng := st.mng.hide st.own, calls := st.calls.filter (!·.own) }

section Hide

variable {own : Option Nat} {b : Nat} {n new : Node (ZTimerCB F P)} {mng : ZTimer F P}
  {ns : List (Node (ZTimerCB F P))}

@[simp] theorem hideNode_next : (hideNode own b n).next = n.next := by
  unfold hideNode
  split <;> rfl

@[simp] theorem hideNode_left : (hideNode own b n).data.left = n.data.left := by
  unfold hideNode
  split <;> rfl

@[simp] theorem hideNode_fn : (hideNode own b n).data.fn = n.data.fn := by
  unfold hideNode
  split <;> rfl

@[simp] theorem hideNode_args : (hideNode own b n).data.args = n.data.args := by
  unfold hideNode
  split <;> rfl

theorem hideNode_of_ne (h : own ≠ some b) : hideNode own b n = n := if_neg h

theorem hideNode_with_next (next : Option Nat) :
    { hideNode own b n with next := next } = hideNode own b { n with next := next } := by
  unfold hideNode
  split <;> rfl

theorem hideNode_with_left (left : UInt32) :
    { hideNode own b n with data := { (hideNode own b n).data with left := left } } =
      hideNode own b { n with data := { n.data with left := left } } := by
  unfold hideNode
  split <;> rfl

theorem lapse_ne (own : Option Nat) (b : Nat) : lapse own (some b) ≠ some b := by
  unfold lapse
  split
  · simp
  · assumption

theorem hideNode_lapse_of_ne {i : Nat} (h : b ≠ i) :
    hideNode (F := F) (P := P) (lapse own (some b)) i = hideNode own i := by
  funext n
  unfold lapse
  split
  · rename_i he
    rw [he, hideNode_of_ne (by simp), hideNode_of_ne (by simpa using h)]
  · rfl

/-- A node written anew is no longer the one of the timer looked at. -/
theorem hide_set_new (own : Option Nat) (b : Nat) (new : Node (ZTimerCB F P))
    (ns : List (Node (ZTimerCB F P))) :
    (ns.mapIdx (hideNode own)).set b new =
      (ns.set b new).mapIdx (hideNode (lapse own (some b))) := by
  rw [List.mapIdx_set, hideNode_of_ne (lapse_ne own b)]
  apply List.ext_getElem?
  intro i
  by_cases hi : b = i
  · subst hi
    simp [List.getElem?_set]
  · rw [List.getElem?_set_ne hi, List.getElem?_set_ne hi, List.getElem?_mapIdx,
      List.getElem?_mapIdx, hideNode_lapse_of_ne hi]

theorem hide_append_new (own : Option Nat) (new : Node (ZTimerCB F P))
    (ns : List (Node (ZTimerCB F P))) :
    ns.mapIdx (hideNode own) ++ [new] =
      (ns ++ [new]).mapIdx (hideNode (lapse own (some ns.length))) := by
  rw [List.mapIdx_concat, hideNode_of_ne (lapse_ne own ns.length)]
  congr 1
  apply List.ext_getElem?
  intro i
  rw [List.getElem?_mapIdx, List.getElem?_mapIdx]
  by_cases hi : i < ns.length
  · rw [hideNode_lapse_of_ne (by omega)]
  · rw [List.getElem?_eq_none (by omega)]
    rfl

theorem load_hide (own : Option Nat) (ns : List (Node (ZTimerCB F P))) (p : Option Nat) :
    Nodes.load (ns.mapIdx (hideNode own)) p =
      (Nodes.load ns p).map fun r => (r.1, hideNode own r.1 r.2) := by
  cases p with
  | none => rfl
  | some a =>
      unfold Nodes.load
      dsimp only
      rw [List.getElem?_mapIdx]
      cases ns[a]? with
      | none => rfl
      | some n => rfl

/-- Writing a node as the timers without the container have it. -/
theorem store_hide (own : Option Nat) (mng : ZTimer F P) (b : Nat) (n : Node (ZTimerCB F P)) :
    (mng.hide own).store b (hideNode own b n) = (mng.store b n).hide own := by
  unfold ZTimer.hide ZTimer.store
  dsimp only
  rw [List.mapIdx_set]

theorem store_hide_new (own : Option Nat) (mng : ZTimer F P) (b : Nat)
    (n : Node (ZTimerCB F P)) :
    (mng.hide own).store b n = (mng.store b n).hide (lapse own (some b)) := by
  unfold ZTimer.hide ZTimer.store
  dsimp only
  rw [hide_set_new]

/-! ## The functions go along -/

theorem mallocCb_hide (own : Option Nat) (mng : ZTimer F P) (mem : Bool) (period : UInt32)
    (fn : Option F) :
    zcrtTimerMallocCb (mng.hide own) mem period fn =
      (zcrtTimerMallocCb mng mem period fn).map fun r => (r.1, r.2.hide (lapse own r.1)) := by
  cases mng with
  | mk nodes head tail freelist =>
      cases freelist with
      | some job =>
          refine except_bind_along (load_hide own nodes (some job)) fun r _ => ?_
          simp only [except_pure, Except.map, hideNode_next]
          rw [← store_hide_new]
          rfl
      | none =>
          cases mem with
          | true =>
              unfold zcrtTimerMallocCb ZTimer.hide
              dsimp only [Except.map]
              rw [if_pos rfl, hide_append_new, List.length_mapIdx]
              rfl
          | false =>
              cases own with
              | none => rfl
              | some a => rfl

theorem freeCb_hide (own : Option Nat) (mng : ZTimer F P) (job : Nat) :
    zcrtTimerFreeCb (mng.hide own) job =
      (zcrtTimerFreeCb mng job).map (ZTimer.hide (lapse own (some job))) := by
  refine except_bind_along (load_hide own mng.nodes (some job)) fun r hr => ?_
  obtain ⟨he, -⟩ := Nodes.load_eq_ok hr
  obtain rfl := Option.some.inj he
  have hdata : ({ (hideNode own r.1 r.2).data with
        fn := none, timecon := ZTIMER_INVALID_CONTAINER } : ZTimerCB F P) =
      { r.2.data with fn := none, timecon := ZTIMER_INVALID_CONTAINER } := by
    unfold hideNode
    split <;> rfl
  simp only [except_pure, Except.map]
  rw [hdata, store_hide_new]
  rfl

theorem insertCb_hide (own : Option Nat) (mng : ZTimer F P) (job : Nat) :
    zcrtTimerInsertCb (mng.hide own) job = (zcrtTimerInsertCb mng job).map (ZTimer.hide own) := by
  cases mng with
  | mk nodes head tail =>
      cases head with
      | none =>
          cases tail with
          | none => rfl
          | some tail => rfl
      | some head =>
          cases tail with
          | none => rfl
          | some tail =>
              refine except_bind_along (load_hide own nodes (some tail)) fun r _ => ?_
              simp only [except_pure, Except.map]
              rw [hideNode_with_next, store_hide]
              rfl

theorem insertCb_tail {mng mng' : ZTimer F P} {job : Nat}
    (h : zcrtTimerInsertCb mng job = .ok mng') : mng'.tail = some job := by
  unfold zcrtTimerInsertCb at h
  split at h
  · split at h
    · exact nomatch h
    · obtain ⟨r, -, h⟩ := except_bind_eq_ok h
      obtain rfl := Except.ok.inj h
      rfl
  · split at h
    · exact nomatch h
    · obtain rfl := Except.ok.inj h
      rfl

theorem fixTail_hide (own : Option Nat) (mng : ZTimer F P) (job : Nat) (prev : Option Nat) :
    timerFixTail (mng.hide own) job prev = (timerFixTail mng job prev).map (ZTimer.hide own) := by
  refine except_bind_along (load_hide own mng.nodes (some job)) fun r _ => ?_
  dsimp only
  rw [hideNode_next]
  change (if mng.tail = some r.1 then _ else _) = _
  by_cases ht : mng.tail = some r.1
  · rw [if_pos ht, if_pos ht]
    by_cases hn : r.2.next = none
    · rw [if_neg (not_not.mpr hn), if_neg (not_not.mpr hn)]
      rfl
    · rw [if_pos hn, if_pos hn]
      rfl
  · rw [if_neg ht, if_neg ht]
    rfl

theorem unhook_hide (own : Option Nat) (mng : ZTimer F P) (job : Nat) (prev : Option Nat) :
    timerUnhook (mng.hide own) job prev =
      (timerUnhook mng job prev).map fun r => (r.1.hide own, r.2) := by
  refine except_bind_along (load_hide own mng.nodes (some job)) fun r _ => ?_
  dsimp only
  rw [hideNode_next]
  change (if mng.job = some r.1 then _ else _) = _
  by_cases hj : mng.job = some r.1
  · rw [if_pos hj, if_pos hj]
    rfl
  · rw [if_neg hj, if_neg hj]
    refine except_bind_along (load_hide own mng.nodes prev) fun p _ => ?_
    dsimp only
    rw [hideNode_with_next, store_hide]
    rfl

theorem unlink_hide (own : Option Nat) (mng : ZTimer F P) (job : Nat) (prev : Option Nat) :
    timerUnlink (mng.hide own) job prev =
      (timerUnlink mng job prev).map fun r => (r.1.hide own, r.2) := by
  refine except_bind_along (unhook_hide own mng job prev) fun r _ => ?_
  exact except_bind_along (fixTail_hide own r.1 job r.2) fun m _ => rfl

/-- A timer is called if its container is in use; the one without a container never is. -/
theorem isLive_hide (own : Option Nat) (mng : ZTimer F P) (b : Nat) (n : Node (ZTimerCB F P)) :
    (mng.hide own).isLive (hideNode own b n).data.timecon =
      (mng.isLive n.data.timecon && own ≠ some b) := by
  change mng.isLive _ = _
  by_cases ho : own = some b
  · have hnone : mng.isLive ZTIMER_INVALID_CONTAINER = false := rfl
    simp [hideNode, ho, hnone]
  · simp [hideNode, ho]

def TimerTurn.hide (own : Option Nat) (job : Nat) : TimerTurn F P → TimerTurn F P
  | .passed mng job prev => .passed (mng.hide own) job prev
  | .expired mng prev called => .expired (mng.hide own) prev (called && own ≠ some job)

theorem timerTurn_hide (own : Option Nat) (mng : ZTimer F P) (job : Nat) (prev : Option Nat) :
    timerTurn (mng.hide own) job prev = (timerTurn mng job prev).map (TimerTurn.hide own job) := by
  refine except_bind_along (load_hide own mng.nodes (some job)) fun r hr => ?_
  obtain ⟨he, -⟩ := Nodes.load_eq_ok hr
  obtain rfl := Option.some.inj he
  dsimp only
  rw [hideNode_left]
  by_cases hdue : r.2.data.left < TIMER_TICK
  · rw [if_pos hdue, if_pos hdue]
    refine except_bind_along (unlink_hide own mng r.1 prev) fun u _ => ?_
    refine except_bind_along (load_hide own u.1.nodes (some r.1)) fun v hv => ?_
    obtain ⟨he, -⟩ := Nodes.load_eq_ok hv
    have hv1 : v.1 = r.1 := (Option.some.inj he).symm
    dsimp only
    rw [hideNode_fn, isLive_hide, hv1]
    by_cases hfn : v.2.data.fn.isNone = true
    · rw [if_pos hfn, if_pos hfn]
      rfl
    · rw [if_neg hfn, if_neg hfn]
      rfl
  · rw [if_neg hdue, if_neg hdue]
    have hput := store_hide own mng r.1
      { r.2 with data := { r.2.data with left := r.2.data.left - TIMER_TICK } }
    rw [← hideNode_with_left] at hput
    refine (congrArg (fun m => Except.ok (TimerTurn.passed m (hideNode own r.1 r.2).next
      (some r.1))) hput).trans ?_
    rw [hideNode_next]
    rfl

/-- The manager after an adding call, the timer looked at without a container. -/
def hideAdded (own : Option Nat) (r : EZCRTErr × Option (ZTimer F P)) :
    EZCRTErr × Option (ZTimer F P) :=
  (r.1, r.2.map fun mng => mng.hide (if r.1 = .success then lapse own mng.tail else own))

theorem timerPut_hide (own : Option Nat) (mng : ZTimer F P) (mem : Bool) (period : UInt32)
    (cb : Option F) (set : ZTimerCB F P → ZTimerCB F P) :
    timerPut (mng.hide own) mem period cb set =
      (timerPut mng mem period cb set).map (hideAdded own) := by
  refine except_bind_along (mallocCb_hide own mng mem period cb) fun r _ => ?_
  obtain ⟨job, mng⟩ := r
  cases job with
  | none =>
      cases own with
      | none => rfl
      | some a => rfl
  | some job =>
      -- the node is a new one, not the one of the timer looked at
      refine except_bind_along (load_hide _ mng.nodes (some job)) fun r hr => ?_
      obtain ⟨he, -⟩ := Nodes.load_eq_ok hr
      obtain rfl := Option.some.inj he
      dsimp only
      rw [hideNode_of_ne (lapse_ne own r.1)]
      have hstore : (mng.hide (lapse own (some r.1))).store r.1
          { r.2 with data := set r.2.data } =
          (mng.store r.1 { r.2 with data := set r.2.data }).hide (lapse own (some r.1)) := by
        rw [← store_hide, hideNode_of_ne (lapse_ne own r.1)]
      rw [hstore]
      refine except_bind_along (insertCb_hide _ _ r.1) fun m hm => ?_
      simp [hideAdded, Except.map, insertCb_tail hm]

theorem containerNew_hide (own : Option Nat) (mng : ZTimer F P) :
    zcrtTimerContainerNew (some (mng.hide own)) =
      (zcrtTimerContainerNew (some mng)).map fun r => (r.1, r.2.map (ZTimer.hide own)) := by
  have hnext : (mng.hide own).nextContainer = mng.nextContainer := rfl
  unfold zcrtTimerContainerNew
  dsimp only
  rw [hnext]
  cases mng.nextContainer with
  | error e => rfl
  | ok r =>
      cases r with
      | none => rfl
      | some r => rfl

theorem containerDelete_hide (own : Option Nat) (mng : ZTimer F P) (c : UInt16) :
    zcrtTimerContainerDelete (some (mng.hide own)) c =
      (zcrtTimerContainerDelete (some mng) c).map (ZTimer.hide own) := by
  unfold zcrtTimerContainerDelete
  dsimp only
  split
  · rfl
  · rfl

section

variable [DecidableEq F] [DecidableEq P]

theorem isOf_hide (own : Option Nat) (b : Nat) (n : Node (ZTimerCB F P)) (null : P) (cb : F)
    (p1 p2 : P) : (hideNode own b n).data.isOf null cb p1 p2 = n.data.isOf null cb p1 p2 := by
  unfold ZTimerCB.isOf
  rw [hideNode_fn, hideNode_args]

theorem timerFind_hide (own : Option Nat) (ns : List (Node (ZTimerCB F P))) (null : P) (cb : F)
    (p1 p2 : P) (fuel : Nat) (job : Option Nat) (prev : Nat) :
    timerFind null (ns.mapIdx (hideNode own)) cb p1 p2 fuel job prev =
      timerFind null ns cb p1 p2 fuel job prev := by
  induction fuel generalizing job prev with
  | zero =>
      cases job with
      | none => rfl
      | some job => rfl
  | succ fuel ih =>
      cases job with
      | none => rfl
      | some job =>
          rw [timerFind, timerFind, load_hide]
          cases Nodes.load ns (some job) with
          | error e => rfl
          | ok r =>
              simp only [Except.map, except_ok_bind, isOf_hide, hideNode_next, ih]

theorem timerTake_hide (own : Option Nat) (mng : ZTimer F P) (null : P) (cb : F) (p1 p2 : P) :
    timerTake null (mng.hide own) cb p1 p2 =
      (timerTake null mng cb p1 p2).map fun r => (r.1, r.2.hide own) := by
  cases mng with
  | mk nodes head tail =>
      cases head with
      | none => rfl
      | some head =>
          refine except_bind_along (load_hide own nodes (some head)) fun r _ => ?_
          dsimp only
          rw [isOf_hide, hideNode_next]
          by_cases hof : r.2.data.isOf null cb p1 p2 = true
          · rw [if_pos hof, if_pos hof]
            rfl
          · rw [if_neg hof, if_neg hof]
            have hfind := timerFind_hide own nodes null cb p1 p2 (nodes.length + 1) (some r.1) r.1
            change (timerFind null (nodes.mapIdx (hideNode own)) cb p1 p2
              ((nodes.mapIdx (hideNode own)).length + 1) (some r.1) r.1 >>= _) = _
            rw [List.length_mapIdx]
            refine except_bind_along (f := id) (by rw [hfind]; simp) fun u _ => ?_
            obtain ⟨found, before⟩ := u
            cases found with
            | none =>
                cases tail with
                | none => rfl
                | some tail => rfl
            | some job =>
                refine except_bind_along (load_hide own nodes (some job)) fun v _ => ?_
                refine except_bind_along (load_hide own nodes (some before)) fun w _ => ?_
                dsimp only
                rw [hideNode_next, hideNode_with_next, store_hide]
                exact except_bind_along (fixTail_hide own _ v.1 _) fun m _ => rfl

end

end Hide

end Zcrt
