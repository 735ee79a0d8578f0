/-
  `zcrt_timercon_add_argn` beside `zcrt_timercon_add`, over the runs that follow.

  * `TimerRun.conceal`: the same state, had the timer been added with `zcrt_timercon_add_argn`.
  * `TimerRun.conceal_step`: each step goes along with it.
  * `TimerRun.ownCalls_run`: the runs in which the timer is not called.
  * `addArgn_alike_iff`: when the two ways of adding a timer come to the same calls.
-/
import Zcrt.Core.TimerHide

namespace Zcrt

open Lib

variable {F P : Type}

/-! ## Steps and runs -/

namespace TimerRun

variable (st : TimerRun F P)

theorem lapse_none (own : Option Nat) : lapse own none = own := by
  unfold lapse
  split
  · rename_i h
    exact h.symm
  · rfl

theorem conceal_containerNew :
    st.conceal.containerNewStep = st.containerNewStep.map conceal := by
  unfold containerNewStep conceal
  dsimp only
  rw [containerNew_hide]
  cases zcrtTimerContainerNew (some st.mng) with
  | error e => rfl
  | ok r =>
      obtain ⟨c, mng⟩ := r
      cases mng with
      | none => rfl
      | some mng => rfl

theorem conceal_containerDelete (c : UInt16) :
    st.conceal.containerDeleteStep c = (st.containerDeleteStep c).map conceal := by
  unfold containerDeleteStep conceal
  dsimp only
  rw [containerDelete_hide]
  cases zcrtTimerContainerDelete (some st.mng) c with
  | none => rfl
  | some mng => rfl

theorem conceal_added {x x' : Except Fault (EZCRTErr × Option (ZTimer F P))}
    (h : x' = x.map (hideAdded st.own)) : st.conceal.added x' = (st.added x).map conceal := by
  rw [h]
  cases x with
  | error e => rfl
  | ok r =>
      obtain ⟨ret, mng⟩ := r
      cases mng with
      | none => rfl
      | some mng => rfl

theorem conceal_add (mem : Bool) (c : UInt16) (period : UInt32) (cb : Option F) (p1 p2 : P) :
    st.conceal.added (zcrtTimerconAdd (some st.conceal.mng) mem c period cb p1 p2) =
      (st.added (zcrtTimerconAdd (some st.mng) mem c period cb p1 p2)).map conceal := by
  refine st.conceal_added ?_
  rw [timerconAdd_eq, timerconAdd_eq]
  split
  · rfl
  split
  · rfl
  change (if c ≠ ZTIMER_CONTAINER_CONSTID ∧ st.mng.container c = 0 then _ else _) = _
  split
  · rfl
  · exact timerPut_hide ..

theorem conceal_addArgn (mem : Bool) (c : UInt16) (period : UInt32) (cb : Option F)
    (args : List P) :
    st.conceal.added (zcrtTimerconAddArgn (some st.conceal.mng) mem c period cb args) =
      (st.added (zcrtTimerconAddArgn (some st.mng) mem c period cb args)).map conceal := by
  refine st.conceal_added ?_
  rw [timerconAddArgn_eq, timerconAddArgn_eq]
  split
  · rfl
  split
  · rfl
  change (if c ≠ ZTIMER_CONTAINER_CONSTID ∧ st.mng.container c = 0 then _ else _) = _
  split
  · rfl
  · exact timerPut_hide ..

theorem conceal_begin : st.conceal.beginStep = st.beginStep.map conceal := by
  cases st with
  | mk mng pos =>
      cases pos with
      | sleep => rfl
      | loop job prev => rfl
      | calling job prev => rfl

theorem conceal_finish : st.conceal.finishStep = st.finishStep.map conceal := by
  cases st with
  | mk mng pos =>
      cases pos with
      | sleep => rfl
      | loop job prev =>
          cases job with
          | none => rfl
          | some job => rfl
      | calling job prev => rfl

theorem conceal_back : st.conceal.backStep = st.backStep.map conceal := by
  cases st with
  | mk mng pos pass own =>
      cases pos with
      | sleep => rfl
      | loop job prev => rfl
      | calling job prev =>
          unfold backStep conceal
          dsimp only
          rw [freeCb_hide]
          cases zcrtTimerFreeCb mng job with
          | error e => rfl
          | ok mng => rfl

theorem callOf_conceal {mng : ZTimer F P} {job : Nat} (h : st.own ≠ some job) :
    st.conceal.callOf (mng.hide st.own) job = st.callOf mng job := by
  unfold callOf Nodes.dataOf ZTimer.hide
  dsimp only
  rw [List.getElem?_mapIdx]
  cases mng.nodes[job]? with
  | none => rfl
  | some n =>
      simp only [Option.map_some, hideNode_of_ne h]
      rfl

theorem callOf_own (mng : ZTimer F P) (job : Nat) :
    ∀ c ∈ (st.callOf mng job).toList, c.own = decide (st.own = some job) := by
  intro c hc
  obtain ⟨d, -, rfl⟩ := Option.map_eq_some_iff.mp (Option.mem_toList.mp hc)
  rfl

/-- The calls without those of the timer looked at, after a turn at `job`. -/
theorem calls_conceal (mng : ZTimer F P) (job : Nat) (called : Bool) :
    (if called && decide (st.own ≠ some job) then
        st.conceal.calls ++ (st.conceal.callOf (mng.hide st.own) job).toList
      else st.conceal.calls) =
      (if called then st.calls ++ (st.callOf mng job).toList else st.calls).filter (!·.own) := by
  have hown := st.callOf_own mng job
  cases called with
  | false => rfl
  | true =>
      by_cases ho : st.own = some job
      · have hnone : (st.callOf mng job).toList.filter (!·.own) = [] := by
          apply List.filter_eq_nil_iff.mpr
          intro c hc
          simp [hown c hc, ho]
        simp [ho, hnone, conceal]
      · have hall : (st.callOf mng job).toList.filter (!·.own) = (st.callOf mng job).toList := by
          apply List.filter_eq_self.mpr
          intro c hc
          simp [hown c hc, ho]
        have hcall : st.conceal.callOf (mng.hide st.own) job = st.callOf mng job :=
          st.callOf_conceal ho
        rw [if_pos (by simp [ho]), if_pos rfl, List.filter_append, hall, hcall]
        rfl

theorem conceal_turn : st.conceal.turnStep = st.turnStep.map conceal := by
  have hcalls := st.calls_conceal
  cases st with
  | mk mng pos pass own calls =>
      cases pos with
      | sleep => rfl
      | calling job prev => rfl
      | loop job prev =>
          cases job with
          | none => rfl
          | some job =>
              unfold turnStep conceal
              dsimp only
              rw [timerTurn_hide]
              cases timerTurn mng job prev with
              | error e => rfl
              | ok r =>
                  cases r with
                  | passed mng job prev => rfl
                  | expired mng prev called =>
                      have h := hcalls mng job called
                      simp only [Except.map, TimerTurn.hide, Option.map_some]
                      exact congrArg (fun calls => some
                        (mk (mng.hide own) (.calling job prev) pass own calls)) h

theorem conceal_delete [DecidableEq F] [DecidableEq P] (null : P) (cb : Option F) (p1 p2 : P) :
    st.conceal.deleteStep null cb p1 p2 = (st.deleteStep null cb p1 p2).map conceal := by
  cases cb with
  | none =>
      change some { st.conceal with own := lapse st.own none } =
        some (conceal { st with own := lapse st.own none })
      rw [lapse_none]
      rfl
  | some cb =>
      unfold deleteStep zcrtTimerDelete conceal
      dsimp only [Option.bind_some]
      rw [timerTake_hide]
      cases timerTake null st.mng cb p1 p2 with
      | error e => rfl
      | ok r =>
          obtain ⟨job, mng⟩ := r
          cases job with
          | none =>
              simp only [Except.map, except_ok_bind, except_pure, Option.map_some, lapse_none]
          | some job =>
              simp only [Except.map, except_ok_bind]
              rw [freeCb_hide]
              cases zcrtTimerFreeCb mng job with
              | error e => rfl
              | ok mng => rfl

/-- Each step of the timers is one of the timers without the container. -/
theorem conceal_step [DecidableEq F] [DecidableEq P] (null : P) (op : TimerOp F P) :
    st.conceal.step null op = (st.step null op).map conceal := by
  cases op with
  | containerNew => exact st.conceal_containerNew
  | containerDelete c => exact st.conceal_containerDelete c
  | add mem c period cb p1 p2 => exact st.conceal_add mem c period cb p1 p2
  | addArgn mem c period cb args => exact st.conceal_addArgn mem c period cb args
  | delete cb p1 p2 => exact st.conceal_delete null cb p1 p2
  | begin => exact st.conceal_begin
  | turn => exact st.conceal_turn
  | back => exact st.conceal_back
  | finish => exact st.conceal_finish

end TimerRun

/-! ## The turns at which the timer is called -/

theorem timerUnhook_data {mng mng' : ZTimer F P} {job : Nat} {prev prev' : Option Nat}
    (h : timerUnhook mng job prev = .ok (mng', prev')) (b : Nat) :
    Nodes.dataOf mng'.nodes b = Nodes.dataOf mng.nodes b ∧ mng'.container = mng.container := by
  obtain ⟨r, -, h⟩ := except_bind_eq_ok h
  dsimp only at h
  split at h
  · obtain ⟨rfl, -⟩ := Prod.mk.inj (Except.ok.inj h)
    exact ⟨rfl, rfl⟩
  · obtain ⟨p, hp, h⟩ := except_bind_eq_ok h
    obtain ⟨rfl, -⟩ := Prod.mk.inj (Except.ok.inj h)
    exact ⟨Nodes.dataOf_set_next (Nodes.load_eq_ok hp).2 _ b, rfl⟩

theorem timerFixTail_data {mng mng' : ZTimer F P} {job : Nat} {prev : Option Nat}
    (h : timerFixTail mng job prev = .ok mng') :
    mng'.nodes = mng.nodes ∧ mng'.container = mng.container := by
  obtain ⟨r, -, h⟩ := except_bind_eq_ok h
  dsimp only at h
  split at h
  · split at h
    · exact nomatch h
    · obtain rfl := Except.ok.inj h
      exact ⟨rfl, rfl⟩
  · obtain rfl := Except.ok.inj h
    exact ⟨rfl, rfl⟩

theorem timerUnlink_data {mng mng' : ZTimer F P} {job : Nat} {prev prev' : Option Nat}
    (h : timerUnlink mng job prev = .ok (mng', prev')) (b : Nat) :
    Nodes.dataOf mng'.nodes b = Nodes.dataOf mng.nodes b ∧ mng'.container = mng.container := by
  obtain ⟨u, hu, h⟩ := except_bind_eq_ok h
  obtain ⟨m, hm, h⟩ := except_bind_eq_ok h
  obtain ⟨rfl, -⟩ := Prod.mk.inj (Except.ok.inj h)
  obtain ⟨hdata, hcon⟩ := timerUnhook_data hu b
  obtain ⟨hnodes, hcon'⟩ := timerFixTail_data hm
  rw [hnodes, hcon']
  exact ⟨hdata, hcon⟩

/-- A turn at the timer `job`, whose data are `d`. -/
def TimerTurn.Found (mng : ZTimer F P) (job : Nat) (d : ZTimerCB F P) : TimerTurn F P → Prop
  | .passed _ _ _ => ¬d.left < TIMER_TICK
  | .expired mng' _ called =>
      d.left < TIMER_TICK ∧ called = mng.isLive d.timecon ∧ Nodes.dataOf mng'.nodes job = some d

theorem timerTurn_found {mng : ZTimer F P} {job : Nat} {prev : Option Nat} {r : TimerTurn F P}
    (h : timerTurn mng job prev = .ok r) :
    ∃ d, Nodes.dataOf mng.nodes job = some d ∧ r.Found mng job d := by
  obtain ⟨⟨a, n⟩, hn, hrest⟩ := except_bind_eq_ok h
  obtain ⟨he, hnode⟩ := Nodes.load_eq_ok hn
  obtain rfl := Option.some.inj he
  have hdata := Nodes.dataOf_of_node hnode
  refine ⟨n.data, hdata, ?_⟩
  dsimp only at hrest
  split at hrest
  · rename_i hdue
    obtain ⟨u, hu, hrest⟩ := except_bind_eq_ok hrest
    obtain ⟨v, hv, hrest⟩ := except_bind_eq_ok hrest
    obtain ⟨hkeep, hcon⟩ := timerUnlink_data hu job
    rw [hdata] at hkeep
    obtain ⟨he, hv⟩ := Nodes.load_eq_ok hv
    rw [← Option.some.inj he] at hv
    have hsame : v.2.data = n.data :=
      Option.some.inj ((Nodes.dataOf_of_node hv).symm.trans hkeep)
    split at hrest
    · exact nomatch hrest
    · obtain rfl := Except.ok.inj hrest
      refine ⟨hdue, ?_, hkeep⟩
      rw [hsame]
      unfold ZTimer.isLive
      rw [hcon]
  · rename_i hdue
    obtain rfl := Except.ok.inj hrest
    exact hdue

namespace TimerRun

variable {st st' : TimerRun F P}

/-- Only a turn calls anything. -/
theorem calls_of_other [DecidableEq F] [DecidableEq P] {null : P} {op : TimerOp F P}
    (hop : op ≠ .turn) (h : st.step null op = some st') : st'.calls = st.calls := by
  cases op with
  | turn => exact absurd rfl hop
  | containerNew =>
      change st.containerNewStep = _ at h
      unfold containerNewStep at h
      split at h
      · obtain rfl := Option.some.inj h
        rfl
      · exact nomatch h
  | containerDelete c =>
      obtain ⟨mng, -, rfl⟩ := Option.map_eq_some_iff.mp h
      rfl
  | add mem c period cb p1 p2 =>
      change st.added _ = _ at h
      unfold added at h
      split at h
      · obtain rfl := Option.some.inj h
        rfl
      · exact nomatch h
  | addArgn mem c period cb args =>
      change st.added _ = _ at h
      unfold added at h
      split at h
      · obtain rfl := Option.some.inj h
        rfl
      · exact nomatch h
  | delete cb p1 p2 =>
      change st.deleteStep null cb p1 p2 = _ at h
      unfold deleteStep at h
      split at h
      · obtain rfl := Option.some.inj h
        rfl
      · exact nomatch h
  | begin =>
      change st.beginStep = _ at h
      unfold beginStep at h
      split at h
      · obtain rfl := Option.some.inj h
        rfl
      · exact nomatch h
  | back =>
      change st.backStep = _ at h
      unfold backStep at h
      split at h
      · split at h
        · obtain rfl := Option.some.inj h
          rfl
        · exact nomatch h
      · exact nomatch h
  | finish =>
      change st.finishStep = _ at h
      unfold finishStep at h
      split at h
      · obtain rfl := Option.some.inj h
        rfl
      · exact nomatch h

theorem due_turn {job : Nat} {prev : Option Nat} {d : ZTimerCB F P}
    (hpos : st.pos = .loop (some job) prev) (hd : Nodes.dataOf st.mng.nodes job = some d) :
    st.due .turn = (decide (st.own = some job) && (decide (d.left < TIMER_TICK) &&
      st.mng.isLive d.timecon)) := by
  unfold due
  simp [hpos, hd]

/-- A turn calls the timer looked at if it is due and its container in use. -/
theorem ownCalls_turn (h : st.turnStep = some st') :
    st'.ownCalls.length = st.ownCalls.length + if st.due .turn then 1 else 0 := by
  unfold turnStep at h
  split at h
  · rename_i job prev hpos
    split at h
    · rename_i hturn
      obtain ⟨d, hd, hfound⟩ := timerTurn_found hturn
      have hleft : ¬d.left < TIMER_TICK := hfound
      obtain rfl := Option.some.inj h
      rw [due_turn hpos hd, if_neg (by simp [hleft])]
      rfl
    · rename_i mng' prev' called hturn
      obtain ⟨d, hd, hleft, rfl, hd'⟩ := timerTurn_found hturn
      obtain rfl := Option.some.inj h
      rw [due_turn hpos hd]
      unfold ownCalls callOf
      rw [hd']
      by_cases hlive : st.mng.isLive d.timecon = true
      · by_cases hown : st.own = some job
        · simp [hlive, hown, hleft]
        · simp [hlive, hown]
      · simp [hlive]
    · exact nomatch h
  · exact nomatch h

theorem ownCalls_step [DecidableEq F] [DecidableEq P] {null : P} {op : TimerOp F P}
    (h : st.step null op = some st') :
    st'.ownCalls.length = st.ownCalls.length + if st.due op then 1 else 0 := by
  by_cases hop : op = .turn
  · subst hop
    exact ownCalls_turn h
  · have hdue : st.due op = false := by
      cases op with
      | turn => exact absurd rfl hop
      | _ => rfl
    unfold ownCalls
    rw [calls_of_other hop h, hdue]
    rfl

theorem conceal_ownCalls (st : TimerRun F P) : st.conceal.ownCalls = [] := by
  unfold ownCalls conceal
  dsimp only
  rw [List.filter_filter]
  apply List.filter_eq_nil_iff.mpr
  intro c _
  simp

/-- The timer looked at is not called exactly in the runs in which no turn finds it due. -/
theorem ownCalls_run [DecidableEq F] [DecidableEq P] {null : P} {ops : List (TimerOp F P)}
    {mng : ZTimer F P} {pos : TimerPos}
    (h : (timerRunSys null).run (fun _ _ => true) (start mng pos) ops = some st) :
    st.ownCalls = [] ↔
      ((timerRunSys null).run (fun st op => !st.due op) (start mng pos) ops).isSome := by
  have hkeep : ∀ (st : TimerRun F P) (op : TimerOp F P) st', st.step null op = some st' →
      (!st.due op) = true → st'.ownCalls.length = st.ownCalls.length := by
    intro st op st' hs hc
    rw [ownCalls_step hs]
    simpa using hc
  have hgrow : ∀ (st : TimerRun F P) (op : TimerOp F P) st', st.step null op = some st' →
      (!st.due op) = false → st.ownCalls.length < st'.ownCalls.length := by
    intro st op st' hs hc
    simp at hc
    rw [ownCalls_step hs, if_pos hc]
    omega
  rw [← (Sys.run_same_iff (m := fun st => st.ownCalls.length) hkeep hgrow h).2]
  exact List.length_eq_zero_iff.symm

end TimerRun

/-! ## The two ways of adding a timer -/

theorem hide_none (mng : ZTimer F P) : mng.hide none = mng := by
  have hid : hideNode (F := F) (P := P) none = fun _ n => n := by
    funext b n
    exact hideNode_of_ne (by simp)
  unfold ZTimer.hide
  rw [hid]
  cases mng with
  | mk nodes =>
      congr 1
      apply List.ext_getElem?
      simp

theorem mallocCb_node {mng mng' : ZTimer F P} {mem : Bool} {period : UInt32} {fn : Option F}
    {job : Nat} (h : zcrtTimerMallocCb mng mem period fn = .ok (some job, mng')) :
    mng'.nodes[job]? = some { data := ⟨period, fn, 0, 0, []⟩, next := none } := by
  unfold zcrtTimerMallocCb at h
  dsimp only at h
  split at h
  · obtain ⟨r, hr, h⟩ := except_bind_eq_ok h
    obtain ⟨hj, rfl⟩ := Prod.mk.inj (Except.ok.inj h)
    rw [← Option.some.inj hj]
    exact Nodes.set_self (Nodes.load_eq_ok hr).2 _
  · split at h
    · obtain ⟨hj, rfl⟩ := Prod.mk.inj (Except.ok.inj h)
      rw [← Option.some.inj hj]
      exact List.getElem?_concat_length
    · obtain ⟨hj, -⟩ := Prod.mk.inj (Except.ok.inj h)
      exact absurd hj.symm (Option.some_ne_none job)

/-- With the same two arguments, `zcrt_timercon_add_argn` comes to the timers of
    `zcrt_timercon_add`, the one added without its container. -/
theorem addArgn_eq_hide {mng mngA : ZTimer F P} {mem : Bool} {c : UInt16} {period : UInt32}
    {cb : Option F} {p1 p2 : P}
    (h : zcrtTimerconAdd (some mng) mem c period cb p1 p2 = .ok (.success, some mngA)) :
    zcrtTimerconAddArgn (some mng) mem c period cb [p1, p2] =
      .ok (.success, some (mngA.hide mngA.tail)) := by
  rw [timerconAdd_eq] at h
  split at h
  · exact nomatch h
  rename_i hvalid
  split at h
  · exact nomatch h
  rename_i hcb
  split at h
  · exact nomatch h
  rename_i hused
  obtain ⟨⟨job, m⟩, hmalloc, h⟩ := except_bind_eq_ok h
  cases job with
  | none => exact nomatch h
  | some job =>
      obtain ⟨⟨a, n⟩, hload, h⟩ := except_bind_eq_ok h
      obtain ⟨he, hn⟩ := Nodes.load_eq_ok hload
      obtain rfl := Option.some.inj he
      obtain rfl := Option.some.inj (hn.symm.trans (mallocCb_node hmalloc))
      obtain ⟨m', hinsert, h⟩ := except_bind_eq_ok h
      obtain rfl := Option.some.inj (Prod.mk.inj (Except.ok.inj h)).2
      have htail := insertCb_tail hinsert
      have hno : ¬(cb.isNone ∨ [p1, p2].length = 0 ∨ [p1, p2].length > ZCRT_CB_MAX_ARGS) := by
        simp [ZCRT_CB_MAX_ARGS] at hcb ⊢
        exact hcb
      rw [timerconAddArgn_eq, if_neg hvalid, if_neg hno, if_neg hused]
      unfold timerPut
      rw [hmalloc, htail]
      simp only [except_ok_bind, hload]
      -- the node is stored over, with its container at the zero it was given
      have hstore := store_hide (some job) m job
        { data := ⟨period, cb, 2, c, [p1, p2]⟩, next := none }
      have hnone : lapse (some job) (some job) = none := if_pos rfl
      rw [store_hide_new, hnone, hide_none] at hstore
      have hnode : hideNode (some job) job
          { data := ⟨period, cb, 2, c, [p1, p2]⟩, next := none } =
          { data := ⟨period, cb, UInt32.ofNat [p1, p2].length, 0, [p1, p2]⟩, next := none } :=
        if_pos rfl
      rw [hnode] at hstore
      rw [hstore, insertCb_hide, hinsert]
      rfl

section Alike

variable [DecidableEq F] [DecidableEq P]

/-- A timer added with `zcrt_timercon_add_argn` is called in the same passes and with the same
    arguments as one added with `zcrt_timercon_add` exactly if no turn of the timer thread finds the
    latter due while its container is in use. -/
theorem addArgn_alike_iff (null : P) {mng mngA : ZTimer F P} (pos : TimerPos) {mem : Bool}
    {c : UInt16} {period : UInt32} {cb : Option F} {p1 p2 : P}
    (hadd : zcrtTimerconAdd (some mng) mem c period cb p1 p2 = .ok (.success, some mngA)) :
    ∃ mngB, zcrtTimerconAddArgn (some mng) mem c period cb [p1, p2] =
        .ok (.success, some mngB) ∧
      ∀ ops A, (timerRunSys null).run (fun _ _ => true) (.start mngA pos) ops = some A →
        ∃ B, (timerRunSys null).run (fun _ _ => true) (.start mngB pos) ops = some B ∧
          (B.ownCalls = A.ownCalls ↔
            ((timerRunSys null).run (fun st op => !st.due op) (.start mngA pos) ops).isSome) := by
  refine ⟨mngA.hide mngA.tail, addArgn_eq_hide hadd, fun ops A hA => ?_⟩
  have hcomm : ∀ (st : TimerRun F P) op, (timerRunSys null).next st.conceal op =
      ((timerRunSys null).next st op).map TimerRun.conceal := by
    intro st op
    exact st.conceal_step null op
  have hrun : (timerRunSys null).run (fun _ _ => true) (.start (mngA.hide mngA.tail) pos) ops =
      ((timerRunSys null).run (fun _ _ => true) (.start mngA pos) ops).map TimerRun.conceal :=
    Sys.run_map (f := TimerRun.conceal) (fun _ _ => rfl) hcomm (TimerRun.start mngA pos) ops
  rw [hA] at hrun
  refine ⟨A.conceal, hrun, ?_⟩
  rw [A.conceal_ownCalls, ← TimerRun.ownCalls_run hA]
  exact eq_comm

end Alike

/-- No timer, and one container in use. -/
def noneTimed : ZTimer Unit Nat :=
  { (zcrtTimerManageInit : ZTimer Unit Nat) with
    container := Function.update (fun _ => 0) 1 1 }

/-- One timer, added under that container. -/
def oneTimed : ZTimer Unit Nat :=
  { noneTimed with
    nodes := [{ data := ⟨10, some (), 2, 1, [1, 2]⟩, next := none }]
    job := some 0
    tail := some 0 }

/-- The container is deleted before the timer is due. -/
theorem addArgn_alike_iff_deleted : ∃ mngB A B,
    zcrtTimerconAddArgn (some noneTimed) true 1 10 (some ()) [1, 2] = .ok (.success, some mngB) ∧
    (timerRunSys 0).run (fun _ _ => true) (.start oneTimed .sleep)
      [.containerDelete 1, .begin, .turn, .back, .finish] = some A ∧
    (timerRunSys 0).run (fun _ _ => true) (.start mngB .sleep)
      [.containerDelete 1, .begin, .turn, .back, .finish] = some B ∧
    B.ownCalls = A.ownCalls := by
  obtain ⟨mngB, hB, hall⟩ := addArgn_alike_iff 0 .sleep
    (rfl : zcrtTimerconAdd (some noneTimed) true 1 10 (some ()) 1 2 = .ok (.success, some oneTimed))
  obtain ⟨A, hA⟩ : ∃ A, (timerRunSys 0).run (fun _ _ => true) (.start oneTimed .sleep)
      [.containerDelete 1, .begin, .turn, .back, .finish] = some A :=
    Option.isSome_iff_exists.mp (by decide)
  obtain ⟨B, hrun, hiff⟩ := hall _ A hA
  exact ⟨mngB, A, B, hB, hA, hrun, hiff.mpr (by decide)⟩

/-- A timer of the constant container, due at once: added with `zcrt_timercon_add` it is called in
    the first pass, added with `zcrt_timercon_add_argn` it expires without a call. -/
theorem addArgn_notCalled : ∃ mngA mngB A B,
    zcrtTimerconAdd (some zcrtTimerManageInit) true ZTIMER_CONTAINER_CONSTID 0 (some ()) 1 2 =
      .ok (.success, some mngA) ∧
    zcrtTimerconAddArgn (some zcrtTimerManageInit) true ZTIMER_CONTAINER_CONSTID 0 (some ())
      [1, 2] = .ok (.success, some mngB) ∧
    (timerRunSys 0).run (fun _ _ => true) (.start mngA .sleep) [.begin, .turn, .back, .finish] =
      some A ∧
    (timerRunSys 0).run (fun _ _ => true) (.start mngB .sleep) [.begin, .turn, .back, .finish] =
      some B ∧
    A.ownCalls = [{ pass := 1, own := true, fn := some (), args := [1, 2] }] ∧ B.ownCalls = [] :=
  ⟨_, _, _, _, rfl, rfl, rfl, rfl, rfl, rfl⟩

end Zcrt
