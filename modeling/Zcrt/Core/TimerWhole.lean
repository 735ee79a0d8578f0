/-
  The timers of one thread: calls between two passes and inside the callbacks of a pass.

  * `TimerLog`: a run of the timers, with a number for each timer added and a record of those that
    left.
  * `OneThread`: no call comes between the turns of a pass.
  * `TimerLog.Ok`: the two chains, and that each number is of one timer pending or of one gone.
  * `timers_whole`: what holds after every run; `freesize_wraps`: `freesize` after 2^31 timers.
-/
import Zcrt.Core.TimerCalls

namespace Zcrt

open Lib

variable {F P : Type}

/-! ## The record -/

/-- A timer that is no longer pending: its number, its data when it left, and in which step. -/
structure Gone (F P : Type) where
  num : Nat
  data : ZTimerCB F P
  op : TimerOp F P

/-- It expired, or was deleted by a call that matched it. -/
def Gone.Rightly [DecidableEq F] [DecidableEq P] (null : P) (g : Gone F P) : Prop :=
  g.op = .turn ∧ g.data.left < TIMER_TICK ∨
    ∃ cb p1 p2, g.op = .delete (some cb) p1 p2 ∧ g.data.isOf null cb p1 p2

/-- A call that adds a timer. -/
def TimerRun.gives (st : TimerRun F P) : TimerOp F P → Bool
  | .add mem c period cb p1 p2 =>
      match zcrtTimerconAdd (some st.mng) mem c period cb p1 p2 with
      | .ok (ret, _) => ret = .success
      | .error _ => false
  | .addArgn mem c period cb args =>
      match zcrtTimerconAddArgn (some st.mng) mem c period cb args with
      | .ok (ret, _) => ret = .success
      | .error _ => false
  | _ => false

/-- The timer that a step takes out of the pending ones. -/
def TimerRun.takes [DecidableEq F] [DecidableEq P] (null : P) (st : TimerRun F P) :
    TimerOp F P → Option Nat
  | .delete (some cb) p1 p2 =>
      match timerTake null st.mng cb p1 p2 with
      | .ok (job, _) => job
      | .error _ => none
  | .turn =>
      match st.pos with
      | .loop (some job) prev =>
          match timerTurn st.mng job prev with
          | .ok (.expired _ _ _) => some job
          | _ => none
      | _ => none
  | _ => none

/-- The timers from the start. `given` timers have been added, `num` has the number of the timer at
    a node, `gone` the timers that left, in this order. -/
structure TimerLog (F P : Type) where
  run : TimerRun F P
  given : Nat
  num : Nat → Nat
  gone : List (Gone F P)

namespace TimerLog

variable [DecidableEq F] [DecidableEq P] (st : TimerLog F P)

/-- The record after a step that leads to `run`. The timer added is the last one. -/
def record (null : P) (op : TimerOp F P) (run : TimerRun F P) : TimerLog F P :=
  { run := run
    given := if st.run.gives op then st.given + 1 else st.given
    num := fun a => if st.run.gives op ∧ run.mng.tail = some a then st.given else st.num a
    gone := st.gone ++ ((st.run.takes null op).bind fun job =>
      (Nodes.dataOf st.run.mng.nodes job).map fun d => ⟨st.num job, d, op⟩).toList }

def step (null : P) (op : TimerOp F P) : Option (TimerLog F P) :=
  (st.run.step null op).map (st.record null op)

end TimerLog

def timerLogSys [DecidableEq F] [DecidableEq P] (null : P) :
    Sys (TimerLog F P) (TimerOp F P) where
  init st := st = { run := .start zcrtTimerManageInit .sleep, given := 0, num := fun _ => 0,
                    gone := [] }
  next st op := st.step null op

/-- The thread is where the step is made: the calls come between two passes, or while a callback
    runs. -/
def OneThread (st : TimerLog F P) : TimerOp F P → Prop
  | .begin => st.run.pos = .sleep
  | .turn => ∃ job prev, st.run.pos = .loop (some job) prev
  | .back => ∃ job prev, st.run.pos = .calling job prev
  | .finish => ∃ prev, st.run.pos = .loop none prev
  | _ => ∀ job prev, st.run.pos ≠ .loop job prev

/-- The timers pending are `l`, and the numbers given are those of `l` and of the timers gone. -/
structure TimerLog.Ok [DecidableEq F] [DecidableEq P] (null : P) (st : TimerLog F P)
    (l : List (Timed F P)) (fr : List Nat) : Prop where
  pending : Pending st.run.mng l fr
  counted : st.run.mng.Counted fr
  pos : st.run.pos.At st.run.mng l fr
  nums : (l.map (fun x => st.num x.1) ++ st.gone.map Gone.num).Perm (List.range st.given)
  rightly : ∀ g ∈ st.gone, g.Rightly null

namespace TimerLog.Ok

variable [DecidableEq F] [DecidableEq P] {null : P} {st : TimerLog F P} {l l' : List (Timed F P)}
  {fr fr' : List Nat} {op : TimerOp F P} {run : TimerRun F P}

/-! ## What a step does to the record -/

/-- A step that takes out no timer and adds none. -/
theorem keep (h : st.Ok null l fr) (hgives : st.run.gives op = false)
    (htakes : st.run.takes null op = none) (hpend : Pending run.mng l' fr')
    (hcount : run.mng.Counted fr') (hpos : run.pos.At run.mng l' fr')
    (hfst : l'.map Prod.fst = l.map Prod.fst) : (st.record null op run).Ok null l' fr' := by
  have hnum : (st.record null op run).num = st.num := by
    funext a
    simp [record, hgives]
  have hgone : (st.record null op run).gone = st.gone := by
    simp [record, htakes]
  have hgiven : (st.record null op run).given = st.given := by
    simp [record, hgives]
  have hmap : l'.map (fun x => st.num x.1) = l.map (fun x => st.num x.1) := by
    have hcomp := congrArg (List.map st.num) hfst
    rwa [List.map_map, List.map_map] at hcomp
  refine ⟨hpend, hcount, hpos, ?_, ?_⟩
  · rw [hnum, hgone, hgiven, hmap]
    exact h.nums
  · rw [hgone]
    exact h.rightly

/-- A step that adds the timer `x`. -/
theorem give (h : st.Ok null l fr) {x : Timed F P} (hgives : st.run.gives op = true)
    (htakes : st.run.takes null op = none) (hpend : Pending run.mng (l ++ [x]) fr')
    (hcount : run.mng.Counted fr') (hpos : run.pos.At run.mng (l ++ [x]) fr') :
    (st.record null op run).Ok null (l ++ [x]) fr' := by
  have htail : run.mng.tail = some x.1 := by
    rw [hpend.tail]
    simp
  have hnd := hpend.nodup
  rw [List.map_append, List.nodup_append] at hnd
  have hold : l.map (fun y => (st.record null op run).num y.1) =
      l.map (fun y => st.num y.1) := by
    apply List.map_congr_left
    intro y hy
    have hne : x.1 ≠ y.1 := fun he =>
      hnd.2.2 y.1 (List.mem_map_of_mem hy) x.1 (List.mem_singleton_self _) he.symm
    simp [record, hgives, htail, hne]
  have hnew : (st.record null op run).num x.1 = st.given := by
    simp [record, hgives, htail]
  have hgone : (st.record null op run).gone = st.gone := by
    simp [record, htakes]
  have hgiven : (st.record null op run).given = st.given + 1 := by
    simp [record, hgives]
  refine ⟨hpend, hcount, hpos, ?_, ?_⟩
  · have hmap : (l ++ [x]).map (fun y => (st.record null op run).num y.1) =
        l.map (fun y => st.num y.1) ++ [st.given] := by
      rw [List.map_append, hold, List.map_singleton, hnew]
    rw [hgone, hgiven, hmap, List.range_succ, List.append_assoc]
    refine (List.perm_append_comm.append_left (l.map fun y => st.num y.1)).trans ?_
    rw [← List.append_assoc]
    exact h.nums.append_right [st.given]
  · rw [hgone]
    exact h.rightly

/-- A step that takes out the timer `x`. -/
theorem take {pre r : List (Timed F P)} {x : Timed F P} (h : st.Ok null (pre ++ x :: r) fr)
    (hgives : st.run.gives op = false) (htakes : st.run.takes null op = some x.1)
    (hpend : Pending run.mng (pre ++ r) fr') (hcount : run.mng.Counted fr')
    (hpos : run.pos.At run.mng (pre ++ r) fr')
    (hright : (⟨st.num x.1, x.2, op⟩ : Gone F P).Rightly null) :
    (st.record null op run).Ok null (pre ++ r) fr' := by
  have hdata := h.pending.data x (List.mem_append_right _ List.mem_cons_self)
  have hnum : (st.record null op run).num = st.num := by
    funext a
    simp [record, hgives]
  have hgone : (st.record null op run).gone = st.gone ++ [⟨st.num x.1, x.2, op⟩] := by
    simp [record, htakes, hdata]
  have hgiven : (st.record null op run).given = st.given := by
    simp [record, hgives]
  refine ⟨hpend, hcount, hpos, ?_, ?_⟩
  · rw [hnum, hgone, hgiven]
    refine List.Perm.trans (List.perm_iff_count.mpr fun k => ?_) h.nums
    simp only [List.map_append, List.map_cons, List.map_nil, List.count_append, List.count_cons,
      List.count_nil]
    omega
  · rw [hgone]
    intro g hg
    rcases List.mem_append.mp hg with hg | hg
    · exact h.rightly g hg
    · rw [List.mem_singleton.mp hg]
      exact hright

/-! ## Steps -/

/-- What a step comes to. -/
def Goes (null : P) (st : TimerLog F P) (op : TimerOp F P) : Prop :=
  ∃ run l' fr', st.run.step null op = some run ∧ (st.record null op run).Ok null l' fr'

/-- A call made where the thread is at no timer. -/
theorem at_of_leads (h : st.Ok null l fr) (hpos : ∀ job prev, st.run.pos ≠ .loop job prev)
    {mng' : ZTimer F P} (hl : Leads st.run.mng l fr mng' l' fr') :
    st.run.pos.At mng' l' fr' := by
  have hat := h.pos
  cases hp : st.run.pos with
  | sleep => trivial
  | loop job prev => exact absurd hp (hpos job prev)
  | calling job prev =>
      rw [hp] at hat
      obtain ⟨n, hn⟩ := hat
      exact ⟨n, hl.loose job n hn⟩

theorem added (h : st.Ok null l fr) (hpos : ∀ job prev, st.run.pos ≠ .loop job prev)
    {period : UInt32} {ret : EZCRTErr} {mng' : ZTimer F P} (hl : Leads st.run.mng l fr mng' l' fr')
    (hadded : Pending.Added l l' period ret) (hgives : st.run.gives op = decide (ret = .success))
    (htakes : st.run.takes null op = none) (hrun : st.run.added (.ok (ret, some mng')) = some run) :
    (st.record null op run).Ok null l' fr' := by
  have hat := h.at_of_leads hpos hl
  obtain rfl := Option.some.inj hrun
  rcases hadded with ⟨hret, rfl⟩ | ⟨hret, x, rfl, -⟩
  · rw [decide_eq_false hret] at hgives
    exact h.keep hgives htakes hl.pending (hl.counted h.counted) hat rfl
  · rw [decide_eq_true hret] at hgives
    exact h.give hgives htakes hl.pending (hl.counted h.counted) hat

theorem goes_add (h : st.Ok null l fr) (hpos : ∀ job prev, st.run.pos ≠ .loop job prev)
    (mem : Bool) (c : UInt16) (period : UInt32) (cb : Option F) (p1 p2 : P) :
    Goes null st (.add mem c period cb p1 p2) := by
  obtain ⟨ret, mng', l', fr', hadd, hl, hadded⟩ :=
    h.pending.timerconAdd_leads mem c period cb p1 p2
  have hgives : st.run.gives (.add mem c period cb p1 p2) = decide (ret = .success) := by
    simp [TimerRun.gives, hadd]
  exact ⟨_, l', fr', congrArg st.run.added hadd, h.added hpos hl hadded hgives rfl rfl⟩

theorem goes_addArgn (h : st.Ok null l fr) (hpos : ∀ job prev, st.run.pos ≠ .loop job prev)
    (mem : Bool) (c : UInt16) (period : UInt32) (cb : Option F) (args : List P) :
    Goes null st (.addArgn mem c period cb args) := by
  obtain ⟨ret, mng', l', fr', hadd, hl, hadded⟩ :=
    h.pending.timerconAddArgn_leads mem c period cb args
  have hgives : st.run.gives (.addArgn mem c period cb args) = decide (ret = .success) := by
    simp [TimerRun.gives, hadd]
  exact ⟨_, l', fr', congrArg st.run.added hadd, h.added hpos hl hadded hgives rfl rfl⟩

theorem goes_containerDelete (h : st.Ok null l fr)
    (hpos : ∀ job prev, st.run.pos ≠ .loop job prev) (c : UInt16) :
    Goes null st (.containerDelete c) := by
  obtain ⟨mng', hdel, hl⟩ := h.pending.containerDelete_leads c
  refine ⟨{ st.run with mng := mng' }, l, fr, ?_,
    h.keep rfl rfl hl.pending (hl.counted h.counted) (h.at_of_leads hpos hl) rfl⟩
  change st.run.containerDeleteStep c = _
  unfold TimerRun.containerDeleteStep
  rw [hdel]
  rfl

/-- The first timer that matches deleted. -/
theorem deleteFirst {pre r : List (Timed F P)} {x : Timed F P} (h : st.Ok null (pre ++ x :: r) fr)
    (hpos : ∀ job prev, st.run.pos ≠ .loop job prev) {cb : F} {p1 p2 : P}
    (hno : ∀ y ∈ pre, ¬y.2.isOf null cb p1 p2) (hx : x.2.isOf null cb p1 p2) :
    ∃ run, st.run.step null (.delete (some cb) p1 p2) = some run ∧ run.pos = st.run.pos ∧
      (st.record null (.delete (some cb) p1 p2) run).Ok null (pre ++ r) (x.1 :: fr) := by
  obtain ⟨m, mng', htake, hdel, hl⟩ := h.pending.timerDelete_leads hno hx
  have hat := h.at_of_leads hpos hl
  have htakes : st.run.takes null (.delete (some cb) p1 p2) = some x.1 := by
    simp [TimerRun.takes, htake]
  refine ⟨{ st.run with mng := mng', own := lapse st.run.own (some x.1) }, ?_, rfl,
    h.take rfl htakes hl.pending (hl.counted h.counted) hat (Or.inr ⟨cb, p1, p2, rfl, hx⟩)⟩
  change st.run.deleteStep null (some cb) p1 p2 = _
  unfold TimerRun.deleteStep
  rw [hdel, Option.bind_some, htake]

theorem goes_delete (h : st.Ok null l fr) (hpos : ∀ job prev, st.run.pos ≠ .loop job prev)
    (cb : Option F) (p1 p2 : P) : Goes null st (.delete cb p1 p2) := by
  cases cb with
  | none =>
      have hat := h.at_of_leads hpos h.pending.leads
      exact ⟨_, l, fr, rfl, h.keep rfl rfl h.pending h.counted hat rfl⟩
  | some cb =>
      rcases firstOf_cases l null cb p1 p2 with hno | ⟨pre, x, r, rfl, hno, hx, -⟩
      · have hdel := h.pending.timerDelete_none hno
        have htake := h.pending.timerTake_none hno
        have hat := h.at_of_leads hpos h.pending.leads
        have htakes : st.run.takes null (.delete (some cb) p1 p2) = none := by
          simp [TimerRun.takes, htake]
        refine ⟨{ st.run with own := lapse st.run.own none }, l, fr, ?_,
          h.keep rfl htakes h.pending h.counted hat rfl⟩
        change st.run.deleteStep null (some cb) p1 p2 = _
        unfold TimerRun.deleteStep
        rw [hdel, Option.bind_some, htake]
      · obtain ⟨run, hrun, -, hok⟩ := h.deleteFirst hpos hno hx
        exact ⟨run, pre ++ r, x.1 :: fr, hrun, hok⟩

theorem goes_turn (h : st.Ok null l fr) {job : Nat} {prev : Option Nat}
    (hpos : st.run.pos = .loop (some job) prev) : Goes null st .turn := by
  have hat := h.pos
  rw [hpos] at hat
  obtain ⟨pre, x, r, rfl, rfl, hprev⟩ := hat
  by_cases hx : x.due = true
  · -- taken out
    obtain ⟨mng', prev', n, hturn, hout⟩ := h.pending.timerTurn_expired hprev hx
    have htakes : st.run.takes null .turn = some x.1 := by
      simp [TimerRun.takes, hpos, hturn]
    have hgo : ∃ run, st.run.turnStep = some run ∧ run.mng = mng' ∧
        run.pos = .calling x.1 prev' := by
      unfold TimerRun.turnStep
      rw [hpos]
      dsimp only
      rw [hturn]
      exact ⟨_, rfl, rfl, rfl⟩
    obtain ⟨run, hrun, rfl, hpos'⟩ := hgo
    refine ⟨run, pre ++ r, fr, hrun, h.take rfl htakes hout.leads.pending
      (hout.leads.counted h.counted) ?_ (Or.inl ⟨rfl, of_decide_eq_true hx⟩)⟩
    rw [hpos']
    exact ⟨n, hout.node⟩
  · -- charged
    obtain ⟨mng', hturn, hleads, -⟩ :=
      h.pending.timerTurn_passed prev (Bool.eq_false_iff.mpr hx)
    have htakes : st.run.takes null .turn = none := by
      simp [TimerRun.takes, hpos, hturn]
    have hgo : ∃ run, st.run.turnStep = some run ∧ run.mng = mng' ∧
        run.pos = .loop (r.map Prod.fst).head? (some x.1) := by
      unfold TimerRun.turnStep
      rw [hpos]
      dsimp only
      rw [hturn]
      exact ⟨_, rfl, rfl, rfl⟩
    obtain ⟨run, hrun, rfl, hpos'⟩ := hgo
    refine ⟨run, pre ++ x.tick :: r, fr, hrun,
      h.keep rfl htakes hleads.pending (hleads.counted h.counted) ?_ ?_⟩
    · rw [hpos']
      exact TimerPos.At.next pre x r
    · rw [List.map_append, List.map_append]
      rfl

theorem goes_back (h : st.Ok null l fr) {job : Nat} {prev : Option Nat}
    (hpos : st.run.pos = .calling job prev) : Goes null st .back := by
  have hat := h.pos
  rw [hpos] at hat
  obtain ⟨n, hn⟩ := hat
  obtain ⟨mng', hfree, hgiven⟩ := h.pending.freeCb_pending hn
  refine ⟨{ st.run with mng := mng', pos := .loop mng'.job prev,
                        own := lapse st.run.own (some job) }, l, job :: fr, ?_,
    h.keep rfl rfl hgiven.pending (hgiven.counted h.counted) (hgiven.pending.at_head prev) rfl⟩
  change st.run.backStep = _
  unfold TimerRun.backStep
  rw [hpos]
  dsimp only
  rw [hfree]

/-- Every step can be made, but for `zcrt_timer_container_new`, which may not end. -/
theorem goes (h : st.Ok null l fr) (hone : OneThread st op) (hop : op ≠ .containerNew) :
    Goes null st op := by
  cases op with
  | containerNew => exact absurd rfl hop
  | containerDelete c => exact h.goes_containerDelete hone c
  | add mem c period cb p1 p2 => exact h.goes_add hone mem c period cb p1 p2
  | addArgn mem c period cb args => exact h.goes_addArgn hone mem c period cb args
  | delete cb p1 p2 => exact h.goes_delete hone cb p1 p2
  | turn =>
      obtain ⟨job, prev, hpos⟩ := hone
      exact h.goes_turn hpos
  | back =>
      obtain ⟨job, prev, hpos⟩ := hone
      exact h.goes_back hpos
  | begin =>
      refine ⟨{ st.run with pos := .loop st.run.mng.job st.run.mng.job, pass := st.run.pass + 1 },
        l, fr, ?_, h.keep rfl rfl h.pending h.counted (h.pending.at_head _) rfl⟩
      change st.run.beginStep = _
      unfold TimerRun.beginStep
      rw [show st.run.pos = .sleep from hone]
  | finish =>
      obtain ⟨prev, hpos⟩ := hone
      refine ⟨{ st.run with pos := .sleep }, l, fr, ?_,
        h.keep rfl rfl h.pending h.counted trivial rfl⟩
      change st.run.finishStep = _
      unfold TimerRun.finishStep
      rw [hpos]

theorem step (h : st.Ok null l fr) (hone : OneThread st op) {st' : TimerLog F P}
    (hs : st.step null op = some st') : ∃ l' fr', st'.Ok null l' fr' := by
  by_cases hop : op = .containerNew
  · subst hop
    obtain ⟨run, hrun, rfl⟩ := Option.map_eq_some_iff.mp hs
    change st.run.containerNewStep = _ at hrun
    unfold TimerRun.containerNewStep at hrun
    split at hrun
    · rename_i c mng' hnew
      obtain rfl := Option.some.inj hrun
      have hl := h.pending.containerNew_leads hnew
      exact ⟨l, fr, h.keep rfl rfl hl.pending (hl.counted h.counted) (h.at_of_leads hone hl) rfl⟩
    · exact nomatch hrun
  · obtain ⟨run, l', fr', hrun, hok⟩ := h.goes hone hop
    obtain ⟨run', hrun', rfl⟩ := Option.map_eq_some_iff.mp hs
    obtain rfl := Option.some.inj (hrun.symm.trans hrun')
    exact ⟨l', fr', hok⟩

end TimerLog.Ok

/-! ## Runs -/

section Runs

variable [DecidableEq F] [DecidableEq P] {null : P} {st : TimerLog F P}

theorem timerLog_ok (h : (timerLogSys null).Reach OneThread st) : ∃ l fr, st.Ok null l fr := by
  refine h.invariant (I := fun st => ∃ l fr, st.Ok null l fr) (fun st hst => ?_)
    fun st op st' hok hone hs => ?_
  · obtain rfl : st = _ := hst
    exact ⟨[], [], pending_init, counted_init, trivial, List.Perm.refl _,
      fun _ hg => absurd hg List.not_mem_nil⟩
  · obtain ⟨l, fr, hok⟩ := hok
    exact hok.step hone hs

/-- After every run on one thread the timers pending are a chain from `job` whose last is `tail`,
    `freesize` is the length of the free one, each timer added is pending or left once and rightly,
    every call and turn goes through, and `zcrt_timer_delete` takes out the first that matches. -/
theorem timers_whole (h : (timerLogSys null).Reach OneThread st) :
    ∃ l fr, Pending st.run.mng l fr ∧
      (st.run.mng.job = none ↔ st.run.mng.tail = none) ∧
      (fr.length < 2 ^ 31 → st.run.mng.freesize.toInt = fr.length) ∧
      (l.map (fun x => st.num x.1) ++ st.gone.map Gone.num).Perm (List.range st.given) ∧
      (∀ g ∈ st.gone, g.Rightly null) ∧
      (∀ op, OneThread st op → op ≠ .containerNew → (st.step null op).isSome) ∧
      ∀ cb p1 p2, ∃ mng' fr',
        zcrtTimerDelete null (some st.run.mng) (some cb) p1 p2 = .ok (.success, some mng') ∧
        Pending mng' (l.eraseP fun x => x.2.isOf null cb p1 p2) fr' := by
  obtain ⟨l, fr, hok⟩ := timerLog_ok h
  have hends : st.run.mng.job = none ↔ st.run.mng.tail = none := by
    rw [hok.pending.seg.head, hok.pending.tail, List.head?_eq_none_iff, List.getLast?_eq_none_iff]
  refine ⟨l, fr, hok.pending, hends, fun hlt => ?_, hok.nums, hok.rightly, fun op hone hop => ?_,
    fun cb p1 p2 => ?_⟩
  · rw [hok.counted]
    exact Int32.toInt_ofNat_of_lt hlt
  · obtain ⟨run, l', fr', hrun, -⟩ := hok.goes hone hop
    unfold TimerLog.step
    rw [hrun]
    rfl
  · rcases firstOf_cases l null cb p1 p2 with hno | ⟨pre, x, r, rfl, hno, hx, herase⟩
    · rw [List.eraseP_of_forall_not hno]
      exact ⟨st.run.mng, fr, hok.pending.timerDelete_none hno, hok.pending⟩
    · obtain ⟨m, mng', -, hdel, hl⟩ := hok.pending.timerDelete_leads hno hx
      rw [herase]
      exact ⟨mng', x.1 :: fr, hdel, hl.pending⟩

end Runs

def oneThread (st : TimerLog F P) (op : TimerOp F P) : Bool :=
  match st.run.pos with
  | .sleep => match op with
      | .turn | .back | .finish => false
      | _ => true
  | .loop (some _) _ => match op with
      | .turn => true
      | _ => false
  | .loop none _ => match op with
      | .finish => true
      | _ => false
  | .calling _ _ => match op with
      | .begin | .turn | .finish => false
      | _ => true

theorem oneThread_sound (st : TimerLog F P) (op : TimerOp F P) (h : oneThread st op = true) :
    OneThread st op := by
  unfold oneThread at h
  unfold OneThread
  cases hpos : st.run.pos with
  | sleep =>
      rw [hpos] at h
      cases op with
      | turn | back | finish => exact nomatch h
      | _ => simp
  | loop job prev =>
      rw [hpos] at h
      cases job with
      | none =>
          cases op with
          | finish => exact ⟨prev, rfl⟩
          | _ => exact nomatch h
      | some job =>
          cases op with
          | turn => exact ⟨job, prev, rfl⟩
          | _ => exact nomatch h
  | calling job prev =>
      rw [hpos] at h
      cases op with
      | begin | turn | finish => exact nomatch h
      | _ => simp

/-- A callback adds its timer again and deletes another one. -/
theorem timers_whole_again : ∃ st : TimerLog Unit Nat, (timerLogSys 0).Reach OneThread st ∧
    st.given = 3 ∧ st.gone.map Gone.num = [0, 1] ∧ ∃ l fr, Pending st.run.mng l fr ∧
      (l.map (fun x => st.num x.1) ++ st.gone.map Gone.num).Perm (List.range st.given) := by
  obtain ⟨st, hst, hp⟩ := Sys.reach_of_run (c := oneThread)
    (p := fun st : TimerLog Unit Nat => st.given == 3 && st.gone.map Gone.num == [0, 1])
    oneThread_sound (Sys.Reach.init rfl : (timerLogSys 0).Reach OneThread _)
    [.add true ZTIMER_CONTAINER_CONSTID 10 (some ()) 1 2,
      .add true ZTIMER_CONTAINER_CONSTID 100 (some ()) 3 4, .begin, .turn,
      .add true ZTIMER_CONTAINER_CONSTID 10 (some ()) 1 2, .delete (some ()) 3 4, .back]
    (by decide)
  obtain ⟨hgiven, hgone⟩ := Bool.and_eq_true_iff.mp hp
  obtain ⟨l, fr, hpend, -, -, hnums, -⟩ := timers_whole hst
  exact ⟨st, hst, eq_of_beq hgiven, eq_of_beq hgone, l, fr, hpend, hnums⟩

/-! ## 2^31 timers -/

/-- So many timers added, each with the same callback. -/
theorem manyAdded (n : Nat) : ∃ (st : TimerLog Unit Unit) (l : List (Timed Unit Unit)),
    (timerLogSys ()).Reach OneThread st ∧ st.run.pos = .sleep ∧ st.Ok () l [] ∧ l.length = n ∧
      ∀ x ∈ l, x.2.isOf () () () () := by
  induction n with
  | zero =>
      refine ⟨_, [], Sys.Reach.init rfl, rfl, ⟨pending_init, counted_init, trivial,
        List.Perm.refl _, ?_⟩, rfl, ?_⟩
      · exact fun _ hg => absurd hg List.not_mem_nil
      · exact fun _ hx => absurd hx List.not_mem_nil
  | succ n ih =>
      obtain ⟨st, l, hreach, hpos, hok, rfl, hof⟩ := ih
      have hput := hok.pending.timerPut_pending true 10 (some ())
        (fun d => { d with argn := 2, args := [(), ()], timecon := ZTIMER_CONTAINER_CONSTID })
        (by simp)
      obtain ⟨hfalse, -⟩ | ⟨a, mng', hput, hleads, -⟩ := hput
      · exact nomatch hfalse
      have hadd : zcrtTimerconAdd (some st.run.mng) true ZTIMER_CONTAINER_CONSTID 10 (some ()) () ()
          = .ok (.success, some mng') := by
        rw [timerconAdd_eq, if_neg (by decide), if_neg (by decide), if_neg (by simp)]
        exact hput
      have hno : ∀ job prev, st.run.pos ≠ .loop job prev := by simp [hpos]
      have hgives :
          st.run.gives (.add true ZTIMER_CONTAINER_CONSTID 10 (some ()) () ()) = true := by
        simp [TimerRun.gives, hadd]
      have hat := hok.at_of_leads hno hleads
      have hstep := congrArg st.run.added hadd
      refine ⟨_, _, Sys.Reach.step (l := .add true ZTIMER_CONTAINER_CONSTID 10 (some ()) () ())
        hreach hno (congrArg (Option.map (st.record () _)) hstep), hpos,
        hok.give hgives rfl hleads.pending (hleads.counted hok.counted) hat, ?_, ?_⟩
      · rw [List.length_append, List.length_singleton]
      · intro x hx
        rcases List.mem_append.mp hx with hx | hx
        · exact hof x hx
        · rw [List.mem_singleton.mp hx]
          rfl

/-- Then so many of them deleted. -/
theorem manyDeleted (n k : Nat) : ∃ (st : TimerLog Unit Unit) (l : List (Timed Unit Unit))
    (fr : List Nat), (timerLogSys ()).Reach OneThread st ∧ st.run.pos = .sleep ∧ st.Ok () l fr ∧
      l.length = n ∧ fr.length = k ∧ ∀ x ∈ l, x.2.isOf () () () () := by
  induction k generalizing n with
  | zero =>
      obtain ⟨st, l, hreach, hpos, hok, hlen, hof⟩ := manyAdded n
      exact ⟨st, l, [], hreach, hpos, hok, hlen, rfl, hof⟩
  | succ k ih =>
      obtain ⟨st, l, fr, hreach, hpos, hok, hlen, rfl, hof⟩ := ih (n + 1)
      have hno : ∀ job prev, st.run.pos ≠ .loop job prev := by simp [hpos]
      cases l with
      | nil => exact nomatch hlen
      | cons x l =>
          have hx := hof x List.mem_cons_self
          have hfirst : st.Ok () ([] ++ x :: l) fr := hok
          obtain ⟨run, hrun, hpos', hok'⟩ :=
            hfirst.deleteFirst hno (fun _ hy => absurd hy List.not_mem_nil) hx
          refine ⟨_, l, _, Sys.Reach.step (l := .delete (some ()) () ()) hreach hno
            (congrArg (Option.map (st.record () _)) hrun), hpos'.trans hpos, hok',
            Nat.succ.inj hlen, rfl, fun y hy => hof y (List.mem_cons_of_mem _ hy)⟩

theorem freesize_wraps : ∃ st : TimerLog Unit Unit, (timerLogSys ()).Reach OneThread st ∧
    ∃ l fr, Pending st.run.mng l fr ∧ st.run.mng.freesize.toInt ≠ fr.length := by
  obtain ⟨st, l, fr, hreach, -, hok, -, hlen, -⟩ := manyDeleted 0 (2 ^ 31)
  refine ⟨st, hreach, l, fr, hok.pending, ?_⟩
  rw [hok.counted, hlen]
  decide

end Zcrt
