/-
  What one step does to the timers pending and the free nodes, said once.

  * `Undisturbed`: calls of other threads come at any moment, but for `zcrt_timer_delete`.
  * `TimerMove`: what becomes of the two lists and of the numbers of the timers.
  * `TimerLog.Whole`: each node is in one of the lists, or its callback runs.
  * `TimerLog.Ok.moves`: what every step does.
-/
import Zcrt.Core.TimerWhole

namespace Zcrt

open Lib

variable {F P : Type}

/-- The timers after a turn. -/
def TimerTurn.mng : TimerTurn F P → ZTimer F P
  | .passed mng _ _ => mng
  | .expired mng _ _ => mng

/-! ## The nodes are as many as they were -/

section Length

variable {mng mng' : ZTimer F P}

theorem timerFreeCb_length {job : Nat} (h : zcrtTimerFreeCb mng job = .ok mng') :
    mng'.nodes.length = mng.nodes.length := by
  obtain ⟨⟨job, n⟩, -, h⟩ := except_bind_eq_ok h
  obtain rfl := Except.ok.inj h
  exact List.length_set ..

theorem timerUnhook_length {job : Nat} {prev prev' : Option Nat}
    (h : timerUnhook mng job prev = .ok (mng', prev')) :
    mng'.nodes.length = mng.nodes.length := by
  obtain ⟨⟨job, n⟩, -, h⟩ := except_bind_eq_ok h
  dsimp only at h
  split at h
  · obtain ⟨rfl, -⟩ := Prod.mk.inj (Except.ok.inj h)
    rfl
  · obtain ⟨⟨p, m⟩, -, h⟩ := except_bind_eq_ok h
    obtain ⟨rfl, -⟩ := Prod.mk.inj (Except.ok.inj h)
    exact List.length_set ..

theorem timerFixTail_length {job : Nat} {prev : Option Nat}
    (h : timerFixTail mng job prev = .ok mng') : mng'.nodes.length = mng.nodes.length := by
  obtain ⟨⟨job, n⟩, -, h⟩ := except_bind_eq_ok h
  dsimp only at h
  split at h
  · split at h
    · exact nomatch h
    · obtain rfl := Except.ok.inj h
      rfl
  · obtain rfl := Except.ok.inj h
    rfl

theorem timerUnlink_length {job : Nat} {prev prev' : Option Nat}
    (h : timerUnlink mng job prev = .ok (mng', prev')) :
    mng'.nodes.length = mng.nodes.length := by
  obtain ⟨⟨mng1, prev1⟩, hun, h⟩ := except_bind_eq_ok h
  obtain ⟨mng2, hfix, h⟩ := except_bind_eq_ok h
  obtain ⟨rfl, -⟩ := Prod.mk.inj (Except.ok.inj h)
  exact (timerFixTail_length hfix).trans (timerUnhook_length hun)

theorem timerTurn_length {job : Nat} {prev : Option Nat} {t : TimerTurn F P}
    (h : timerTurn mng job prev = .ok t) : t.mng.nodes.length = mng.nodes.length := by
  obtain ⟨⟨job, n⟩, -, h⟩ := except_bind_eq_ok h
  dsimp only at h
  split at h
  · obtain ⟨⟨mng1, prev1⟩, hun, h⟩ := except_bind_eq_ok h
    obtain ⟨⟨_, n'⟩, -, h⟩ := except_bind_eq_ok h
    dsimp only at h
    split at h
    · exact nomatch h
    · obtain rfl := Except.ok.inj h
      exact timerUnlink_length hun
  · obtain rfl := Except.ok.inj h
    exact List.length_set ..

theorem timerInsertCb_length {job : Nat} (h : zcrtTimerInsertCb mng job = .ok mng') :
    mng'.nodes.length = mng.nodes.length := by
  unfold zcrtTimerInsertCb at h
  split at h
  · split at h
    · exact nomatch h
    · obtain ⟨⟨tail, n⟩, -, h⟩ := except_bind_eq_ok h
      obtain rfl := Except.ok.inj h
      exact List.length_set ..
  · split at h
    · exact nomatch h
    · obtain rfl := Except.ok.inj h
      rfl

/-- A node is allocated exactly if none is free. -/
theorem timerMallocCb_length {l : List (Timed F P)} {fr : List Nat} (hp : Pending mng l fr)
    {mem : Bool} {period : UInt32} {fn : Option F} {job : Nat}
    (h : zcrtTimerMallocCb mng mem period fn = .ok (some job, mng')) :
    mng'.nodes.length + fr.length = mng.nodes.length + 1 + fr.tail.length := by
  have hhead := hp.free.head
  unfold zcrtTimerMallocCb at h
  cases fr with
  | nil =>
      rw [hhead] at h
      cases mem with
      | false => exact nomatch h
      | true =>
          obtain ⟨-, rfl⟩ := Prod.mk.inj (Except.ok.inj h)
          simp
  | cons a fr =>
      rw [hhead] at h
      obtain ⟨⟨job, n⟩, -, h⟩ := except_bind_eq_ok h
      obtain ⟨-, rfl⟩ := Prod.mk.inj (Except.ok.inj h)
      simp [ZTimer.store]
      omega

theorem timerPut_length {l : List (Timed F P)} {fr : List Nat} (hp : Pending mng l fr)
    {mem : Bool} {period : UInt32} {cb : Option F} {set : ZTimerCB F P → ZTimerCB F P}
    (h : timerPut mng mem period cb set = .ok (.success, some mng')) :
    mng'.nodes.length + fr.length = mng.nodes.length + 1 + fr.tail.length := by
  obtain ⟨⟨job, mng1⟩, hmalloc, h⟩ := except_bind_eq_ok h
  cases job with
  | none => exact nomatch h
  | some job =>
      obtain ⟨⟨job1, n⟩, -, h⟩ := except_bind_eq_ok h
      obtain ⟨mng2, hins, h⟩ := except_bind_eq_ok h
      obtain ⟨-, hmng⟩ := Prod.mk.inj (Except.ok.inj h)
      obtain rfl := Option.some.inj hmng
      have hstore : mng2.nodes.length = mng1.nodes.length :=
        (timerInsertCb_length hins).trans (List.length_set ..)
      rw [hstore]
      exact timerMallocCb_length hp hmalloc

end Length

/-! ## What a step does -/

/-- The period a call gives to its timer. -/
def TimerOp.period : TimerOp F P → UInt32
  | .add _ _ period _ _ _ => period
  | .addArgn _ _ period _ _ => period
  | _ => 0

/-- How many nodes the timer thread holds: the one whose callback runs. -/
def TimerPos.held : TimerPos → Nat
  | .calling _ _ => 1
  | _ => 0

/-- Other threads call at any moment, but delete no timer while the loop is at one. -/
def Undisturbed (st : TimerLog F P) : TimerOp F P → Prop
  | .delete .. => ∀ job prev, st.run.pos ≠ .loop job prev
  | _ => True

/-- No timer was added. -/
structure SameNums (st st' : TimerLog F P) : Prop where
  given : st'.given = st.given
  num : st'.num = st.num

/-- The step leads from the timers pending `l` and the free nodes `fr` to those given last. -/
inductive TimerMove (st st' : TimerLog F P) (op : TimerOp F P) (l : List (Timed F P))
    (fr : List Nat) : List (Timed F P) → List Nat → Prop
  | call (hop : op ≠ .finish) (hpos : st'.run.pos = st.run.pos) (hnums : SameNums st st') :
      TimerMove st st' op l fr l fr
  | added (hop : op ≠ .finish) (x : Timed F P) (hpos : st'.run.pos = st.run.pos)
      (hleft : x.2.left = op.period) (hgiven : st'.given = st.given + 1)
      (hnum : st'.num x.1 = st.given) (hold : ∀ y ∈ l, st'.num y.1 = st.num y.1) :
      TimerMove st st' op l fr (l ++ [x]) fr.tail
  | deleted (hop : op ≠ .finish) (pre r : List (Timed F P)) (x : Timed F P) (hl : l = pre ++ x :: r)
      (hloop : ∀ job prev, st.run.pos ≠ .loop job prev) (hpos : st'.run.pos = st.run.pos)
      (hnums : SameNums st st') : TimerMove st st' op l fr (pre ++ r) (x.1 :: fr)
  | began (hop : op ≠ .finish) (prev : Option Nat) (hpos : st.run.pos = .sleep)
      (hpos' : st'.run.pos = .loop (l.map Prod.fst).head? prev) (hnums : SameNums st st') :
      TimerMove st st' op l fr l fr
  | passed (hop : op ≠ .finish) (pre r : List (Timed F P)) (x : Timed F P) (prev : Option Nat)
      (hl : l = pre ++ x :: r) (hx : x.due = false) (hpos : st.run.pos = .loop (some x.1) prev)
      (hpos' : st'.run.pos = .loop (r.map Prod.fst).head? (some x.1)) (hnums : SameNums st st') :
      TimerMove st st' op l fr (pre ++ x.tick :: r) fr
  | expired (hop : op ≠ .finish) (pre r : List (Timed F P)) (x : Timed F P)
      (prev prev' : Option Nat) (hl : l = pre ++ x :: r) (hpos : st.run.pos = .loop (some x.1) prev)
      (hpos' : st'.run.pos = .calling x.1 prev') (hnums : SameNums st st') :
      TimerMove st st' op l fr (pre ++ r) fr
  | back (hop : op ≠ .finish) (job : Nat) (prev : Option Nat)
      (hpos : st.run.pos = .calling job prev)
      (hpos' : st'.run.pos = .loop (l.map Prod.fst).head? prev) (hnums : SameNums st st') :
      TimerMove st st' op l fr l (job :: fr)
  | finished (prev : Option Nat) (hpos : st.run.pos = .loop none prev)
      (hpos' : st'.run.pos = .sleep) (hnums : SameNums st st') : TimerMove st st' op l fr l fr

/-- Each node is pending, or free, or its callback runs. -/
def TimerLog.Whole (st : TimerLog F P) (l : List (Timed F P)) (fr : List Nat) : Prop :=
  st.run.mng.nodes.length = l.length + fr.length + st.run.pos.held

namespace TimerLog.Ok

variable [DecidableEq F] [DecidableEq P] {null : P} {st st' : TimerLog F P}
  {l l' : List (Timed F P)} {fr fr' : List Nat} {op : TimerOp F P} {run : TimerRun F P}

/-- What a step comes to, with the lists. -/
structure Moves (null : P) (st : TimerLog F P) (op : TimerOp F P) (l : List (Timed F P))
    (fr : List Nat) (st' : TimerLog F P) (l' : List (Timed F P)) (fr' : List Nat) : Prop where
  ok : st'.Ok null l' fr'
  move : TimerMove st st' op l fr l' fr'
  whole : st.Whole l fr → st'.Whole l' fr'

theorem sameNums (hgives : st.run.gives op = false) : SameNums st (st.record null op run) := by
  constructor
  · simp [record, hgives]
  · funext a
    simp [record, hgives]

/-- The place of the thread, where a call leaves the timers pending as they are or puts one behind
    them. -/
theorem at_of_call (h : st.Ok null l fr) {mng' : ZTimer F P} {s : List (Timed F P)}
    (hl : Leads st.run.mng l fr mng' (l ++ s) fr') : st.run.pos.At mng' (l ++ s) fr' :=
  h.pos.mono hl.loose

/-- A call that changes no more than the containers. -/
theorem moves_call (h : st.Ok null l fr) (hop : op ≠ .finish)
    (hgives : st.run.gives op = false) (htakes : st.run.takes null op = none)
    (hpos : run.pos = st.run.pos) (hlen : run.mng.nodes.length = st.run.mng.nodes.length)
    (hl : Leads st.run.mng l fr run.mng l fr) :
    Moves null st op l fr (st.record null op run) l fr := by
  refine ⟨h.keep hgives htakes hl.pending (hl.counted h.counted) ?_ rfl,
    .call hop hpos (sameNums hgives), fun hw => ?_⟩
  · rw [hpos]
    exact h.pos.congr hl.loose
  · change run.mng.nodes.length = l.length + fr.length + run.pos.held
    rw [hlen, hpos]
    exact hw

/-- A call that adds a timer, or fails. -/
theorem moves_adds (h : st.Ok null l fr) (hop : op ≠ .finish)
    {x : Except Fault (EZCRTErr × Option (ZTimer F P))}
    (mem : Bool) (cb : Option F) (set : ZTimerCB F P → ZTimerCB F P)
    (hset : (set ⟨op.period, cb, 0, 0, []⟩).fn = cb ∧
      (set ⟨op.period, cb, 0, 0, []⟩).left = op.period)
    (hx : (∃ ret, ret ≠ .success ∧ x = .ok (ret, some st.run.mng)) ∨
      cb ≠ none ∧ x = timerPut st.run.mng mem op.period cb set)
    (hgives : ∀ ret mng', x = .ok (ret, some mng') → st.run.gives op = decide (ret = .success))
    (htakes : st.run.takes null op = none) (hrun : st.run.added x = some run) :
    ∃ l' fr', Moves null st op l fr (st.record null op run) l' fr' := by
  have hfail : ∀ ret : EZCRTErr, ret ≠ .success → x = .ok (ret, some st.run.mng) →
      ∃ l' fr', Moves null st op l fr (st.record null op run) l' fr' := by
    intro ret hret he
    have hno := hgives ret _ he
    rw [decide_eq_false hret] at hno
    rw [he] at hrun
    obtain rfl := Option.some.inj hrun
    exact ⟨l, fr, h.moves_call hop hno htakes rfl rfl h.pending.leads⟩
  rcases hx with ⟨ret, hret, he⟩ | ⟨hcb, he⟩
  · exact hfail ret hret he
  · have hfn : (set ⟨op.period, cb, 0, 0, []⟩).fn ≠ none := by
      rw [hset.1]
      exact hcb
    rcases h.pending.timerPut_pending mem op.period cb set hfn with
      ⟨-, hno⟩ | ⟨a, mng', hput, hl, -⟩
    · exact hfail .noMem (by decide) (he.trans hno)
    · have hok := he.trans hput
      have hyes := hgives .success _ hok
      rw [decide_eq_true rfl] at hyes
      rw [hok] at hrun
      obtain ⟨rfl, hpos⟩ : run.mng = mng' ∧ run.pos = st.run.pos := by
        obtain rfl := Option.some.inj hrun
        exact ⟨rfl, rfl⟩
      have hat := h.at_of_call hl
      rw [← hpos] at hat
      have hgive := h.give hyes htakes hl.pending (hl.counted h.counted) hat
      have hlen := timerPut_length h.pending hput
      have hnd := hl.pending.nodup
      rw [List.map_append, List.nodup_append] at hnd
      have htail : run.mng.tail = some a := by
        rw [hl.pending.tail]
        simp
      refine ⟨_, _, hgive, .added hop _ hpos hset.2 ?_ ?_ ?_, fun hw => ?_⟩
      · simp [record, hyes]
      · simp [record, hyes, htail]
      · intro y hy
        have hne : a ≠ y.1 := fun he =>
          hnd.2.2 y.1 (List.mem_map_of_mem hy) a (by simp) he.symm
        simp [record, htail, hne]
      · change run.mng.nodes.length = _ + _ + run.pos.held
        have hw : st.run.mng.nodes.length = l.length + fr.length + st.run.pos.held := hw
        rw [List.length_append, List.length_singleton, hpos]
        omega

/-! ## The calls -/

theorem moves_containerNew (h : st.Ok null l fr)
    (hrun : st.run.step null .containerNew = some run) :
    ∃ l' fr', Moves null st .containerNew l fr (st.record null .containerNew run) l' fr' := by
  change st.run.containerNewStep = _ at hrun
  unfold TimerRun.containerNewStep at hrun
  split at hrun
  · rename_i c mng' hnew
    obtain rfl := Option.some.inj hrun
    have hlen : mng'.nodes.length = st.run.mng.nodes.length := by
      rcases containerNew_firstFree hnew with rfl | ⟨-, i, rfl⟩ <;> rfl
    exact ⟨l, fr, h.moves_call nofun rfl rfl rfl hlen (h.pending.containerNew_leads hnew)⟩
  · exact nomatch hrun

theorem moves_containerDelete (h : st.Ok null l fr) {c : UInt16}
    (hrun : st.run.step null (.containerDelete c) = some run) :
    ∃ l' fr', Moves null st (.containerDelete c) l fr (st.record null (.containerDelete c) run)
      l' fr' := by
  obtain ⟨mng', hdel, hl⟩ := h.pending.containerDelete_leads c
  change st.run.containerDeleteStep c = _ at hrun
  unfold TimerRun.containerDeleteStep at hrun
  rw [hdel] at hrun
  obtain rfl := Option.some.inj hrun
  have hlen : mng'.nodes.length = st.run.mng.nodes.length := by
    rcases containerDelete_cases hdel with ⟨rfl, -⟩ | rfl <;> rfl
  exact ⟨l, fr, h.moves_call nofun rfl rfl rfl hlen hl⟩

theorem moves_add (h : st.Ok null l fr) {mem : Bool} {c : UInt16} {period : UInt32}
    {cb : Option F} {p1 p2 : P} (hrun : st.run.step null (.add mem c period cb p1 p2) = some run) :
    ∃ l' fr', Moves null st (.add mem c period cb p1 p2) l fr
      (st.record null (.add mem c period cb p1 p2) run) l' fr' := by
  refine h.moves_adds (by simp) mem cb
    (fun d => { d with argn := 2, args := [p1, p2], timecon := c }) ⟨rfl, rfl⟩ ?_
    (fun ret mng' he => ?_) rfl hrun
  · rw [timerconAdd_eq]
    split
    · exact Or.inl ⟨_, by decide, rfl⟩
    split
    · exact Or.inl ⟨_, by decide, rfl⟩
    rename_i hcb
    split
    · exact Or.inl ⟨_, by decide, rfl⟩
    · exact Or.inr ⟨fun he => hcb (Option.isNone_iff_eq_none.mpr he), rfl⟩
  · simp [TimerRun.gives, he]

theorem moves_addArgn (h : st.Ok null l fr) {mem : Bool} {c : UInt16} {period : UInt32}
    {cb : Option F} {args : List P}
    (hrun : st.run.step null (.addArgn mem c period cb args) = some run) :
    ∃ l' fr', Moves null st (.addArgn mem c period cb args) l fr
      (st.record null (.addArgn mem c period cb args) run) l' fr' := by
  refine h.moves_adds (by simp) mem cb
    (fun d => { d with argn := UInt32.ofNat args.length, args := args }) ⟨rfl, rfl⟩ ?_
    (fun ret mng' he => ?_) rfl hrun
  · rw [timerconAddArgn_eq]
    split
    · exact Or.inl ⟨_, by decide, rfl⟩
    split
    · exact Or.inl ⟨_, by decide, rfl⟩
    rename_i hcb
    split
    · exact Or.inl ⟨_, by decide, rfl⟩
    · exact Or.inr ⟨fun he => hcb (Or.inl (Option.isNone_iff_eq_none.mpr he)), rfl⟩
  · simp [TimerRun.gives, he]

theorem moves_delete (h : st.Ok null l fr) {cb : Option F} {p1 p2 : P}
    (hpos : ∀ job prev, st.run.pos ≠ .loop job prev)
    (hrun : st.run.step null (.delete cb p1 p2) = some run) :
    ∃ l' fr', Moves null st (.delete cb p1 p2) l fr (st.record null (.delete cb p1 p2) run)
      l' fr' := by
  cases cb with
  | none =>
      obtain rfl := Option.some.inj hrun
      exact ⟨l, fr, h.moves_call (by simp) rfl rfl rfl rfl h.pending.leads⟩
  | some cb =>
      change st.run.deleteStep null (some cb) p1 p2 = _ at hrun
      unfold TimerRun.deleteStep at hrun
      rcases firstOf_cases l null cb p1 p2 with hno | ⟨pre, x, r, rfl, hno, hx, -⟩
      · have htake := h.pending.timerTake_none hno
        have htakes : st.run.takes null (.delete (some cb) p1 p2) = none := by
          simp [TimerRun.takes, htake]
        rw [h.pending.timerDelete_none hno] at hrun
        obtain rfl := Option.some.inj hrun
        exact ⟨l, fr, h.moves_call (by simp) rfl htakes rfl rfl h.pending.leads⟩
      · obtain ⟨m, mng', htake, hdel, hl⟩ := h.pending.timerDelete_leads hno hx
        have htakes : st.run.takes null (.delete (some cb) p1 p2) = some x.1 := by
          simp [TimerRun.takes, htake]
        have hlen : mng'.nodes.length = st.run.mng.nodes.length := by
          have hsame := h.pending.timerTake_unlink hno hx
          rw [htake] at hsame
          obtain ⟨⟨m', prev⟩, hun, hm⟩ := except_map_eq_ok hsame.symm
          obtain rfl : m' = m := (Prod.mk.inj hm).2
          unfold zcrtTimerDelete at hdel
          dsimp only at hdel
          rw [htake, except_ok_bind] at hdel
          obtain ⟨mng2, hfree, hdel⟩ := except_bind_eq_ok hdel
          obtain ⟨-, hmng⟩ := Prod.mk.inj (Except.ok.inj hdel)
          obtain rfl := Option.some.inj hmng
          exact (timerFreeCb_length hfree).trans (timerUnlink_length hun)
        rw [hdel] at hrun
        obtain rfl := Option.some.inj hrun
        have hat := h.at_of_leads hpos hl
        refine ⟨pre ++ r, x.1 :: fr, h.take rfl htakes hl.pending (hl.counted h.counted) hat
          (Or.inr ⟨cb, p1, p2, rfl, hx⟩), .deleted (by simp) pre r x rfl hpos rfl (sameNums rfl),
          fun hw => ?_⟩
        have hw : st.run.mng.nodes.length = (pre ++ x :: r).length + fr.length + st.run.pos.held :=
          hw
        change mng'.nodes.length = (pre ++ r).length + (x.1 :: fr).length + st.run.pos.held
        simp only [List.length_append, List.length_cons] at hw ⊢
        omega

/-! ## The timer thread -/

theorem moves_turn (h : st.Ok null l fr) (hrun : st.run.step null .turn = some run) :
    ∃ l' fr', Moves null st .turn l fr (st.record null .turn run) l' fr' := by
  change st.run.turnStep = _ at hrun
  unfold TimerRun.turnStep at hrun
  split at hrun
  · rename_i job prev hpos
    have hat := h.pos
    rw [hpos] at hat
    obtain ⟨pre, x, r, rfl, rfl, hprev⟩ := hat
    by_cases hx : x.due = true
    · -- taken out
      obtain ⟨mng', prev', n, hturn, hout⟩ := h.pending.timerTurn_expired hprev hx
      have htakes : st.run.takes null .turn = some x.1 := by
        simp [TimerRun.takes, hpos, hturn]
      have hlen : mng'.nodes.length = st.run.mng.nodes.length := timerTurn_length hturn
      rw [hturn] at hrun
      obtain rfl := Option.some.inj hrun
      refine ⟨pre ++ r, fr, h.take rfl htakes hout.leads.pending (hout.leads.counted h.counted)
        ⟨n, hout.node⟩ (Or.inl ⟨rfl, of_decide_eq_true hx⟩),
        .expired (by simp) pre r x prev prev' rfl hpos rfl (sameNums rfl), fun hw => ?_⟩
      have hw : st.run.mng.nodes.length = (pre ++ x :: r).length + fr.length + st.run.pos.held := hw
      rw [hpos] at hw
      change mng'.nodes.length = (pre ++ r).length + fr.length + 1
      simp only [List.length_append, List.length_cons, TimerPos.held] at hw ⊢
      omega
    · -- charged
      have hxf : x.due = false := Bool.eq_false_iff.mpr hx
      obtain ⟨mng', hturn, hleads, -⟩ := h.pending.timerTurn_passed prev hxf
      have htakes : st.run.takes null .turn = none := by
        simp [TimerRun.takes, hpos, hturn]
      have hlen : mng'.nodes.length = st.run.mng.nodes.length := timerTurn_length hturn
      rw [hturn] at hrun
      obtain rfl := Option.some.inj hrun
      refine ⟨pre ++ x.tick :: r, fr, h.keep rfl htakes hleads.pending (hleads.counted h.counted)
        (TimerPos.At.next pre x r) ?_,
        .passed (by simp) pre r x prev rfl hxf hpos rfl (sameNums rfl), fun hw => ?_⟩
      · rw [List.map_append, List.map_append]
        rfl
      · have hw : st.run.mng.nodes.length = (pre ++ x :: r).length + fr.length + st.run.pos.held :=
          hw
        rw [hpos] at hw
        change mng'.nodes.length = (pre ++ x.tick :: r).length + fr.length + 0
        simp only [List.length_append, List.length_cons, TimerPos.held] at hw ⊢
        omega
  · cases hrun

theorem moves_back (h : st.Ok null l fr) (hrun : st.run.step null .back = some run) :
    ∃ l' fr', Moves null st .back l fr (st.record null .back run) l' fr' := by
  change st.run.backStep = _ at hrun
  unfold TimerRun.backStep at hrun
  split at hrun
  · rename_i job prev hpos
    have hat := h.pos
    rw [hpos] at hat
    obtain ⟨n, hn⟩ := hat
    obtain ⟨mng', hfree, hgiven⟩ := h.pending.freeCb_pending hn
    have hlen := timerFreeCb_length hfree
    rw [hfree] at hrun
    obtain rfl := Option.some.inj hrun
    refine ⟨l, job :: fr, h.keep rfl rfl hgiven.pending (hgiven.counted h.counted)
      (hgiven.pending.at_head prev) rfl, .back (by simp) job prev hpos ?_ (sameNums rfl),
      fun hw => ?_⟩
    · change TimerPos.loop mng'.job prev = _
      rw [hgiven.pending.seg.head]
    · have hw : st.run.mng.nodes.length = l.length + fr.length + st.run.pos.held := hw
      rw [hpos] at hw
      change mng'.nodes.length = l.length + (job :: fr).length + 0
      simp only [List.length_cons, TimerPos.held] at hw ⊢
      omega
  · cases hrun

theorem moves_begin (h : st.Ok null l fr) (hrun : st.run.step null .begin = some run) :
    ∃ l' fr', Moves null st .begin l fr (st.record null .begin run) l' fr' := by
  change st.run.beginStep = _ at hrun
  unfold TimerRun.beginStep at hrun
  split at hrun
  · rename_i hpos
    obtain rfl := Option.some.inj hrun
    refine ⟨l, fr, h.keep rfl rfl h.pending h.counted (h.pending.at_head _) rfl,
      .began (by simp) st.run.mng.job hpos ?_ (sameNums rfl), fun hw => ?_⟩
    · change TimerPos.loop st.run.mng.job st.run.mng.job = _
      rw [h.pending.seg.head]
    · have hw : st.run.mng.nodes.length = l.length + fr.length + st.run.pos.held := hw
      rw [hpos] at hw
      exact hw
  · cases hrun

theorem moves_finish (h : st.Ok null l fr) (hrun : st.run.step null .finish = some run) :
    ∃ l' fr', Moves null st .finish l fr (st.record null .finish run) l' fr' := by
  change st.run.finishStep = _ at hrun
  unfold TimerRun.finishStep at hrun
  split at hrun
  · rename_i prev hpos
    obtain rfl := Option.some.inj hrun
    refine ⟨l, fr, h.keep rfl rfl h.pending h.counted trivial rfl,
      .finished prev hpos rfl (sameNums rfl), fun hw => ?_⟩
    have hw : st.run.mng.nodes.length = l.length + fr.length + st.run.pos.held := hw
    rw [hpos] at hw
    exact hw
  · cases hrun

/-- What every step does. -/
theorem moves (h : st.Ok null l fr) (hc : Undisturbed st op) (hs : st.step null op = some st') :
    ∃ l' fr', Moves null st op l fr st' l' fr' := by
  obtain ⟨run, hrun, rfl⟩ := Option.map_eq_some_iff.mp hs
  cases op with
  | containerNew => exact h.moves_containerNew hrun
  | containerDelete c => exact h.moves_containerDelete hrun
  | add mem c period cb p1 p2 => exact h.moves_add hrun
  | addArgn mem c period cb args => exact h.moves_addArgn hrun
  | delete cb p1 p2 => exact h.moves_delete hc hrun
  | begin => exact h.moves_begin hrun
  | turn => exact h.moves_turn hrun
  | back => exact h.moves_back hrun
  | finish => exact h.moves_finish hrun

end TimerLog.Ok

end Zcrt
