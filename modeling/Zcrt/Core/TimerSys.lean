/-
  The modules and the timer thread, step by step: a call of a module comes between any two turns of
  the inner loop of `_zcrt_timer_proc`, and while a callback runs.

  * `TimerState`: the timers, the place of the timer thread, and what was called.
  * `timerSys`: the steps.
  * `timer_cancelled`: when a container deleted keeps its timers from being called.
  * `timer_neverFaults`: no call and no turn ends in a fault.
-/
import Zcrt.Lib.Steps
import Zcrt.Core.TimerList

namespace Zcrt

open Lib

variable {F P : Type}

/-- Where the timer thread is: between two passes, at a timer, or before the callback is back. -/
inductive TimerPos
  | sleep
  | loop (job prev : Option Nat)
  | calling (job : Nat) (prev : Option Nat)

/-- The timers, and two records of what happened: `cancelled`, that the timer at an address was
    added under a container that `zcrt_timer_container_delete` has been called with since; `calls`,
    the timers called, and if they were cancelled then. -/
structure TimerState (F P : Type) where
  mng : ZTimer F P
  pos : TimerPos
  cancelled : Nat → Bool
  calls : List (Nat × Bool)

inductive TimerAct (F P : Type)
  | new
  | delete (containerId : UInt16)
  | add (mem : Bool) (containerId : UInt16) (period : UInt32) (cb : Option F) (p1 p2 : P)
  | begin
  | turn
  | back
  | finish

namespace TimerState

variable (st : TimerState F P)

def newStep : Option (TimerState F P) :=
  match zcrtTimerContainerNew (some st.mng) with
  | .ok (_, some mng) => some { st with mng := mng }
  | _ => none

/-- Each timer of the container is recorded as cancelled, also where the call does nothing. -/
def deleteStep (c : UInt16) : Option (TimerState F P) :=
  (zcrtTimerContainerDelete (some st.mng) c).map fun mng =>
    { st with
      mng := mng
      cancelled := fun a =>
        st.cancelled a || (Nodes.dataOf st.mng.nodes a).any fun d => d.timecon = c }

/-- The timer added is the last one, and is not cancelled. -/
def addStep (mem : Bool) (c : UInt16) (period : UInt32) (cb : Option F) (p1 p2 : P) :
    Option (TimerState F P) :=
  match zcrtTimerconAdd (some st.mng) mem c period cb p1 p2 with
  | .ok (ret, some mng) =>
      some { st with
             mng := mng
             cancelled := fun a => st.cancelled a && !(ret = .success && mng.tail = some a) }
  | _ => none

def beginStep : Option (TimerState F P) :=
  match st.pos with
  | .sleep => some { st with pos := .loop st.mng.job st.mng.job }
  | _ => none

def turnStep : Option (TimerState F P) :=
  match st.pos with
  | .loop (some job) prev =>
      match timerTurn st.mng job prev with
      | .ok (.passed mng job prev) => some { st with mng := mng, pos := .loop job prev }
      | .ok (.expired mng prev called) =>
          some { st with
                 mng := mng
                 pos := .calling job prev
                 calls := if called then st.calls ++ [(job, st.cancelled job)] else st.calls }
      | .error _ => none
  | _ => none

def backStep : Option (TimerState F P) :=
  match st.pos with
  | .calling job prev =>
      match zcrtTimerFreeCb st.mng job with
      | .ok mng => some { st with mng := mng, pos := .loop mng.job prev }
      | .error _ => none
  | _ => none

def finishStep : Option (TimerState F P) :=
  match st.pos with
  | .loop none _ => some { st with pos := .sleep }
  | _ => none

def step : TimerAct F P → Option (TimerState F P)
  | .new => st.newStep
  | .delete c => st.deleteStep c
  | .add mem c period cb p1 p2 => st.addStep mem c period cb p1 p2
  | .begin => st.beginStep
  | .turn => st.turnStep
  | .back => st.backStep
  | .finish => st.finishStep

end TimerState

def timerSys : Sys (TimerState F P) (TimerAct F P) where
  init st := st =
    { mng := zcrtTimerManageInit, pos := .sleep, cancelled := fun _ => false, calls := [] }
  next := TimerState.step

/-! ## The next container -/

/-- `c` is the first container not in use, from the one of `conlastid` on. -/
def ZTimer.FirstFree (mng : ZTimer F P) (c : UInt16) : Prop :=
  ∃ k : Nat, c = (mng.conlastid + UInt16.ofNat k) % UInt16.ofNat ZTIMER_CONTAINER_MAX ∧
    c ≠ ZTIMER_INVALID_CONTAINER ∧ mng.container c = 0 ∧
    ∀ j < k, (mng.conlastid + UInt16.ofNat j) % UInt16.ofNat ZTIMER_CONTAINER_MAX =
        ZTIMER_INVALID_CONTAINER ∨
      mng.container ((mng.conlastid + UInt16.ofNat j) % UInt16.ofNat ZTIMER_CONTAINER_MAX) ≠ 0

theorem containerLoop_firstFree {container : UInt16 → UInt8} {last i : UInt16} {fuel : Nat}
    {idx i' : UInt16} (h : containerLoop container last fuel i = .ok (some (idx, i'))) :
    ∃ k : Nat, i' = i + UInt16.ofNat k ∧
      idx = (i + UInt16.ofNat k) % UInt16.ofNat ZTIMER_CONTAINER_MAX ∧
      idx ≠ ZTIMER_INVALID_CONTAINER ∧ container idx = 0 ∧
      ∀ j < k, (i + UInt16.ofNat j) % UInt16.ofNat ZTIMER_CONTAINER_MAX =
          ZTIMER_INVALID_CONTAINER ∨
        container ((i + UInt16.ofNat j) % UInt16.ofNat ZTIMER_CONTAINER_MAX) ≠ 0 := by
  have hzero : ∀ i : UInt16, i + UInt16.ofNat 0 = i := UInt16.add_zero
  induction fuel generalizing i with
  | zero => exact nomatch h
  | succ fuel ih =>
      rw [containerLoop] at h
      split at h
      · dsimp only at h
        split at h
        · rename_i hfree
          obtain ⟨rfl, rfl⟩ := Prod.mk.inj (Option.some.inj (Except.ok.inj h))
          exact ⟨0, (hzero i).symm, by rw [hzero], hfree.1,
            hfree.2, fun j hj => absurd hj (Nat.not_lt_zero j)⟩
        · rename_i hused
          obtain ⟨k, hi', hidx, hne, hfree, hbefore⟩ := ih h
          have hshift : ∀ j, i + 1 + UInt16.ofNat j = i + UInt16.ofNat (j + 1) := fun j => by
            rw [UInt16.ofNat_add, UInt16.add_assoc, UInt16.add_comm 1]
            rfl
          refine ⟨k + 1, by rw [hi', hshift], by rw [hidx, hshift], hne, hfree, fun j hj => ?_⟩
          cases j with
          | zero =>
              rw [hzero]
              by_cases hz : i % UInt16.ofNat ZTIMER_CONTAINER_MAX = ZTIMER_INVALID_CONTAINER
              · exact Or.inl hz
              · exact Or.inr fun hc => hused ⟨hz, hc⟩
          | succ j =>
              rw [← hshift]
              exact hbefore j (by omega)
      · exact nomatch h

/-- `zcrt_timer_container_new` takes the first container not in use. -/
theorem containerNew_firstFree {mng mng' : ZTimer F P} {c : UInt16}
    (h : zcrtTimerContainerNew (some mng) = .ok (c, some mng')) :
    mng' = mng ∨ mng.FirstFree c ∧ ∃ i, mng' =
      { mng with container := Function.update mng.container c 1, conlastid := i } := by
  obtain ⟨r, hr, h⟩ := except_bind_eq_ok h
  cases r with
  | none =>
      obtain ⟨-, he⟩ := Prod.mk.inj (Except.ok.inj h)
      exact Or.inl (Option.some.inj he).symm
  | some r =>
      obtain ⟨rfl, he⟩ := Prod.mk.inj (Except.ok.inj h)
      obtain rfl := Option.some.inj he
      obtain ⟨k, -, hidx, hne, hfree, hbefore⟩ := containerLoop_firstFree hr
      exact Or.inr ⟨⟨k, hidx, hne, hfree, hbefore⟩, r.2, rfl⟩

theorem containerDelete_cases {mng mng' : ZTimer F P} {c : UInt16}
    (h : zcrtTimerContainerDelete (some mng) c = some mng') :
    mng' = mng ∧ (¬ztimerIsValidContainerId c ∨ c = ZTIMER_CONTAINER_CONSTID) ∨
      mng' = { mng with container := Function.update mng.container c 0 } := by
  unfold zcrtTimerContainerDelete at h
  dsimp only at h
  split at h
  · rename_i hno
    exact Or.inl ⟨(Option.some.inj h).symm, hno⟩
  · exact Or.inr (Option.some.inj h).symm

/-! ## The thread and the list -/

/-- The place of the thread in the list: the timer it is at, or the node it took out. -/
def TimerPos.At (mng : ZTimer F P) (l : List (Timed F P)) (fr : List Nat) : TimerPos → Prop
  | .sleep => True
  | .loop none _ => True
  | .loop (some job) prev => ∃ (pre : List (Timed F P)) (x : Timed F P) (rest : List (Timed F P)),
      l = pre ++ x :: rest ∧ x.1 = job ∧ (pre ≠ [] → prev = (pre.map Prod.fst).getLast?)
  | .calling job _ => ∃ n, Loose mng l fr job n

theorem TimerPos.At.mono {mng mng' : ZTimer F P} {l s : List (Timed F P)} {fr fr' : List Nat}
    {pos : TimerPos} (h : pos.At mng l fr)
    (hloose : ∀ b n, Loose mng l fr b n → Loose mng' (l ++ s) fr' b n) :
    pos.At mng' (l ++ s) fr' := by
  match pos with
  | .sleep => trivial
  | .loop none _ => trivial
  | .loop (some job) prev =>
      obtain ⟨pre, x, rest, rfl, hx, hprev⟩ := h
      exact ⟨pre, x, rest ++ s, List.append_assoc .., hx, hprev⟩
  | .calling job _ =>
      obtain ⟨n, hn⟩ := h
      exact ⟨n, hloose job n hn⟩

theorem TimerPos.At.congr {mng mng' : ZTimer F P} {l : List (Timed F P)} {fr fr' : List Nat}
    {pos : TimerPos} (h : pos.At mng l fr)
    (hloose : ∀ b n, Loose mng l fr b n → Loose mng' l fr' b n) : pos.At mng' l fr' := by
  rw [← List.append_nil l] at hloose ⊢
  refine h.mono fun b n hb => ?_
  rw [← List.append_nil l] at hb
  exact hloose b n hb

/-- The first timer. -/
theorem Pending.at_head {mng : ZTimer F P} {l : List (Timed F P)} {fr : List Nat}
    (h : Pending mng l fr) (prev : Option Nat) : (TimerPos.loop mng.job prev).At mng l fr := by
  rw [h.seg.head]
  cases l with
  | nil => trivial
  | cons x l => exact ⟨[], x, l, rfl, rfl, fun he => absurd rfl he⟩

/-- The place behind the timer `x`, once that is charged. -/
theorem TimerPos.At.next {mng : ZTimer F P} {fr : List Nat} (pre : List (Timed F P))
    (x : Timed F P) (r : List (Timed F P)) :
    (TimerPos.loop (r.map Prod.fst).head? (some x.1)).At mng (pre ++ x.tick :: r) fr := by
  cases r with
  | nil => trivial
  | cons z r =>
      refine ⟨pre ++ [x.tick], z, r, ?_, rfl, fun _ => ?_⟩
      · rw [List.append_assoc]
        rfl
      · simp [Timed.tick]

/-- The timers pending are `l`, each of a container that can be, and the thread is at one of
    them. -/
structure TimerOk (st : TimerState F P) (l : List (Timed F P)) (fr : List Nat) : Prop where
  pending : Pending st.mng l fr
  valid : ∀ x ∈ l, ztimerIsValidContainerId x.2.timecon
  pos : st.pos.At st.mng l fr

/-- The containers of the cancelled timers are not in use, and no cancelled timer was called. -/
structure Clean (st : TimerState F P) (l : List (Timed F P)) : Prop where
  gone : ∀ x ∈ l, st.cancelled x.1 = true →
    x.2.timecon ≠ ZTIMER_CONTAINER_CONSTID ∧ st.mng.container x.2.timecon = 0
  calls : ∀ p ∈ st.calls, p.2 = false

/-- What is asked of the calls: `zcrt_timer_container_new` does not come to the container of a
    cancelled timer that is pending, and no timer of the constant container is pending when
    `zcrt_timer_container_delete` is called with that. -/
def ReusesNone (st : TimerState F P) : TimerAct F P → Prop
  | .new => ∀ l fr, Pending st.mng l fr → ∀ x ∈ l, st.cancelled x.1 = true →
      ¬st.mng.FirstFree x.2.timecon
  | .delete c => c = ZTIMER_CONTAINER_CONSTID → ∀ l fr, Pending st.mng l fr →
      ∀ x ∈ l, x.2.timecon ≠ ZTIMER_CONTAINER_CONSTID
  | _ => True

/-! ## Steps -/

/-- What a step comes to. -/
def Goes (st st' : TimerState F P) (a : TimerAct F P) (l : List (Timed F P)) : Prop :=
  ∃ l' fr', TimerOk st' l' fr' ∧ (ReusesNone st a → Clean st l → Clean st' l')

variable {st st' : TimerState F P} {l : List (Timed F P)} {fr : List Nat}

/-- A step that changes no more than the containers and the record of the cancelled. -/
theorem TimerOk.of_containers (h : TimerOk st l fr) {a : TimerAct F P}
    {container : UInt16 → UInt8} {i : UInt16} {cancelled : Nat → Bool}
    (hgone : ReusesNone st a → Clean st l → ∀ x ∈ l, cancelled x.1 = true →
      x.2.timecon ≠ ZTIMER_CONTAINER_CONSTID ∧ container x.2.timecon = 0) :
    Goes st { st with mng := { st.mng with container := container, conlastid := i }
                      cancelled := cancelled } a l := by
  refine ⟨l, fr, ⟨h.pending.of_containers rfl rfl rfl rfl, h.valid, ?_⟩,
    fun hk hc => ⟨hgone hk hc, hc.calls⟩⟩
  exact h.pos.congr fun b n hb => ⟨hb.node, hb.list, hb.free⟩

theorem TimerOk.newStep (h : TimerOk st l fr) (hs : st.newStep = some st') :
    Goes st st' .new l := by
  unfold TimerState.newStep at hs
  split at hs
  · rename_i c mng hnew
    obtain rfl := Option.some.inj hs
    rcases containerNew_firstFree hnew with rfl | ⟨hfree, i, rfl⟩
    · exact ⟨l, fr, ⟨h.pending, h.valid, h.pos⟩, fun _ hc => ⟨hc.gone, hc.calls⟩⟩
    · refine h.of_containers fun hk hc x hx hcan => ?_
      obtain ⟨hconst, hzero⟩ := hc.gone x hx hcan
      have hother : x.2.timecon ≠ c := by
        intro he
        exact hk l fr h.pending x hx hcan (by rw [he]; exact hfree)
      exact ⟨hconst, (Function.update_of_ne hother ..).trans hzero⟩
  · exact nomatch hs

theorem TimerOk.deleteStep (h : TimerOk st l fr) {c : UInt16} (hs : st.deleteStep c = some st') :
    Goes st st' (.delete c) l := by
  obtain ⟨mng, hdel, rfl⟩ := Option.map_eq_some_iff.mp hs
  -- a timer recorded now is of the container `c`
  have hcase : ∀ x ∈ l, (st.cancelled x.1 ||
      (Nodes.dataOf st.mng.nodes x.1).any fun d => decide (d.timecon = c)) = true →
      st.cancelled x.1 = true ∨ x.2.timecon = c := fun x hx hcan => by
    rw [h.pending.data x hx] at hcan
    rcases Bool.or_eq_true_iff.mp hcan with hcan | hcan
    · exact Or.inl hcan
    · exact Or.inr (of_decide_eq_true hcan)
  rcases containerDelete_cases hdel with ⟨rfl, hno⟩ | rfl
  · refine h.of_containers fun hk hc x hx hcan => ?_
    rcases hcase x hx hcan with hcan | rfl
    · exact hc.gone x hx hcan
    · rcases hno with hno | hconst
      · exact absurd (h.valid x hx) hno
      · exact absurd hconst (hk hconst l fr h.pending x hx)
  · refine h.of_containers fun hk hc x hx hcan => ?_
    rcases hcase x hx hcan with hcan | rfl
    · obtain ⟨hconst, hzero⟩ := hc.gone x hx hcan
      refine ⟨hconst, ?_⟩
      by_cases he : x.2.timecon = c
      · rw [he, Function.update_self]
      · rw [Function.update_of_ne he]
        exact hzero
    · exact ⟨fun he => hk he l fr h.pending x hx he, Function.update_self ..⟩

theorem TimerOk.addStep (h : TimerOk st l fr) {mem : Bool} {c : UInt16} {period : UInt32}
    {cb : Option F} {p1 p2 : P} (hs : st.addStep mem c period cb p1 p2 = some st') :
    Goes st st' (.add mem c period cb p1 p2) l := by
  obtain ⟨ret, mng, l', fr', hadd, ⟨hpend, hloose, -⟩, hsame, hcase⟩ :=
    h.pending.timerconAdd_pending mem c period cb p1 p2
  unfold TimerState.addStep at hs
  rw [hadd] at hs
  obtain rfl := Option.some.inj hs
  rcases hcase with ⟨-, rfl⟩ | ⟨rfl, hlive, a, rfl⟩
  · refine ⟨l', fr', ⟨hpend, h.valid, ?_⟩, fun _ hc => ⟨fun x hx hcan => ?_, hc.calls⟩⟩
    · exact h.pos.congr hloose
    · change _ ∧ mng.container _ = 0
      rw [hsame.container]
      exact hc.gone x hx (Bool.and_eq_true_iff.mp hcan).1
  · refine ⟨_, fr', ⟨hpend, fun x hx => ?_, h.pos.mono hloose⟩,
      fun _ hc => ⟨fun x hx hcan => ?_, hc.calls⟩⟩
    · rcases List.mem_append.mp hx with hx | hx
      · exact h.valid x hx
      · rw [List.mem_singleton.mp hx]
        exact (of_decide_eq_true hlive).1
    · obtain ⟨hold, hnew⟩ := Bool.and_eq_true_iff.mp hcan
      rcases List.mem_append.mp hx with hx | hx
      · change _ ∧ mng.container _ = 0
        rw [hsame.container]
        exact hc.gone x hx hold
      · have htail : mng.tail = some x.1 := by
          rw [hpend.tail, List.mem_singleton.mp hx]
          simp
        rw [htail] at hnew
        simp at hnew

theorem TimerOk.beginStep (h : TimerOk st l fr) (hs : st.beginStep = some st') :
    Goes st st' .begin l := by
  unfold TimerState.beginStep at hs
  split at hs
  · obtain rfl := Option.some.inj hs
    exact ⟨l, fr, ⟨h.pending, h.valid, h.pending.at_head _⟩, fun _ hc => ⟨hc.gone, hc.calls⟩⟩
  · exact nomatch hs

theorem TimerOk.finishStep (h : TimerOk st l fr) (hs : st.finishStep = some st') :
    Goes st st' .finish l := by
  unfold TimerState.finishStep at hs
  split at hs
  · obtain rfl := Option.some.inj hs
    exact ⟨l, fr, ⟨h.pending, h.valid, trivial⟩, fun _ hc => ⟨hc.gone, hc.calls⟩⟩
  · exact nomatch hs

theorem TimerOk.backStep (h : TimerOk st l fr) (hs : st.backStep = some st') :
    Goes st st' .back l := by
  unfold TimerState.backStep at hs
  split at hs
  · rename_i job prev hpos
    have hat := h.pos
    rw [hpos] at hat
    obtain ⟨n, hn⟩ := hat
    obtain ⟨mng, hfree, hgiven⟩ := h.pending.freeCb_pending hn
    rw [hfree] at hs
    obtain rfl := Option.some.inj hs
    refine ⟨l, job :: fr, ⟨hgiven.pending, h.valid, hgiven.pending.at_head prev⟩,
      fun _ hc => ⟨fun x hx hcan => ?_, hc.calls⟩⟩
    change _ ∧ mng.container _ = 0
    rw [hgiven.same.container]
    exact hc.gone x hx hcan
  · exact nomatch hs

theorem TimerOk.turnStep (h : TimerOk st l fr) (hs : st.turnStep = some st') :
    Goes st st' .turn l := by
  unfold TimerState.turnStep at hs
  split at hs
  · rename_i job prev hpos
    have hat := h.pos
    rw [hpos] at hat
    obtain ⟨pre, x, rest, rfl, rfl, hprev⟩ := hat
    have hmem : x ∈ pre ++ x :: rest := List.mem_append_right _ List.mem_cons_self
    by_cases hx : x.due = true
    · -- taken out; a cancelled one is not called
      obtain ⟨mng, prev', n, hturn, hout⟩ := h.pending.timerTurn_expired hprev hx
      rw [hturn] at hs
      obtain rfl := Option.some.inj hs
      have hsub : ∀ y ∈ pre ++ rest, y ∈ pre ++ x :: rest := fun y hy => by
        rcases List.mem_append.mp hy with hy | hy
        · exact List.mem_append_left _ hy
        · exact List.mem_append_right _ (List.mem_cons_of_mem _ hy)
      refine ⟨pre ++ rest, fr,
        ⟨hout.leads.pending, fun y hy => h.valid y (hsub y hy), n, hout.node⟩,
        fun _ hc => ⟨fun y hy hcan => ?_, fun p hp => ?_⟩⟩
      · change _ ∧ mng.container _ = 0
        rw [hout.same.container]
        exact hc.gone y (hsub y hy) hcan
      · by_cases hlive : st.mng.isLive x.2.timecon = true
        · rw [if_pos hlive] at hp
          rcases List.mem_append.mp hp with hp | hp
          · exact hc.calls p hp
          · rw [List.mem_singleton.mp hp]
            refine Bool.eq_false_iff.mpr fun hcan => ?_
            obtain ⟨hconst, hzero⟩ := hc.gone x hmem hcan
            rcases (of_decide_eq_true hlive).2 with he | hne
            · exact hconst he
            · exact hne hzero
        · rw [if_neg hlive] at hp
          exact hc.calls p hp
    · -- charged
      obtain ⟨mng, hturn, ⟨hpend, -, -⟩, hsame⟩ :=
        h.pending.timerTurn_passed prev (Bool.eq_false_iff.mpr hx)
      rw [hturn] at hs
      obtain rfl := Option.some.inj hs
      have hcase : ∀ y ∈ pre ++ x.tick :: rest, ∃ z ∈ pre ++ x :: rest,
          z.1 = y.1 ∧ z.2.timecon = y.2.timecon := fun y hy => by
        rcases List.mem_append.mp hy with hy | hy
        · exact ⟨y, List.mem_append_left _ hy, rfl, rfl⟩
        · rcases List.mem_cons.mp hy with rfl | hy
          · exact ⟨x, hmem, rfl, rfl⟩
          · exact ⟨y, List.mem_append_right _ (List.mem_cons_of_mem _ hy), rfl, rfl⟩
      refine ⟨pre ++ x.tick :: rest, fr, ⟨hpend, fun y hy => ?_, ?_⟩,
        fun _ hc => ⟨fun y hy hcan => ?_, hc.calls⟩⟩
      · obtain ⟨z, hz, -, hzy⟩ := hcase y hy
        rw [← hzy]
        exact h.valid z hz
      · exact TimerPos.At.next pre x rest
      · obtain ⟨z, hz, hz1, hzc⟩ := hcase y hy
        change _ ∧ mng.container _ = 0
        rw [hsame.container, ← hzc]
        rw [← hz1] at hcan
        exact hc.gone z hz hcan
  · exact nomatch hs

/-- One step. -/
theorem TimerOk.step (h : TimerOk st l fr) {a : TimerAct F P} (hs : st.step a = some st') :
    Goes st st' a l := by
  cases a with
  | new => exact h.newStep hs
  | delete c => exact h.deleteStep hs
  | add mem c period cb p1 p2 => exact h.addStep hs
  | begin => exact h.beginStep hs
  | turn => exact h.turnStep hs
  | back => exact h.backStep hs
  | finish => exact h.finishStep hs

/-! ## Runs -/

theorem timerOk_of_reach (h : timerSys.Reachable st) : ∃ l fr, TimerOk st l fr := by
  refine h.invariant (I := fun st => ∃ l fr, TimerOk st l fr) (fun st hst => ?_)
    fun st a st' hok _ hs => ?_
  · obtain rfl : st = _ := hst
    exact ⟨[], [], pending_init, fun _ hx => absurd hx List.not_mem_nil, trivial⟩
  · obtain ⟨l, fr, hok⟩ := hok
    obtain ⟨l', fr', hok', -⟩ := hok.step hs
    exact ⟨l', fr', hok'⟩

theorem clean_of_reach (h : timerSys.Reach ReusesNone st) :
    ∃ l fr, TimerOk st l fr ∧ Clean st l := by
  refine h.invariant (I := fun st => ∃ l fr, TimerOk st l fr ∧ Clean st l) (fun st hst => ?_)
    fun st a st' hok hk hs => ?_
  · obtain rfl : st = _ := hst
    exact ⟨[], [], ⟨pending_init, fun _ hx => absurd hx List.not_mem_nil, trivial⟩,
      fun _ hx => absurd hx List.not_mem_nil, fun _ hp => absurd hp List.not_mem_nil⟩
  · obtain ⟨l, fr, hok, hc⟩ := hok
    obtain ⟨l', fr', hok', hclean⟩ := hok.step hs
    exact ⟨l', fr', hok', hclean hk hc⟩

/-- No call that adds a timer faults, and no turn of the thread. -/
theorem timer_neverFaults (h : timerSys.Reachable st) :
    (∀ mem c period cb p1 p2, (st.addStep mem c period cb p1 p2).isSome) ∧
    (∀ job prev, st.pos = .loop (some job) prev → st.turnStep.isSome) ∧
    ∀ job prev, st.pos = .calling job prev → st.backStep.isSome := by
  obtain ⟨l, fr, hok⟩ := timerOk_of_reach h
  refine ⟨fun mem c period cb p1 p2 => ?_, fun job prev hpos => ?_, fun job prev hpos => ?_⟩
  · obtain ⟨ret, mng, l', fr', hadd, -⟩ := hok.pending.timerconAdd_pending mem c period cb p1 p2
    unfold TimerState.addStep
    rw [hadd]
    rfl
  · have hat := hok.pos
    rw [hpos] at hat
    obtain ⟨pre, x, rest, rfl, rfl, hprev⟩ := hat
    unfold TimerState.turnStep
    rw [hpos]
    dsimp only
    by_cases hx : x.due = true
    · obtain ⟨mng, prev', n, hturn, -⟩ := hok.pending.timerTurn_expired hprev hx
      rw [hturn]
      rfl
    · obtain ⟨mng, hturn, -⟩ := hok.pending.timerTurn_passed prev (Bool.eq_false_iff.mpr hx)
      rw [hturn]
      rfl
  · have hat := hok.pos
    rw [hpos] at hat
    obtain ⟨n, hn⟩ := hat
    obtain ⟨mng, hfree, -⟩ := hok.pending.freeCb_pending hn
    unfold TimerState.backStep
    rw [hpos]
    dsimp only
    rw [hfree]
    rfl

/-- A timer cancelled is not called, if its container is not used again while it is pending. -/
theorem timer_cancelled (h : timerSys.Reach ReusesNone st) : ∀ p ∈ st.calls, p.2 = false := by
  obtain ⟨l, fr, -, hc⟩ := clean_of_reach h
  exact hc.calls

theorem ZTimer.FirstFree.unique {mng : ZTimer F P} {c c' : UInt16} (h : mng.FirstFree c)
    (h' : mng.FirstFree c') : c = c' := by
  obtain ⟨k, hc, hne, hfree, hbefore⟩ := h
  obtain ⟨k', hc', hne', hfree', hbefore'⟩ := h'
  rcases Nat.lt_trichotomy k k' with hlt | rfl | hlt
  · have hused := hbefore' k hlt
    rw [← hc] at hused
    exact absurd hfree (hused.resolve_left hne)
  · rw [hc, hc']
  · have hused := hbefore k' hlt
    rw [← hc'] at hused
    exact absurd hfree' (hused.resolve_left hne')

/-- The next container is not the one of any node. -/
def reusesNone (st : TimerState F P) : TimerAct F P → Bool
  | .new =>
      match st.mng.nextContainer with
      | .ok (some (c, _)) => st.mng.nodes.all fun n => n.data.timecon ≠ c
      | _ => false
  | .delete c => c ≠ ZTIMER_CONTAINER_CONSTID
  | _ => true

theorem reusesNone_sound (st : TimerState F P) (a : TimerAct F P) (h : reusesNone st a = true) :
    ReusesNone st a := by
  cases a with
  | new =>
      intro l fr hpend x hx _ hfree
      rw [reusesNone] at h
      split at h
      · rename_i c i hnext
        obtain ⟨k, -, hidx, hne, hzero, hbefore⟩ := containerLoop_firstFree hnext
        obtain ⟨n, hn, hd⟩ := hpend.node hx
        have hother := of_decide_eq_true (List.all_eq_true.mp h n (List.mem_of_getElem? hn))
        rw [hd] at hother
        exact hother (hfree.unique ⟨k, hidx, hne, hzero, hbefore⟩)
      · exact nomatch h
  | delete c => exact fun he => absurd he (of_decide_eq_true h)
  | add | begin | turn | back | finish => trivial

/-- Another container is made in the meantime, so that the one deleted is not used again: its timer
    expires, and only the timer of the other is called. -/
theorem timer_cancelled_other : ∃ st : TimerState Unit Unit, timerSys.Reach ReusesNone st ∧
    st.cancelled 0 = true ∧ st.calls.map Prod.fst = [1] ∧ ∀ p ∈ st.calls, p.2 = false := by
  obtain ⟨st, hst, hp⟩ := Sys.reach_of_run (c := reusesNone)
    (p := fun st : TimerState Unit Unit => st.cancelled 0 && st.calls.map Prod.fst == [1])
    reusesNone_sound (Sys.Reach.init rfl : timerSys.Reach ReusesNone _)
    [.new, .new, .add true 1 10 (some ()) () (), .add true 2 10 (some ()) () (), .delete 1, .new,
      .begin, .turn, .back, .turn, .back, .finish]
    (by decide)
  obtain ⟨hcan, hcalls⟩ := Bool.and_eq_true_iff.mp hp
  exact ⟨st, hst, hcan, eq_of_beq hcalls, timer_cancelled hst⟩

/-- The container deleted is the next one given, and its timer is called. -/
theorem deletedContainer_called : ∃ st : TimerState Unit Unit, timerSys.Reachable st ∧
    ¬∀ p ∈ st.calls, p.2 = false := by
  obtain ⟨st, hst, hp⟩ := Sys.reach_of_run (c := fun _ _ => true)
    (p := fun st : TimerState Unit Unit => st.calls == [(0, true)]) (fun _ _ _ => trivial)
    (Sys.Reach.init rfl : timerSys.Reachable _)
    [.new, .add true 1 10 (some ()) () (), .delete 1, .new, .begin, .turn]
    (by decide)
  refine ⟨st, hst, fun hall => ?_⟩
  rw [eq_of_beq hp] at hall
  exact absurd (hall (0, true) (List.mem_singleton_self _)) (by decide)

end Zcrt
