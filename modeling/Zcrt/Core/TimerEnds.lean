/-
  The inner loop of `_zcrt_timer_proc` with callbacks that add and delete timers.

  * `TimerCmd`: what a callback does. The callbacks of a pass are given by what each does, in their
    order.
  * `passTurn`, `passAfter`: the loop, turn by turn.
  * `callback_leads`: the timers a callback adds come behind those it leaves.
  * `pass_ends_iff`: the loop ends if and only if finitely many callbacks add a timer that is due at
    once; `pass_endless`: one callback that adds itself again.
-/
import Zcrt.Core.TimerCalls

namespace Zcrt

open Lib

variable {F P : Type}

/-! ## The loop -/

/-- A call made by a callback. -/
inductive TimerCmd (F P : Type)
  | containerDelete (containerId : UInt16)
  | add (mem : Bool) (containerId : UInt16) (period : UInt32) (cb : Option F) (p1 p2 : P)
  | addArgn (mem : Bool) (containerId : UInt16) (period : UInt32) (cb : Option F) (args : List P)
  | delete (cb : Option F) (p1 p2 : P)

/-- It adds a timer that is due at once. -/
def TimerCmd.short : TimerCmd F P → Bool
  | .add _ _ period _ _ _ => period < TIMER_TICK
  | .addArgn _ _ period _ _ => period < TIMER_TICK
  | _ => false

section Loop

variable [DecidableEq F] [DecidableEq P] (null : P)

def TimerCmd.exec (mng : ZTimer F P) : TimerCmd F P → Except Fault (Option (ZTimer F P))
  | .containerDelete c => .ok (zcrtTimerContainerDelete (some mng) c)
  | .add mem c period cb p1 p2 =>
      (zcrtTimerconAdd (some mng) mem c period cb p1 p2).map Prod.snd
  | .addArgn mem c period cb args =>
      (zcrtTimerconAddArgn (some mng) mem c period cb args).map Prod.snd
  | .delete cb p1 p2 => (zcrtTimerDelete null (some mng) cb p1 p2).map Prod.snd

/-- A callback that makes these calls. -/
def callback (mng : ZTimer F P) : List (TimerCmd F P) → Except Fault (ZTimer F P)
  | [] => .ok mng
  | cmd :: cmds => do
      match ← cmd.exec null mng with
      | none => .error .pointer
      | some mng => callback mng cmds

/-- The inner loop of `_zcrt_timer_proc` at `job`; `calls` callbacks have been called. -/
structure PassState (F P : Type) where
  mng : ZTimer F P
  job : Option Nat
  prev : Option Nat
  calls : Nat

/-- Where the loop begins. -/
def PassState.start (mng : ZTimer F P) : PassState F P :=
  { mng := mng, job := mng.job, prev := mng.job, calls := 0 }

/-- A turn of the loop; `beh k` are the calls made by the callback called after `k` others. -/
def passTurn (beh : Nat → List (TimerCmd F P)) (s : PassState F P) :
    Except Fault (PassState F P) :=
  match s.job with
  | none => .ok s
  | some job => do
      match ← timerTurn s.mng job s.prev with
      | .passed mng job prev => pure { s with mng := mng, job := job, prev := prev }
      | .expired mng prev called => do
          let mng ← if called then callback null mng (beh s.calls) else pure mng
          let mng ← zcrtTimerFreeCb mng job
          pure { mng := mng, job := mng.job, prev := prev
                 calls := if called then s.calls + 1 else s.calls }

def passAfter (beh : Nat → List (TimerCmd F P)) (s : PassState F P) :
    Nat → Except Fault (PassState F P)
  | 0 => .ok s
  | n + 1 => do
      let s ← passAfter beh s n
      passTurn null beh s

end Loop

/-! ## What a callback does to the timers pending -/

/-- The timers pending are some of `l` as they were, and behind them new ones, which are not due
    if no command is short. -/
def Behind (l : List (Timed F P)) (cmds : List (TimerCmd F P)) (l' : List (Timed F P)) : Prop :=
  ∃ kept new, l' = kept ++ new ∧ kept.Sublist l ∧
    ((∀ cmd ∈ cmds, cmd.short = false) → ∀ x ∈ new, x.due = false)

theorem Behind.refl (l : List (Timed F P)) (cmds : List (TimerCmd F P)) : Behind l cmds l :=
  ⟨l, [], (List.append_nil l).symm, List.Sublist.refl l, fun _ _ hx => absurd hx List.not_mem_nil⟩

theorem Behind.trans {l l' l'' : List (Timed F P)} {cmd : TimerCmd F P}
    {cmds : List (TimerCmd F P)} (h : Behind l [cmd] l') (h' : Behind l' cmds l'') :
    Behind l (cmd :: cmds) l'' := by
  obtain ⟨kept, new, rfl, hsub, hnew⟩ := h
  obtain ⟨kept', new', rfl, hsub', hnew'⟩ := h'
  obtain ⟨k1, k2, rfl, h1, h2⟩ := List.sublist_append_iff.mp hsub'
  refine ⟨k1, k2 ++ new', List.append_assoc .., h1.trans hsub, fun hnot x hx => ?_⟩
  rcases List.mem_append.mp hx with hx | hx
  · refine hnew (fun c hc => ?_) x (h2.subset hx)
    rw [List.mem_singleton.mp hc]
    exact hnot cmd List.mem_cons_self
  · exact hnew' (fun c hc => hnot c (List.mem_cons_of_mem _ hc)) x hx

theorem behind_added {l l' : List (Timed F P)} {cmd : TimerCmd F P} {period : UInt32}
    {ret : EZCRTErr} (hshort : cmd.short = decide (period < TIMER_TICK))
    (h : Pending.Added l l' period ret) : Behind l [cmd] l' := by
  rcases h with ⟨-, rfl⟩ | ⟨-, x, rfl, hleft⟩
  · exact Behind.refl l' [cmd]
  · refine ⟨l, [x], rfl, List.Sublist.refl l, fun hnot y hy => ?_⟩
    rw [List.mem_singleton.mp hy]
    unfold Timed.due
    rw [hleft, ← hshort]
    exact hnot cmd (List.mem_singleton_self cmd)

variable {mng : ZTimer F P} {l : List (Timed F P)} {fr : List Nat}

section Callback

variable [DecidableEq F] [DecidableEq P]

theorem cmd_leads (h : Pending mng l fr) (null : P) (cmd : TimerCmd F P) :
    ∃ mng' l' fr', cmd.exec null mng = .ok (some mng') ∧ Leads mng l fr mng' l' fr' ∧
      Behind l [cmd] l' := by
  cases cmd with
  | containerDelete c =>
      obtain ⟨mng', hdel, hl⟩ := h.containerDelete_leads c
      exact ⟨mng', l, fr, congrArg Except.ok hdel, hl, Behind.refl l _⟩
  | add mem c period cb p1 p2 =>
      obtain ⟨ret, mng', l', fr', hadd, hl, hadded⟩ := h.timerconAdd_leads mem c period cb p1 p2
      exact ⟨mng', l', fr', congrArg (Except.map Prod.snd) hadd, hl, behind_added rfl hadded⟩
  | addArgn mem c period cb args =>
      obtain ⟨ret, mng', l', fr', hadd, hl, hadded⟩ := h.timerconAddArgn_leads mem c period cb args
      exact ⟨mng', l', fr', congrArg (Except.map Prod.snd) hadd, hl, behind_added rfl hadded⟩
  | delete cb p1 p2 =>
      cases cb with
      | none => exact ⟨mng, l, fr, rfl, h.leads, Behind.refl l _⟩
      | some cb =>
          rcases firstOf_cases l null cb p1 p2 with hno | ⟨pre, x, r, rfl, hno, hx, -⟩
          · have hdel := h.timerDelete_none hno
            exact ⟨mng, l, fr, congrArg (Except.map Prod.snd) hdel, h.leads, Behind.refl l _⟩
          · obtain ⟨m, mng', -, hdel, hl⟩ := h.timerDelete_leads hno hx
            have hsub : (pre ++ r).Sublist (pre ++ x :: r) :=
              (List.Sublist.refl pre).append (List.sublist_cons_self x r)
            exact ⟨mng', pre ++ r, x.1 :: fr, congrArg (Except.map Prod.snd) hdel, hl, pre ++ r, [],
              (List.append_nil _).symm, hsub, fun _ y hy => absurd hy List.not_mem_nil⟩

/-- The timers a callback adds come behind those it leaves. -/
theorem callback_leads (h : Pending mng l fr) (null : P) (cmds : List (TimerCmd F P)) :
    ∃ mng' l' fr', callback null mng cmds = .ok mng' ∧ Leads mng l fr mng' l' fr' ∧
      Behind l cmds l' := by
  induction cmds generalizing mng l fr with
  | nil => exact ⟨mng, l, fr, rfl, h.leads, Behind.refl l []⟩
  | cons cmd cmds ih =>
      obtain ⟨mng1, l1, fr1, hexec, hl1, hb1⟩ := cmd_leads h null cmd
      obtain ⟨mng2, l2, fr2, hrest, hl2, hb2⟩ := ih hl1.pending
      refine ⟨mng2, l2, fr2, ?_, hl1.trans hl2, hb1.trans hb2⟩
      rw [callback, hexec, except_ok_bind]
      exact hrest

end Callback

/-! ## Turns -/

/-- The loop has passed the timers `pre` and comes to `rest`. -/
structure Sweep (s : PassState F P) (pre rest : List (Timed F P)) (fr : List Nat) : Prop where
  pending : Pending s.mng (pre ++ rest) fr
  job : s.job = (rest.map Prod.fst).head?
  prev : pre ≠ [] → s.prev = (pre.map Prod.fst).getLast?

theorem sweep_start (h : Pending mng l fr) : Sweep (.start mng) [] l fr :=
  ⟨h, h.seg.head, fun he => absurd rfl he⟩

section Turns

variable [DecidableEq F] [DecidableEq P] {null : P} {beh : Nat → List (TimerCmd F P)}
  {s start : PassState F P} {pre rest : List (Timed F P)} {x : Timed F P}

variable (null beh) in
/-- A turn at a timer that is not due. -/
theorem Sweep.passed (h : Sweep s pre (x :: rest) fr) (hx : x.due = false) :
    ∃ s', passTurn null beh s = .ok s' ∧ s'.calls = s.calls ∧
      Sweep s' (pre ++ [x.tick]) rest fr := by
  obtain ⟨mng', hturn, ⟨hpend, -, -⟩, -⟩ := h.pending.timerTurn_passed s.prev hx
  have hjob : s.job = some x.1 := h.job
  refine ⟨{ s with mng := mng', job := (rest.map Prod.fst).head?, prev := some x.1 }, ?_, rfl, ?_⟩
  · unfold passTurn
    rw [hjob]
    dsimp only
    rw [hturn]
    rfl
  · refine ⟨?_, rfl, fun _ => ?_⟩
    · rw [List.append_assoc]
      exact hpend
    · simp [Timed.tick]

variable (null beh) in
/-- A turn at a timer that is due: the loop goes on from the first one. -/
theorem Sweep.expired (h : Sweep s pre (x :: rest) fr) (hx : x.due = true) :
    ∃ s' l' fr', passTurn null beh s = .ok s' ∧ Sweep s' [] l' fr' ∧
      (s'.calls = s.calls ∧ l' = pre ++ rest ∨
        s'.calls = s.calls + 1 ∧ Behind (pre ++ rest) (beh s.calls) l') := by
  obtain ⟨mng1, prev', n, hturn, ⟨hpend, -, -⟩, hloose, -, -⟩ :=
    h.pending.timerTurn_expired h.prev hx
  have hjob : s.job = some x.1 := h.job
  unfold passTurn
  rw [hjob]
  dsimp only
  rw [hturn, except_ok_bind]
  dsimp only
  by_cases hlive : s.mng.isLive x.2.timecon = true
  · obtain ⟨mng2, l', fr2, hcall, hl, hbehind⟩ := callback_leads hpend null (beh s.calls)
    obtain ⟨mng3, hfree, ⟨hpend', -, -, -⟩⟩ :=
      hl.pending.freeCb_pending (hl.loose x.1 n hloose)
    rw [if_pos hlive, hcall, except_ok_bind, hfree]
    exact ⟨_, l', x.1 :: fr2, rfl, ⟨hpend', hpend'.seg.head, fun he => absurd rfl he⟩,
      Or.inr ⟨if_pos hlive, hbehind⟩⟩
  · obtain ⟨mng3, hfree, ⟨hpend', -, -, -⟩⟩ := hpend.freeCb_pending hloose
    rw [if_neg hlive, except_pure, except_ok_bind, hfree]
    exact ⟨_, pre ++ rest, x.1 :: fr, rfl, ⟨hpend', hpend'.seg.head, fun he => absurd rfl he⟩,
      Or.inl ⟨if_neg hlive, rfl⟩⟩

/-! ## The end -/

variable (null beh start) in
/-- The loop comes to its end. -/
def PassState.Ends : Prop := ∃ n s, passAfter null beh start n = .ok s ∧ s.job = none

variable (null beh start) in
/-- The callback called after `k` others is called. -/
def PassState.Invokes (k : Nat) : Prop := ∃ n s, passAfter null beh start n = .ok s ∧ k < s.calls

theorem passAfter_turn {s' : PassState F P} {n : Nat} (h : passAfter null beh start n = .ok s)
    (ht : passTurn null beh s = .ok s') : passAfter null beh start (n + 1) = .ok s' := by
  rw [passAfter, h, except_ok_bind, ht]

/-- Timers that are not due are passed, up to the end. -/
theorem Sweep.ends_of_noneDue {n : Nat} (hreach : passAfter null beh start n = .ok s)
    (h : Sweep s pre rest fr) (hrest : ∀ x ∈ rest, x.due = false) : start.Ends null beh := by
  induction rest generalizing n s pre with
  | nil => exact ⟨n, s, hreach, h.job⟩
  | cons x rest ih =>
      obtain ⟨s', hturn, -, h'⟩ := h.passed null beh (hrest x List.mem_cons_self)
      exact ih (passAfter_turn hreach hturn) h' fun y hy => hrest y (List.mem_cons_of_mem x hy)

/-- The timers `new` are not due and come last, and no callback called from now on adds one that
    is, but for the first `N`. A turn leaves fewer of those callbacks, or fewer timers before
    `new`, or fewer of them to come to. -/
theorem ends_of_quiet {N : Nat}
    (hquiet : ∀ k, N ≤ k → start.Invokes null beh k → ∀ cmd ∈ beh k, cmd.short = false)
    {a b n : Nat} {s : PassState F P} {pre rest new : List (Timed F P)} {fr : List Nat}
    (hreach : passAfter null beh start n = .ok s) (h : Sweep s pre (rest ++ new) fr)
    (hnew : ∀ x ∈ new, x.due = false) (ha : N - s.calls = a) (hb : pre.length + rest.length = b) :
    start.Ends null beh := by
  induction a using Nat.strong_induction_on generalizing b n s pre rest new fr with
  | _ a iha =>
  induction b using Nat.strong_induction_on generalizing n s pre rest new fr with
  | _ b ihb =>
  induction rest generalizing n s pre fr with
  | nil => exact h.ends_of_noneDue hreach hnew
  | cons x rest ih =>
      rw [List.cons_append] at h
      rw [List.length_cons] at hb
      by_cases hx : x.due = true
      · obtain ⟨s', l', fr', hturn, h', hcase⟩ := h.expired null beh hx
        have hreach' := passAfter_turn hreach hturn
        rcases hcase with ⟨hcalls, rfl⟩ | ⟨hcalls, kept, added, rfl, hsub, hadded⟩
        · rw [← List.append_assoc] at h'
          have hless : ([] : List (Timed F P)).length + (pre ++ rest).length < b := by
            rw [List.length_nil, List.length_append]
            omega
          exact ihb _ hless hreach' h' hnew (by omega) rfl
        · by_cases hN : N ≤ s.calls
          · -- those added are not due either
            rw [← List.append_assoc] at hsub
            obtain ⟨k1, k2, rfl, h1, h2⟩ := List.sublist_append_iff.mp hsub
            have hlen := h1.length_le
            rw [List.length_append] at hlen
            rw [List.append_assoc] at h'
            have hinv : start.Invokes null beh s.calls := ⟨n + 1, s', hreach', by omega⟩
            refine ihb k1.length (by omega) hreach' h' (fun y hy => ?_) (by omega) (by simp)
            rcases List.mem_append.mp hy with hy | hy
            · exact hnew y (h2.subset hy)
            · exact hadded (hquiet s.calls hN hinv) y hy
          · rw [← List.append_nil (kept ++ added)] at h'
            exact iha (N - s'.calls) (by omega) hreach' h'
              (fun _ hy => absurd hy List.not_mem_nil) rfl rfl
      · obtain ⟨s', hturn, hcalls, h'⟩ := h.passed null beh (Bool.eq_false_iff.mpr hx)
        refine ih (passAfter_turn hreach hturn) h' (by omega) ?_
        rw [List.length_append, List.length_singleton]
        omega

theorem passTurn_calls {s' : PassState F P} (h : passTurn null beh s = .ok s') :
    s.calls ≤ s'.calls := by
  unfold passTurn at h
  split at h
  · obtain rfl := Except.ok.inj h
    exact Nat.le_refl _
  · obtain ⟨r, -, h⟩ := except_bind_eq_ok h
    cases r with
    | passed mng job prev =>
        obtain rfl := Except.ok.inj h
        exact Nat.le_refl _
    | expired mng prev called =>
        cases called with
        | false =>
            obtain ⟨mng1, -, h⟩ := except_bind_eq_ok h
            obtain ⟨mng2, -, h⟩ := except_bind_eq_ok h
            obtain rfl := Except.ok.inj h
            exact Nat.le_refl _
        | true =>
            obtain ⟨mng1, -, h⟩ := except_bind_eq_ok h
            obtain ⟨mng2, -, h⟩ := except_bind_eq_ok h
            obtain rfl := Except.ok.inj h
            exact Nat.le_succ _

theorem calls_mono {n k : Nat} {s' : PassState F P} (h : passAfter null beh start n = .ok s)
    (h' : passAfter null beh start (n + k) = .ok s') : s.calls ≤ s'.calls := by
  induction k generalizing s' with
  | zero =>
      rw [Except.ok.inj (h.symm.trans h')]
  | succ k ih =>
      obtain ⟨s1, h1, hturn⟩ := except_bind_eq_ok h'
      exact Nat.le_trans (ih h1) (passTurn_calls hturn)

/-- Once the loop has ended, nothing more happens. -/
theorem passAfter_ended {n k : Nat} (h : passAfter null beh start n = .ok s)
    (hend : s.job = none) : passAfter null beh start (n + k) = .ok s := by
  induction k with
  | zero => exact h
  | succ k ih =>
      refine passAfter_turn ih ?_
      unfold passTurn
      rw [hend]

theorem calls_le_of_ended {n m : Nat} {s' : PassState F P}
    (h : passAfter null beh start n = .ok s) (hend : s.job = none)
    (h' : passAfter null beh start m = .ok s') : s'.calls ≤ s.calls :=
  calls_mono (k := n) h' (by rw [Nat.add_comm]; exact passAfter_ended h hend)

/-- The loop ends if and only if no more than finitely many of the callbacks it calls add a timer
    that is due at once. -/
theorem pass_ends_iff (h : Pending mng l fr) (null : P) (beh : Nat → List (TimerCmd F P)) :
    (PassState.start mng).Ends null beh ↔
      {k | (PassState.start mng).Invokes null beh k ∧ ∃ cmd ∈ beh k, cmd.short}.Finite := by
  constructor
  · rintro ⟨n, s, hs, hend⟩
    refine (Set.finite_lt_nat s.calls).subset ?_
    rintro k ⟨⟨m, s', hs', hk⟩, -⟩
    exact Nat.lt_of_lt_of_le hk (calls_le_of_ended hs hend hs')
  · intro hfin
    obtain ⟨N, hN⟩ := hfin.bddAbove
    have hquiet : ∀ k, N + 1 ≤ k → (PassState.start mng).Invokes null beh k →
        ∀ cmd ∈ beh k, cmd.short = false := by
      intro k hk hinv cmd hcmd
      by_contra hshort
      have hle := hN ⟨hinv, cmd, hcmd, Bool.not_eq_false _ ▸ hshort⟩
      omega
    have hstart : Sweep (.start mng) [] (l ++ []) fr := by
      rw [List.append_nil]
      exact sweep_start h
    exact ends_of_quiet hquiet (n := 0) rfl hstart (fun _ hx => absurd hx List.not_mem_nil) rfl rfl

end Turns

/-! ## One timer -/

/-- A timer of ten milliseconds pending. -/
def oneDue : ZTimer Unit Unit :=
  { (zcrtTimerManageInit : ZTimer Unit Unit) with
    nodes := [⟨⟨10, some (), 2, ZTIMER_CONTAINER_CONSTID, [(), ()]⟩, none⟩]
    job := some 0
    tail := some 0 }

theorem oneDue_pending :
    Pending oneDue [(0, ⟨10, some (), 2, ZTIMER_CONTAINER_CONSTID, [(), ()]⟩)] [] where
  seg := ⟨rfl, none, rfl, rfl⟩
  data := by simp [oneDue, Nodes.dataOf]
  fn := by simp
  tail := rfl
  free := rfl
  apart := by simp

/-- The call with which its callback adds it again. -/
def again (period : UInt32) : TimerCmd Unit Unit :=
  .add true ZTIMER_CONTAINER_CONSTID period (some ()) () ()

/-- It adds itself again, due after two passes. -/
theorem pass_ends_iff_again : (PassState.start oneDue).Ends () fun _ => [again 100] := by
  refine (pass_ends_iff oneDue_pending () _).mpr (Set.Finite.subset Set.finite_empty ?_)
  rintro k ⟨-, cmd, hcmd, hshort⟩
  rw [List.mem_singleton.mp hcmd] at hshort
  exact absurd hshort (by decide)

/-- The two states between which it goes when it is due at once: one node pending, one free. -/
def rearmed (b : Bool) : ZTimer Unit Unit :=
  let used : Node (ZTimerCB Unit Unit) :=
    ⟨⟨10, some (), 2, ZTIMER_CONTAINER_CONSTID, [(), ()]⟩, none⟩
  let free : Node (ZTimerCB Unit Unit) := ⟨⟨10, none, 2, 0, [(), ()]⟩, none⟩
  { (zcrtTimerManageInit : ZTimer Unit Unit) with
    nodes := if b then [used, free] else [free, used]
    job := some (if b then 0 else 1)
    tail := some (if b then 0 else 1)
    freelist := some (if b then 1 else 0)
    freesize := 1 }

theorem passTurn_again (b : Bool) (n : Nat) :
    passTurn () (fun _ => [again 10])
        { mng := rearmed b, job := (rearmed b).job, prev := none, calls := n } =
      .ok { mng := rearmed !b, job := (rearmed !b).job, prev := none, calls := n + 1 } := by
  have hsize : (1 - 1 + 1 : Int32) = 1 := rfl
  have hturn : passTurn () (fun _ => [again 10])
        { mng := rearmed b, job := (rearmed b).job, prev := none, calls := n } =
      .ok { mng := { rearmed !b with freesize := 1 - 1 + 1 }, job := (rearmed !b).job, prev := none,
            calls := n + 1 } := by
    cases b with
    | false => rfl
    | true => rfl
  rw [hturn, hsize]
  rfl

theorem passAfter_again (n : Nat) : ∃ b, passAfter () (fun _ => [again 10]) (.start oneDue)
    (n + 1) = .ok { mng := rearmed b, job := (rearmed b).job, prev := none, calls := n + 1 } := by
  induction n with
  | zero => exact ⟨false, rfl⟩
  | succ n ih =>
      obtain ⟨b, hb⟩ := ih
      exact ⟨!b, passAfter_turn hb (passTurn_again b (n + 1))⟩

/-- A timer that its callback adds again with ten milliseconds: the pass does not end. -/
theorem pass_endless : ∃ (mng : ZTimer Unit Unit) (l : List (Timed Unit Unit)) (fr : List Nat),
    Pending mng l fr ∧ ¬(PassState.start mng).Ends () fun _ => [again 10] := by
  refine ⟨oneDue, _, [], oneDue_pending, ?_⟩
  rintro ⟨n, s, hs, hend⟩
  cases n with
  | zero =>
      obtain rfl := Except.ok.inj hs
      exact nomatch hend
  | succ n =>
      obtain ⟨b, hb⟩ := passAfter_again n
      obtain rfl := Except.ok.inj (hb.symm.trans hs)
      exact nomatch hend

end Zcrt
