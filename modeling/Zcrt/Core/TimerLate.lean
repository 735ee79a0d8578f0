/-
  No timer is late, and the timer thread gives all nodes back.

  * `TimerAge`: a run of the timers with the passes counted.
  * `TimerAge.Aged`: what the passes so far have taken off each timer pending.
  * `noTimer_late`: a timer is gone once the passes since it was added have used up its period.
  * `timerExit`, `timerExit_freed`: the end of `_zcrt_timer_proc`.
-/
import Zcrt.Lib.FreeChain
import Zcrt.Core.TimerMoves
import Zcrt.Core.TimerPass

namespace Zcrt

open Lib

variable {F P : Type}

/-! ## The passes counted -/

/-- A run of the timers. `ended` passes have come to their end; `first` and `period` have, by the
    number of a timer, the first pass that comes to it and the period it was added with. -/
structure TimerAge (F P : Type) where
  log : TimerLog F P
  ended : Nat
  first : Nat → Nat
  period : Nat → UInt32

/-- The passes that do not come to a timer added now: one whose loop has reached the end is among
    them. -/
def TimerPos.missed (pos : TimerPos) (ended : Nat) : Nat :=
  match pos with
  | .loop none _ => ended + 1
  | _ => ended

theorem TimerPos.le_missed (pos : TimerPos) (n : Nat) : n ≤ pos.missed n := by
  unfold missed
  split <;> omega

namespace TimerAge

variable [DecidableEq F] [DecidableEq P] (st : TimerAge F P)

/-- What is written down for the next number stays once a timer is given it. -/
def step (null : P) (op : TimerOp F P) : Option (TimerAge F P) :=
  (st.log.step null op).map fun log =>
    { log := log
      ended := match op with
        | .finish => st.ended + 1
        | _ => st.ended
      first := Function.update st.first st.log.given (st.log.run.pos.missed st.ended)
      period := Function.update st.period st.log.given op.period }

end TimerAge

def timerAgeSys [DecidableEq F] [DecidableEq P] (null : P) :
    Sys (TimerAge F P) (TimerOp F P) where
  init st := (timerLogSys null).init st.log ∧ st.ended = 0
  next st op := st.step null op

/-! ## What the passes take off -/

/-- The timers that the loop has passed. -/
def TimerPos.passed (l : List (Timed F P)) : TimerPos → List (Timed F P)
  | .loop none _ => l
  | .loop (some job) _ => l.takeWhile fun x => x.1 ≠ job
  | _ => []

theorem TimerPos.passed_subset (pos : TimerPos) (l : List (Timed F P)) : pos.passed l ⊆ l := by
  unfold passed
  split
  · exact fun _ hx => hx
  · exact List.takeWhile_subset _
  · exact fun _ hx => nomatch hx

theorem TimerPos.passed_at {pre r : List (Timed F P)} {x : Timed F P} (prev : Option Nat)
    (hnd : ((pre ++ x :: r).map Prod.fst).Nodup) :
    (TimerPos.loop (some x.1) prev).passed (pre ++ x :: r) = pre := by
  rw [List.map_append, List.nodup_append] at hnd
  have hpre : ∀ y ∈ pre, decide (y.1 ≠ x.1) = true := fun y hy =>
    decide_eq_true (hnd.2.2 y.1 (List.mem_map_of_mem hy) x.1 (by simp))
  change (pre ++ x :: r).takeWhile _ = pre
  rw [List.takeWhile_append_of_pos hpre]
  simp

theorem TimerPos.passed_head (l : List (Timed F P)) (prev : Option Nat) :
    (TimerPos.loop (l.map Prod.fst).head? prev).passed l = [] := by
  cases l with
  | nil => rfl
  | cons x l => simp [passed]

theorem TimerPos.passed_next {pre r : List (Timed F P)} {x : Timed F P} (prev : Option Nat)
    (hnd : ((pre ++ x :: r).map Prod.fst).Nodup) :
    (TimerPos.loop (r.map Prod.fst).head? prev).passed (pre ++ x :: r) = pre ++ [x] := by
  cases r with
  | nil => rfl
  | cons z r =>
      have happ : pre ++ x :: z :: r = (pre ++ [x]) ++ z :: r := by simp
      rw [happ] at hnd ⊢
      exact passed_at prev hnd

/-- A timer put behind the others is not passed, unless the loop has reached the end. -/
theorem TimerPos.passed_concat {mng : ZTimer F P} {l : List (Timed F P)} {fr : List Nat}
    {x y : Timed F P} {pos : TimerPos} (hat : pos.At mng l fr)
    (hnd : ((l ++ [x]).map Prod.fst).Nodup) (hy : y ∈ pos.passed (l ++ [x])) :
    y ∈ pos.passed l ∨ y = x ∧ ∃ prev, pos = .loop none prev := by
  match pos with
  | .sleep => exact nomatch hy
  | .calling _ _ => exact nomatch hy
  | .loop none prev =>
      rcases List.mem_append.mp hy with hy | hy
      · exact Or.inl hy
      · exact Or.inr ⟨List.mem_singleton.mp hy, prev, rfl⟩
  | .loop (some job) prev =>
      obtain ⟨pre, z, rest, rfl, rfl, -⟩ := hat
      have hnd' : ((pre ++ z :: rest).map Prod.fst).Nodup := by
        rw [List.map_append] at hnd
        exact (List.nodup_append.mp hnd).1
      have happ : pre ++ z :: rest ++ [x] = pre ++ z :: (rest ++ [x]) := by simp
      rw [happ] at hnd hy
      rw [passed_at prev hnd] at hy
      rw [passed_at prev hnd']
      exact Or.inl hy

namespace TimerAge

/-- A tick has been taken off the timer in all the passes that came to it, and in `k` more. -/
def Worn (st : TimerAge F P) (k : Nat) (x : Timed F P) : Prop :=
  x.2.left.toNat + 50 * (st.ended + k) ≤
    (st.period (st.log.num x.1)).toNat + 50 * st.first (st.log.num x.1)

/-- What holds of the timers pending `l`: those that the loop has passed are one pass ahead. -/
structure Aged [DecidableEq F] [DecidableEq P] (null : P) (st : TimerAge F P)
    (l : List (Timed F P)) (fr : List Nat) : Prop where
  ok : st.log.Ok null l fr
  whole : st.log.Whole l fr
  worn : ∀ x ∈ l, st.Worn 0 x
  passed : ∀ x ∈ st.log.run.pos.passed l, st.Worn 1 x

variable [DecidableEq F] [DecidableEq P] {null : P} {st st' : TimerAge F P}
  {l l' : List (Timed F P)} {fr fr' : List Nat} {op : TimerOp F P} {x y : Timed F P} {k k' : Nat}

theorem num_lt (h : st.log.Ok null l fr) (hx : x ∈ l) : st.log.num x.1 < st.log.given :=
  List.mem_range.mp (h.nums.subset (List.mem_append_left _
    (List.mem_map_of_mem (f := fun x => st.log.num x.1) hx)))

/-- What is written down for a number given stays. -/
theorem Worn.step (h : st.log.Ok null l fr) (hs : st.step null op = some st') (hx : x ∈ l)
    (hnum : st'.log.num y.1 = st.log.num x.1) (hw : st.Worn k x)
    (hle : y.2.left.toNat + 50 * (st'.ended + k') ≤ x.2.left.toNat + 50 * (st.ended + k)) :
    st'.Worn k' y := by
  obtain ⟨log, hlog, rfl⟩ := Option.map_eq_some_iff.mp hs
  have hne : st.log.num x.1 ≠ st.log.given := Nat.ne_of_lt (num_lt h hx)
  unfold Worn
  rw [hnum]
  dsimp only
  rw [Function.update_of_ne hne, Function.update_of_ne hne]
  exact hle.trans hw

theorem ended_eq (hs : st.step null op = some st') (hop : op ≠ .finish) : st'.ended = st.ended := by
  obtain ⟨log, -, rfl⟩ := Option.map_eq_some_iff.mp hs
  cases op with
  | finish => exact absurd rfl hop
  | _ => rfl

theorem ended_le (hs : st.step null op = some st') : st'.ended ≤ st.ended + 1 := by
  by_cases hop : op = .finish
  · obtain ⟨log, -, rfl⟩ := Option.map_eq_some_iff.mp hs
    subst hop
    exact Nat.le_refl _
  · rw [ended_eq hs hop]
    exact Nat.le_succ _

/-- A timer that a step leaves as it is. -/
theorem Worn.keep (h : st.log.Ok null l fr) (hs : st.step null op = some st') (hop : op ≠ .finish)
    (hx : x ∈ l) (hnum : st'.log.num x.1 = st.log.num x.1) (hw : st.Worn k x) : st'.Worn k x := by
  refine hw.step h hs hx hnum ?_
  rw [ended_eq hs hop]

/-- A timer charged a tick. -/
theorem Worn.tick (h : st.log.Ok null l fr) (hs : st.step null op = some st') (hop : op ≠ .finish)
    (hx : x ∈ l) (hdue : x.due = false) (hnum : st'.log.num = st.log.num) (hw : st.Worn 0 x)
    (hk : k ≤ 1) : st'.Worn k x.tick := by
  refine hw.step h hs hx (by rw [hnum]; rfl) ?_
  have htick := Timed.tick_left hdue
  rw [ended_eq hs hop]
  omega

/-- A timer added. -/
theorem worn_new (hs : st.step null op = some st') (hop : op ≠ .finish)
    (hleft : x.2.left = op.period) (hnum : st'.log.num x.1 = st.log.given)
    (hk : st.ended + k ≤ st.log.run.pos.missed st.ended) : st'.Worn k x := by
  have hended := ended_eq hs hop
  obtain ⟨log, -, rfl⟩ := Option.map_eq_some_iff.mp hs
  unfold Worn
  rw [hnum, hended]
  dsimp only
  rw [Function.update_self, Function.update_self, hleft]
  omega

theorem Aged.worn_step (h : Aged null st l fr) (hs : st.step null op = some st')
    (hm : TimerMove st.log st'.log op l fr l' fr') : ∀ y ∈ l', st'.Worn 0 y := by
  intro y hy
  cases hm with
  | call hop hpos hnums => exact (h.worn y hy).keep h.ok hs hop hy (by rw [hnums.num])
  | added hop x hpos hleft hgiven hnum hold =>
      rcases List.mem_append.mp hy with hy | hy
      · exact (h.worn y hy).keep h.ok hs hop hy (hold y hy)
      · rw [List.mem_singleton.mp hy]
        exact worn_new hs hop hleft hnum (TimerPos.le_missed _ _)
  | deleted hop pre r x hl hloop hpos hnums =>
      have hold : y ∈ l := hl ▸ ((List.sublist_cons_self x r).append_left pre).subset hy
      exact (h.worn y hold).keep h.ok hs hop hold (by rw [hnums.num])
  | began hop prev hpos hpos' hnums => exact (h.worn y hy).keep h.ok hs hop hy (by rw [hnums.num])
  | passed hop pre r x prev hl hx hpos hpos' hnums =>
      have hmem : x ∈ l := hl ▸ List.mem_append_right _ List.mem_cons_self
      have hcase : y = x.tick ∨ y ∈ l := by
        rw [hl]
        simp only [List.mem_append, List.mem_cons] at hy ⊢
        tauto
      rcases hcase with rfl | hold
      · exact (h.worn x hmem).tick h.ok hs hop hmem hx hnums.num (Nat.zero_le 1)
      · exact (h.worn y hold).keep h.ok hs hop hold (by rw [hnums.num])
  | expired hop pre r x prev prev' hl hpos hpos' hnums =>
      have hold : y ∈ l := hl ▸ ((List.sublist_cons_self x r).append_left pre).subset hy
      exact (h.worn y hold).keep h.ok hs hop hold (by rw [hnums.num])
  | back hop job prev hpos hpos' hnums =>
      exact (h.worn y hy).keep h.ok hs hop hy (by rw [hnums.num])
  | finished prev hpos hpos' hnums =>
      -- the loop has passed them all
      have hpassed : st.Worn 1 y := h.passed y (by rw [hpos]; exact hy)
      refine hpassed.step h.ok hs hy (by rw [hnums.num]) ?_
      have hle := ended_le hs
      omega

theorem Aged.passed_step (h : Aged null st l fr) (hs : st.step null op = some st')
    (hm : TimerMove st.log st'.log op l fr l' fr') (hnd : (l'.map Prod.fst).Nodup) :
    ∀ y ∈ st'.log.run.pos.passed l', st'.Worn 1 y := by
  intro y hy
  cases hm with
  | call hop hpos hnums =>
      rw [hpos] at hy
      exact (h.passed y hy).keep h.ok hs hop (TimerPos.passed_subset _ _ hy) (by rw [hnums.num])
  | added hop x hpos hleft hgiven hnum hold =>
      rw [hpos] at hy
      rcases TimerPos.passed_concat h.ok.pos hnd hy with hy | ⟨rfl, prev, hend⟩
      · have hmem := TimerPos.passed_subset _ _ hy
        exact (h.passed y hy).keep h.ok hs hop hmem (hold y hmem)
      · exact worn_new hs hop hleft hnum (by rw [hend]; exact Nat.le_refl _)
  | deleted hop pre r x hl hloop hpos hnums =>
      rw [hpos] at hy
      cases hp : st.log.run.pos with
      | loop job prev => exact absurd hp (hloop job prev)
      | sleep =>
          rw [hp] at hy
          exact nomatch hy
      | calling job prev =>
          rw [hp] at hy
          exact nomatch hy
  | began hop prev hpos hpos' hnums =>
      rw [hpos', TimerPos.passed_head] at hy
      exact nomatch hy
  | passed hop pre r x prev hl hx hpos hpos' hnums =>
      subst hl
      have hmem : x ∈ pre ++ x :: r := List.mem_append_right _ List.mem_cons_self
      have hpassed := TimerPos.passed_at prev h.ok.pending.nodup
      rw [hpos', TimerPos.passed_next _ hnd] at hy
      rcases List.mem_append.mp hy with hy | hy
      · refine (h.passed y ?_).keep h.ok hs hop (List.mem_append_left _ hy) (by rw [hnums.num])
        rw [hpos, hpassed]
        exact hy
      · rw [List.mem_singleton.mp hy]
        exact (h.worn x hmem).tick h.ok hs hop hmem hx hnums.num (Nat.le_refl 1)
  | expired hop pre r x prev prev' hl hpos hpos' hnums =>
      rw [hpos'] at hy
      exact nomatch hy
  | back hop job prev hpos hpos' hnums =>
      rw [hpos', TimerPos.passed_head] at hy
      exact nomatch hy
  | finished prev hpos hpos' hnums =>
      rw [hpos'] at hy
      exact nomatch hy

/-- One step. -/
theorem Aged.step (h : Aged null st l fr) (hc : Undisturbed st.log op)
    (hs : st.step null op = some st') : ∃ l' fr', Aged null st' l' fr' := by
  have hlog : st.log.step null op = some st'.log := by
    obtain ⟨log, hlog, rfl⟩ := Option.map_eq_some_iff.mp hs
    exact hlog
  obtain ⟨l', fr', hm⟩ := h.ok.moves hc hlog
  exact ⟨l', fr', hm.ok, hm.whole h.whole, h.worn_step hs hm.move,
    h.passed_step hs hm.move hm.ok.pending.nodup⟩

theorem aged_of_reach (h : (timerAgeSys null).Reach (fun st => Undisturbed st.log) st) :
    ∃ l fr, Aged null st l fr := by
  refine h.invariant (I := fun st => ∃ l fr, Aged null st l fr) (fun st hst => ?_)
    fun st op st' hok hc hs => ?_
  · obtain ⟨log, ended, first, period⟩ := st
    obtain ⟨hlog, -⟩ := hst
    obtain rfl : log = _ := hlog
    exact ⟨[], [], ⟨pending_init, counted_init, trivial, List.Perm.refl _, nofun⟩, rfl, nofun,
      nofun⟩
  · obtain ⟨l, fr, hok⟩ := hok
    exact hok.step hc hs

/-! ## The results -/

/-- The end of `_zcrt_timer_proc`, once `run` is found false between two passes: the nodes given
    back, in this order. -/
def timerExit (mng : ZTimer F P) : Except Fault (List Nat) :=
  Nodes.freeChains mng.nodes [mng.job, mng.freelist] []

/-- The timer thread gives every node back once, and reads none that it has given back. -/
theorem timerExit_freed (h : (timerAgeSys null).Reach (fun st => Undisturbed st.log) st)
    (hpos : st.log.run.pos = .sleep) :
    ∃ freed, timerExit st.log.run.mng = .ok freed ∧ freed.Nodup ∧
      ∀ a, a ∈ freed ↔ a < st.log.run.mng.nodes.length := by
  obtain ⟨l, fr, hok⟩ := aged_of_reach h
  have hpend := hok.ok.pending
  have hnd : (l.map Prod.fst ++ fr).Nodup := by
    refine List.nodup_append.mpr ⟨hpend.nodup, hpend.free.nodup, fun a ha b hb he => ?_⟩
    obtain ⟨x, hx, rfl⟩ := List.mem_map.mp ha
    exact hpend.apart x hx (he ▸ hb)
  have hlt : ∀ a ∈ l.map Prod.fst ++ fr, a < st.log.run.mng.nodes.length := by
    intro a ha
    rcases List.mem_append.mp ha with ha | ha
    · obtain ⟨n, hn⟩ := Nodes.node_of_mem hpend.seg ha
      exact Nodes.lt_of_node hn
    · obtain ⟨n, hn⟩ := Nodes.node_of_mem hpend.free ha
      exact Nodes.lt_of_node hn
  have hlen : st.log.run.mng.nodes.length = (l.map Prod.fst ++ fr).length := by
    have hwhole : _ = l.length + fr.length + st.log.run.pos.held := hok.whole
    rw [hwhole, hpos]
    simp [TimerPos.held]
  have hperm : (l.map Prod.fst ++ fr).Perm (List.range st.log.run.mng.nodes.length) := by
    have hsub := List.subperm_of_subset hnd fun a ha => List.mem_range.mpr (hlt a ha)
    refine hsub.perm_of_length_le ?_
    rw [List.length_range, hlen]
  refine ⟨_, Nodes.freeChains_ok (.cons hpend.seg (.cons hpend.free .nil)) ?_, ?_, fun a => ?_⟩
  · simpa using hnd
  · simpa using hnd
  · rw [← List.mem_range, ← hperm.mem_iff]
    simp

/-! ## A thread that adds a timer while the loop is at another one -/

deriving instance DecidableEq for TimerPos

def undisturbed (st : TimerAge F P) : TimerOp F P → Bool
  | .delete .. =>
      match st.log.run.pos with
      | .loop _ _ => false
      | _ => true
  | _ => true

omit [DecidableEq F] [DecidableEq P] in
theorem undisturbed_sound (st : TimerAge F P) (op : TimerOp F P) (h : undisturbed st op = true) :
    Undisturbed st.log op := by
  cases op with
  | delete cb p1 p2 =>
      intro job prev hpos
      unfold undisturbed at h
      rw [hpos] at h
      exact nomatch h
  | _ => trivial

/-- The first timer expires in the second pass. -/
theorem lateRun : ∃ st : TimerAge Unit Nat,
    (timerAgeSys 0).Reach (fun st => Undisturbed st.log) st ∧ st.log.run.pos = .sleep ∧
    st.log.run.mng.nodes.length = 2 ∧ 0 < st.log.given ∧
    (st.period 0).toNat + 50 * st.first 0 < 50 * st.ended := by
  have hinit : (timerAgeSys 0).Reach (fun st => Undisturbed st.log)
      { log := { run := .start (zcrtTimerManageInit : ZTimer Unit Nat) .sleep, given := 0,
                 num := fun _ => 0, gone := [] }
        ended := 0, first := fun _ => 0, period := fun _ => 0 } := .init ⟨rfl, rfl⟩
  obtain ⟨st, hst, hp⟩ := Sys.reach_of_run (c := undisturbed)
    (p := fun st : TimerAge Unit Nat => decide (st.log.run.pos = .sleep ∧
      st.log.run.mng.nodes.length = 2 ∧ 0 < st.log.given ∧
      (st.period 0).toNat + 50 * st.first 0 < 50 * st.ended))
    undisturbed_sound hinit
    [.add true ZTIMER_CONTAINER_CONSTID 60 (some ()) 1 2, .begin,
      .add true ZTIMER_CONTAINER_CONSTID 200 (some ()) 3 4, .turn, .turn, .finish, .begin, .turn,
      .back, .turn, .finish]
    (by decide)
  exact ⟨st, hst, of_decide_eq_true hp⟩

theorem timerExit_freed_two : ∃ st : TimerAge Unit Nat,
    (timerAgeSys 0).Reach (fun st => Undisturbed st.log) st ∧
    st.log.run.mng.nodes.length = 2 ∧
    ∃ freed, timerExit st.log.run.mng = .ok freed ∧ freed.Nodup ∧
      ∀ a, a ∈ freed ↔ a < st.log.run.mng.nodes.length := by
  obtain ⟨st, hst, hpos, hlen, -⟩ := lateRun
  exact ⟨st, hst, hlen, timerExit_freed hst hpos⟩

end TimerAge

end Zcrt
