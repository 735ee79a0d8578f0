/-
  Callbacks and the deletion of their schedule.

  * `callsInTime_of_noPending`: no callback is called after the deletion of its schedule has
    returned, unless a worker held it, copied out of its job, when the deletion returned.
  * `pendingCall_late`: one that a worker held is.
-/
import Zcrt.Core.SchInv

namespace Zcrt

open Lib

variable {F P : Type}

/-- A step at which, if it is the return of a deletion, no worker is between taking a job of that
    schedule and calling its callback. -/
def NoPending (st : SchState F P) : SchAct F P → Prop
  | .delEnd s => ∀ t fn args late, st.wrk t ≠ .call fn args (some s) late
  | _ => True

/-- No job that will be called, or was, is one of a schedule whose deletion has returned. -/
structure InTime (st : SchState F P) (v : SchView) : Prop where
  que : ∀ t p a, a ∈ v.que t p → st.late a = false
  filled : ∀ i x a, st.snd i = .filled x a → st.late a = false
  wrk : ∀ t fn args sch late, st.wrk t = .call fn args sch late → late = false
  calls : ∀ t c, c ∈ st.calls t → c.2.2 = false

section InTime

variable {R : Option Nat → List Nat → Prop} {st st' : SchState F P} {v v' : SchView}
  {act : SchAct F P}

/-- A step of a sender that has not filled a node. -/
theorem filled_of_ne {i : Nat} {pc : Sender F P} (hpc : ∀ x a, pc ≠ .filled x a) {late : Nat → Bool}
    (h : ∀ i x a, st.snd i = .filled x a → late a = false) :
    ∀ i' x a, Function.update st.snd i pc i' = .filled x a → late a = false := by
  intro i' x a hh
  by_cases hi : i' = i
  · subst hi
    rw [Function.update_self] at hh
    exact absurd hh (hpc x a)
  · rw [Function.update_of_ne hi] at hh
    exact h i' x a hh

/-- A step of a worker to where it holds no callback, or one in time. -/
theorem wrk_of_ne {t : Nat} {pc : Worker F P}
    (hpc : ∀ fn args sch late, pc = .call fn args sch late → late = false)
    (h : ∀ t fn args sch late, st.wrk t = .call fn args sch late → late = false) :
    ∀ t' fn args sch late, Function.update st.wrk t pc t' = .call fn args sch late →
      late = false := by
  intro t' fn args sch late hh
  by_cases ht : t' = t
  · subst ht
    rw [Function.update_self] at hh
    exact hpc fn args sch late hh
  · rw [Function.update_of_ne ht] at hh
    exact h t' fn args sch late hh

theorem InTime.effect (hv : ThreadInv R st v) (h : InTime st v) (hp : NoPending st act)
    (he : Effect st v act st' v') : InTime st' v' := by
  cases he with
  | attach hq hj hs => exact ⟨by rw [hq]; exact h.que, h.filled, h.wrk, h.calls⟩
  | refused => exact h
  | start x hi => exact ⟨h.que, filled_of_ne (fun _ _ => by simp) h.filled, h.wrk, h.calls⟩
  | getNode hi hn pc hpc =>
      refine ⟨h.que, filled_of_ne (fun x a he => ?_) h.filled, h.wrk, h.calls⟩
      rcases hpc with rfl | ⟨b, rfl⟩ <;> exact nomatch he
  | @fill i a x hi hl =>
      have hlate : ∀ b, st.late b = false → Function.update st.late a false b = false :=
        fun b hb => by
          by_cases hba : b = a
          · rw [hba, Function.update_self]
          · rw [Function.update_of_ne hba, hb]
      refine ⟨fun t p b hb => hlate b (h.que t p b hb), fun i' y b hh => ?_, h.wrk, h.calls⟩
      have hsnd : Function.update st.snd i (.filled x a) i' = .filled y b := hh
      by_cases hii : i' = i
      · rw [hii, Function.update_self] at hsnd
        obtain ⟨-, rfl⟩ := Sender.filled.inj hsnd
        exact Function.update_self ..
      · rw [Function.update_of_ne hii] at hsnd
        exact hlate b (h.filled i' y b hsnd)
  | @insert i a t x th th' sc sc' w' ha hi hl hj hins =>
      refine ⟨fun t' p b hb => ?_, filled_of_ne (fun _ _ => by simp) h.filled, h.wrk, h.calls⟩
      by_cases hq : t' = t ∧ p = sc.pri
      · obtain ⟨rfl, rfl⟩ := hq
        rw [SchView.setQue_self] at hb
        rcases List.mem_append.mp hb with hb | hb
        · exact h.que t' sc.pri b hb
        · rw [List.mem_singleton.mp hb]
          exact h.filled i x a hi
      · rw [SchView.setQue_of_ne _ _ hq] at hb
        exact h.que t' p b hb
  | give hi => exact ⟨h.que, filled_of_ne (fun _ _ => by simp) h.filled, h.wrk, h.calls⟩
  | check ht pc hpc =>
      refine ⟨h.que, h.filled, wrk_of_ne (fun fn args sch late he => ?_) h.wrk, h.calls⟩
      rcases hpc with rfl | rfl <;> exact nomatch he
  | token ht hn =>
      exact ⟨h.que, h.filled, wrk_of_ne (fun _ _ _ _ => by simp) h.wrk, h.calls⟩
  | timeout ht =>
      exact ⟨h.que, h.filled, wrk_of_ne (fun _ _ _ _ => by simp) h.wrk, h.calls⟩
  | empty ht hall =>
      exact ⟨h.que, h.filled, wrk_of_ne (fun _ _ _ _ => by simp) h.wrk, h.calls⟩
  | @take t s a th th' sc j r w' ht htaken pc hpc =>
      have hlate : st.late a = false := by
        refine h.que t sc.pri a ?_
        rw [htaken.first]
        exact List.mem_cons_self
      refine ⟨fun t' p b hb => ?_, h.filled, wrk_of_ne (fun fn args sch late he => ?_) h.wrk,
        h.calls⟩
      · rw [SchView.setFree_que] at hb
        by_cases hq : t' = t ∧ p = sc.pri
        · obtain ⟨rfl, rfl⟩ := hq
          rw [SchView.setQue_self] at hb
          refine h.que t' sc.pri b ?_
          rw [htaken.first]
          exact List.mem_cons_of_mem _ hb
        · rw [SchView.setQue_of_ne _ _ hq] at hb
          exact h.que t' p b hb
      · rw [hpc] at he
        split at he
        · obtain ⟨-, -, -, rfl⟩ := Worker.call.inj he
          exact hlate
        · exact nomatch he
  | @call t fn args sch late ht =>
      refine ⟨h.que, h.filled, wrk_of_ne (fun _ _ _ _ => by simp) h.wrk, fun t' c hc => ?_⟩
      have hcalls : c ∈ Function.update st.calls t (st.calls t ++ [(fn, args, late)]) t' := hc
      by_cases htt : t' = t
      · subst htt
        rw [Function.update_self] at hcalls
        rcases List.mem_append.mp hcalls with hcalls | hcalls
        · exact h.calls t' c hcalls
        · rw [List.mem_singleton.mp hcalls]
          exact h.wrk t' fn args sch late ht
      · rw [Function.update_of_ne htt] at hcalls
        exact h.calls t' c hcalls
  | back ht =>
      exact ⟨h.que, h.filled, wrk_of_ne (fun _ _ _ _ => by simp) h.wrk, h.calls⟩
  | purge ha hpurged =>
      exact ⟨fun t p b hb => h.que t p b (hpurged.mem hv.chains hb).1, h.filled, h.wrk, h.calls⟩
  | @free s t th th' sc w' ha hs hf =>
      -- what is still to be called is of other schedules
      refine ⟨fun t' p b hb => ?_, fun i x b hi => ?_, fun t' fn args sch late hh => ?_, h.calls⟩
      · exact (if_neg (hv.notDying hb hs)).trans (h.que t' p b hb)
      · obtain ⟨-, hj⟩ := hv.held i b (filledJob x.sch x.cb x.argn x.args)
          (by rw [show st.snd i = .filled x b from hi]; rfl)
        have hd := (hv.sending i x (by rw [show st.snd i = .filled x b from hi]; rfl)).1
        refine (if_neg fun ho => ?_).trans (h.filled i x b hi)
        have hxs : x.sch = s := Option.some.inj ((SchHeap.owner_of_jobs hj).symm.trans ho)
        rw [hxs, hs] at hd
        exact nomatch hd
      · have hmark : Worker.mark s (st.wrk t') = .call fn args sch late := hh
        cases hpc : st.wrk t' with
        | call fn' args' sch' late' =>
            rw [hpc] at hmark
            obtain ⟨-, -, rfl, rfl⟩ := Worker.call.inj hmark
            rw [h.wrk t' fn' args' sch' late' hpc, Bool.false_or]
            refine beq_eq_false_iff_ne.mpr fun hsch => ?_
            rw [ha] at hp
            subst hsch
            exact hp t' fn' args' late' hpc
        | _ =>
            rw [hpc] at hmark
            exact nomatch hmark

theorem inTime_init (h : threadSys.init st) (hv : Chains st.heap v) : InTime st v := by
  refine ⟨fun t p a ha => ?_, ?_, ?_, ?_⟩
  · rw [que_of_init h hv] at ha
    exact nomatch ha
  · rw [h.2]
    exact fun i x a hh => nomatch hh
  · rw [h.2]
    exact fun t fn args sch late hh => nomatch hh
  · rw [h.2]
    exact fun t c hc => nomatch hc

end InTime

/-- No callback of a job that was sent to a schedule is called after the deletion of the schedule
    has returned, in a run whose deletions return while no worker is between taking a job of the
    schedule and calling its callback, and are of schedules nobody sends to. -/
theorem callsInTime_of_noPending {st : SchState F P}
    (h : threadSys.Reach (fun st act => Quiet st act ∧ NoPending st act) st) (t : Nat) :
    ∀ c ∈ st.calls t, c.2.2 = false := by
  obtain ⟨v, -, hin⟩ := threadInv_of_quiet (I := InTime) (fun _ _ hq => hq.1)
    (fun st v hst hv => inTime_init hst hv.chains)
    (fun st v act st' v' hv hI hc he => hI.effect hv hc.2 he) h
  exact fun c hc => hin.calls t c hc

/-- `NoPending`, checked. -/
def pendingCheck (n : Nat) (st : SchState F P) : SchAct F P → Bool
  | .delEnd s => (List.range n).all fun t => (st.wrk t).holds != some s
  | _ => true

theorem noPending_of_check {n : Nat} {st : SchState F P} (hbusy : FewBusy n st) {act : SchAct F P}
    (h : pendingCheck n st act = true) : NoPending st act := by
  cases act with
  | delEnd s =>
      intro t fn args late hcall
      by_cases ht : t < n
      · have := List.all_eq_true.mp h t (List.mem_range.mpr ht)
        rw [hcall] at this
        simp [Worker.holds] at this
      · rw [(hbusy t (by omega)).2] at hcall
        exact nomatch hcall
  | _ => trivial

/-- A private thread, one job sent to it, which its worker takes but has not called yet. -/
def takenJob : List (SchAct Unit Unit) :=
  [.create .selfThread .priLow 8 (some 1) (some 1), .start 0 (.sendjob (some 1) (some ()) () ()),
    .getNode 0 (some 1), .fill 0, .insert 0, .give 0, .check 1 false, .token 1, .remove 1]

/-- The callback is called, and the schedule deleted with another job still in its queue. -/
theorem callsInTime_of_noPending_one : ∃ st : SchState Unit Unit,
    threadSys.Reach (fun st act => Quiet st act ∧ NoPending st act) st ∧
      (st.heap.schs 1).isNone = true ∧ (st.calls 1).length = 1 ∧
      ∀ c ∈ st.calls 1, c.2.2 = false := by
  obtain ⟨st, hst, -, hp⟩ := reach_of_few (n := 2)
    (C := fun st act => Quiet st act ∧ NoPending st act)
    (c := fun st act => quietCheck 2 st act && pendingCheck 2 st act)
    (p := fun st => (st.heap.schs 1).isNone && (st.calls 1).length == 1)
    (fun st act hbusy h => by
      obtain ⟨h1, h2⟩ := Bool.and_eq_true_iff.mp h
      obtain ⟨hquiet, hfew⟩ := quiet_of_check hbusy h1
      exact ⟨⟨hquiet, noPending_of_check hbusy h2⟩, hfew⟩)
    firstState_init
    (takenJob ++ [.call 1, .start 0 (.sendjob (some 1) (some ()) () ()), .getNode 0 (some 2),
      .fill 0, .insert 0, .give 0, .back 1, .delRegion 1 3, .delEnd 1])
    (by decide)
  obtain ⟨hgone, hcalls⟩ := Bool.and_eq_true_iff.mp hp
  exact ⟨st, hst, hgone, eq_of_beq hcalls, callsInTime_of_noPending hst 1⟩

/-- The schedule is deleted first, and the callback called. -/
theorem pendingCall_late : ∃ st : SchState Unit Unit, threadSys.Reach Quiet st ∧
    ∃ c ∈ st.calls 1, c.2.2 = true := by
  obtain ⟨st, hst, -, hp⟩ := reach_of_few (p := fun st => (st.calls 1).any fun c => c.2.2)
    (fun _ _ hbusy => quiet_of_check (n := 2) hbusy) firstState_init
    (takenJob ++ [.delRegion 1 3, .delEnd 1, .call 1]) (by decide)
  exact ⟨st, hst, List.any_eq_true.mp hp⟩

end Zcrt
