/-
  No wake-up of a worker is lost.

  * `Wake`: while a queue of a thread has a job, there is a token, or one to come, or the worker is
    at work and will look at the queues again.
  * `queuesEmpty_of_waiting`: a worker that waits without token has nothing to do.
-/
import Zcrt.Core.SchInv

namespace Zcrt

open Lib

variable {F P : Type}

/-- The worker will look at the queues before it waits. -/
def Worker.Active : Worker F P → Prop
  | head => False
  | wait => False
  | exited => False
  | _ => True

/-- A thread with a job has a token, a sender that is to give one, or a worker at work. -/
def Wake (st : SchState F P) (v : SchView) : Prop :=
  ∀ t p, p ≠ .num → v.que t p ≠ [] →
    0 < st.sem t ∨ (∃ i s, st.snd i = .give s t) ∨ (st.wrk t).Active

section Wake

variable {R : Option Nat → List Nat → Prop} {st st' : SchState F P} {v v' : SchView}
  {act : SchAct F P}

/-- A sender's step that is not to give or past it. -/
theorem give_of_ne {i : Nat} {pc : Sender F P} (hi : ∀ s t, st.snd i ≠ .give s t) {t : Nat}
    (h : ∃ i s, st.snd i = .give s t) : ∃ i' s, Function.update st.snd i pc i' = .give s t := by
  obtain ⟨i', s, he⟩ := h
  refine ⟨i', s, ?_⟩
  rw [Function.update_of_ne]
  · exact he
  · rintro rfl
    exact hi s t he

/-- The worker's pc, at its own thread and at the others. -/
theorem active_update {t t' : Nat} {pc : Worker F P} (ht : (st.wrk t).Active → pc.Active)
    (h : (st.wrk t').Active) : (Function.update st.wrk t pc t').Active := by
  by_cases he : t' = t
  · subst he
    rw [Function.update_self]
    exact ht h
  · rwa [Function.update_of_ne he]

theorem active_self {wrk : Nat → Worker F P} {t : Nat} {pc : Worker F P} (h : pc.Active) :
    (Function.update wrk t pc t).Active := by
  rwa [Function.update_self]

theorem active_other {wrk : Nat → Worker F P} {t t' : Nat} {pc : Worker F P} (he : t' ≠ t)
    (h : (wrk t').Active) : (Function.update wrk t pc t').Active := by
  rwa [Function.update_of_ne he]

theorem Wake.effect (hv : ThreadInv R st v) (h : Wake st v) (he : Effect st v act st' v') :
    Wake st' v' := by
  cases he with
  | attach hq hj hs =>
      intro t p hp hne
      rw [hq] at hne
      exact h t p hp hne
  | refused => exact h
  | start x hi =>
      exact fun t p hp hne => (h t p hp hne).imp_right fun hg =>
        hg.imp_left (give_of_ne fun s t hgive => nomatch hi.symm.trans hgive)
  | getNode hi hn pc hpc =>
      exact fun t p hp hne => (h t p hp hne).imp_right fun hg =>
        hg.imp_left (give_of_ne fun s t hgive => nomatch hi.symm.trans hgive)
  | fill hi hl =>
      exact fun t p hp hne => (h t p hp hne).imp_right fun hg =>
        hg.imp_left (give_of_ne fun s t hgive => nomatch hi.symm.trans hgive)
  | @insert i a t x th th' sc sc' w' ha hi hl hj hins =>
      intro t' p hp hne
      by_cases ht : t' = t
      · -- the sender itself is now to give
        subst ht
        exact Or.inr (Or.inl ⟨i, x.sch, Function.update_self ..⟩)
      · rw [SchView.setQue_of_ne _ _ fun he => ht he.1] at hne
        exact (h t' p hp hne).imp_right fun hg =>
          hg.imp_left (give_of_ne fun s t hgive => nomatch hi.symm.trans hgive)
  | @give i s t hi =>
      intro t' p hp hne
      by_cases ht : t' = t
      · subst ht
        refine Or.inl ?_
        change 0 < Function.update st.sem t' (st.sem t' + 1) t'
        rw [Function.update_self]
        omega
      · rcases h t' p hp hne with hs | ⟨i', s', hg⟩ | hw
        · exact Or.inl (lt_of_lt_of_eq hs (Function.update_of_ne ht ..).symm)
        · refine Or.inr (Or.inl ⟨i', s', (Function.update_of_ne (fun he => ht ?_) ..).trans hg⟩)
          rw [he, hi] at hg
          exact (Sender.give.inj hg).2.symm
        · exact Or.inr (Or.inr hw)
  | check ht pc hpc =>
      refine fun t' p hp hne => (h t' p hp hne).imp_right fun hg => hg.imp_right (active_update ?_)
      rw [ht]
      exact fun hf => hf.elim
  | @token t n ht hn =>
      intro t' p hp hne
      by_cases he : t' = t
      · subst he
        exact Or.inr (Or.inr (active_self trivial))
      · refine (h t' p hp hne).imp (fun hs => lt_of_lt_of_eq hs (Function.update_of_ne he ..).symm)
          ?_
        exact fun hg => hg.imp_right (active_update fun _ => trivial)
  | timeout ht =>
      exact fun t' p hp hne => (h t' p hp hne).imp_right fun hg =>
        hg.imp_right (active_update fun _ => trivial)
  | @empty t ht hall =>
      -- its queues are empty, so that it need not look again
      intro t' p hp hne
      by_cases he : t' = t
      · subst he
        exact absurd (hall p hp) hne
      · exact (h t' p hp hne).imp_right fun hg => hg.imp_right (active_other he)
  | @take t s a th th' sc j r w' ht htaken pc hpc =>
      intro t' p hp hne
      have hactive : pc.Active := by
        rw [hpc]
        split <;> trivial
      by_cases he : t' = t
      · subst he
        exact Or.inr (Or.inr (active_self hactive))
      · rw [SchView.setFree_que, SchView.setQue_of_ne _ _ fun hq => he hq.1] at hne
        exact (h t' p hp hne).imp_right fun hg => hg.imp_right (active_update fun _ => hactive)
  | call ht =>
      exact fun t' p hp hne => (h t' p hp hne).imp_right fun hg =>
        hg.imp_right (active_update fun _ => trivial)
  | back ht =>
      exact fun t' p hp hne => (h t' p hp hne).imp_right fun hg =>
        hg.imp_right (active_update fun _ => trivial)
  | purge ha hp =>
      intro t' p hpn hne
      refine h t' p hpn fun hnil => ?_
      obtain ⟨b, hb⟩ := List.exists_mem_of_ne_nil _ hne
      have := (hp.mem hv.chains hb).1
      rw [hnil] at this
      exact nomatch this
  | free ha hs hf =>
      refine fun t' p hp hne => (h t' p hp hne).imp_right fun hg => hg.imp_right fun hw => ?_
      change (Worker.mark _ (st.wrk t')).Active
      cases hpc : st.wrk t' <;> rw [hpc] at hw <;> exact hw

end Wake

def Worker.isWait : Worker F P → Bool
  | wait => true
  | _ => false

theorem Worker.eq_wait {pc : Worker F P} (h : pc.isWait = true) : pc = .wait := by
  cases pc with
  | wait => rfl
  | _ => exact nomatch h

/-- While the worker waits, there is no token and no sender is between its insert and its give, all
    queues of the thread are empty. Deletions may go on, of schedules nobody sends to. -/
theorem queuesEmpty_of_waiting {st : SchState F P} (h : threadSys.Reach Quiet st) {t : Nat}
    {th : SchThr} (ht : st.heap.thrs t = some th) (hwait : st.wrk t = .wait) (hsem : st.sem t = 0)
    (hgive : ∀ i s, st.snd i ≠ .give s t) (p : EZCRTPriority) (hp : p ≠ .num) :
    th.que p = { jobs := none, tail := none } := by
  obtain ⟨v, hv, hwake⟩ := threadInv_of_quiet (I := Wake) (fun _ _ hq => hq)
    (fun st v hst hv t p _ hne => absurd (que_of_init hst hv.chains t p) hne)
    (fun st v act st' v' hv hI _ he => hI.effect hv he) h
  have hnil : v.que t p = [] := by
    by_contra hne
    rcases hwake t p hp hne with hs | ⟨i, s, hg⟩ | hw
    · omega
    · exact hgive i s hg
    · rw [hwait] at hw
      exact hw
  have hseg := hv.chains.que t th p ht hp
  have htail := hv.tails t th p ht hp
  rw [hnil] at hseg htail
  have hjobs : (th.que p).jobs = none := hseg
  have htl : (th.que p).tail = none := htail.elim id id
  exact (show th.que p = ⟨(th.que p).jobs, (th.que p).tail⟩ from rfl).trans (by rw [hjobs, htl])

/-- Two senders give a job each to the module's thread, in turn; its worker calls both and waits
    again. -/
theorem queuesEmpty_of_waiting_again : ∃ (st : SchState Unit Unit) (th : SchThr),
    threadSys.Reach Quiet st ∧ (st.calls 0).length = 2 ∧ st.heap.thrs 0 = some th ∧
      st.wrk 0 = .wait ∧ ∀ p, p ≠ .num → th.que p = { jobs := none, tail := none } := by
  obtain ⟨st, hst, hbusy, hp⟩ := reach_of_few (F := Unit) (P := Unit)
    (p := fun st => (st.calls 0).length == 2 && ((st.heap.thrs 0).isSome &&
      ((st.wrk 0).isWait && (st.sem 0 == 0 &&
        (List.range 2).all fun i => (st.snd i).handle == none))))
    (fun _ _ hbusy => quiet_of_check (n := 2) hbusy) firstState_init
    [.create .zcrtThread .priLow 8 (some 1) none, .createShare (some 1) .priHigh 8 (some 2),
      .check 0 false, .start 0 (.sendjob (some 1) (some ()) () ()),
      .start 1 (.sendjobArgn (some 2) (some ()) [()]), .getNode 0 (some 1), .getNode 1 (some 2),
      .fill 0, .insert 0, .fill 1, .give 0, .token 0, .insert 1, .remove 0, .call 0, .give 1,
      .back 0, .remove 0, .call 0, .back 0, .remove 0, .check 0 false, .token 0, .remove 0,
      .check 0 false]
    (by decide)
  simp only [Bool.and_eq_true, beq_iff_eq] at hp
  obtain ⟨hcalls, hthr, hwait, hsem, hsnd⟩ := hp
  obtain ⟨th, ht⟩ := Option.isSome_iff_exists.mp hthr
  have hgive : ∀ i s, st.snd i ≠ .give s 0 := fun i s hg => by
    by_cases hi : i < 2
    · have := List.all_eq_true.mp hsnd i (List.mem_range.mpr hi)
      rw [hg] at this
      exact nomatch this
    · rw [(hbusy i (by omega)).1] at hg
      exact nomatch hg
  have hw := Worker.eq_wait hwait
  exact ⟨st, th, hst, hcalls, ht, hw, queuesEmpty_of_waiting hst ht hw hsem hgive⟩

end Zcrt
