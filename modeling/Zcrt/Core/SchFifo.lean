/-
  The jobs of a thread are called in the order of their priorities, within one in the order they
  came, and each once.

  * `History`: what came into a queue is what was taken from it and then what is in it.
  * `fifo_exactlyOnce`: so it is in every run without deletions, and each job taken is the first of
    the highest queue that has one.
-/
import Zcrt.Core.SchInv

namespace Zcrt

open Lib

variable {F P : Type}

/-- The jobs taken from one queue. -/
def SchState.removed (st : SchState F P) (t : Nat) (p : EZCRTPriority) :
    List (Option F × List P) :=
  ((st.taken t).filter fun x => x.1 = p).map Prod.snd

/-- The callbacks and arguments in a queue, in the order of the links. -/
def Contents (w : SchHeap F P) (que : SchPriList) (q : List (Option F × List P)) : Prop :=
  ∃ l, Seg w.links que.jobs l none ∧ l.map w.item = q.map some

/-- The callback a worker has copied out and not called. -/
def Worker.pending : Worker F P → List (Option F × List P)
  | call fn args _ _ => [(some fn, args)]
  | _ => []

/-- What was recorded agrees with what is in the queues, and with what was called. -/
structure History (st : SchState F P) (v : SchView) : Prop where
  queued : ∀ t p, p ≠ .num →
    (st.inserted t p).map some = (st.removed t p).map some ++ (v.que t p).map st.heap.item
  fns : ∀ t p x, x ∈ st.inserted t p → x.1 ≠ none
  called : ∀ t, (st.taken t).map Prod.snd =
    (st.calls t).map (fun c => (some c.1, c.2.1)) ++ (st.wrk t).pending

section History

variable {R : Option Nat → List Nat → Prop} {st st' : SchState F P} {v v' : SchView}
  {act : SchAct F P}

/-- A step that takes and calls nothing, and changes no queue. -/
theorem History.of_eq (h : History st v) (hins : st'.inserted = st.inserted)
    (htaken : st'.taken = st.taken) (hcalls : st'.calls = st.calls)
    (hpend : ∀ t, (st'.wrk t).pending = (st.wrk t).pending)
    (hque : ∀ t p, (v'.que t p).map st'.heap.item = (v.que t p).map st.heap.item) :
    History st' v' where
  queued := fun t p hp => by
    have hrem : st'.removed t p = st.removed t p := by
      unfold SchState.removed
      rw [htaken]
    rw [hins, hrem, hque]
    exact h.queued t p hp
  fns := by
    rw [hins]
    exact h.fns
  called := fun t => by
    rw [htaken, hcalls, hpend]
    exact h.called t

/-- A worker between two places where it has nothing to call. -/
theorem pending_update {t : Nat} {pc : Worker F P} (h : (st.wrk t).pending = [])
    (hpc : pc.pending = []) (t' : Nat) :
    (Function.update st.wrk t pc t').pending = (st.wrk t').pending := by
  by_cases ht : t' = t
  · subst ht
    rw [Function.update_self, h, hpc]
  · rw [Function.update_of_ne ht]

/-- The jobs of a queue are as they were when the nodes written are none of them. -/
theorem items_of_loose {w w' : SchHeap F P} {t : Nat} {p : EZCRTPriority}
    (h : ∀ a ∈ v.que t p, w'.jobs a = w.jobs a) :
    (v.que t p).map w'.item = (v.que t p).map w.item :=
  List.map_congr_left fun a ha => by
    unfold SchHeap.item
    rw [h a ha]

theorem History.insert {i a t : Nat} {x : Send F P} {th th' : SchThr} {sc sc' : ZSchedule}
    {w' : SchHeap F P} (h : History st v)
    (hj : st.heap.jobs a = some (filledJob x.sch x.cb x.argn x.args))
    (hins : Inserted st.heap w' v t x.sch a th th' sc sc') :
    History { (st.setHeap w').setSnd i (.give x.sch t) with
        inserted := Function.update st.inserted t (Function.update (st.inserted t) sc.pri
          (st.inserted t sc.pri ++ [(some x.cb, x.args)])) }
      (v.setQue t sc.pri (v.que t sc.pri ++ [a])) := by
  -- the histories after it, by thread and priority
  have hold : ∀ t' p, ¬(t' = t ∧ p = sc.pri) →
      Function.update st.inserted t (Function.update (st.inserted t) sc.pri
        (st.inserted t sc.pri ++ [(some x.cb, x.args)])) t' p = st.inserted t' p := by
    intro t' p hq
    by_cases ht : t' = t
    · subst ht
      rw [Function.update_self, Function.update_of_ne fun hp => hq ⟨rfl, hp⟩]
    · rw [Function.update_of_ne ht]
  have hnew : Function.update st.inserted t (Function.update (st.inserted t) sc.pri
      (st.inserted t sc.pri ++ [(some x.cb, x.args)])) t sc.pri =
        st.inserted t sc.pri ++ [(some x.cb, x.args)] := by
    rw [Function.update_self, Function.update_self]
  refine ⟨fun t' p hp => ?_, fun t' p y hy => ?_, h.called⟩
  · change
      (Function.update st.inserted t (Function.update (st.inserted t) sc.pri _) t' p).map some =
      (st.removed t' p).map some ++ List.map w'.item _
    rw [hins.item]
    by_cases hq : t' = t ∧ p = sc.pri
    · obtain ⟨rfl, rfl⟩ := hq
      rw [hnew, SchView.setQue_self, List.map_append, List.map_append, h.queued t' sc.pri hp,
        List.append_assoc, List.map_singleton, List.map_singleton, SchHeap.item_of_jobs hj]
      rfl
    · rw [hold t' p hq, SchView.setQue_of_ne _ _ hq]
      exact h.queued t' p hp
  · have hy' : y ∈ Function.update st.inserted t (Function.update (st.inserted t) sc.pri
        (st.inserted t sc.pri ++ [(some x.cb, x.args)])) t' p := hy
    by_cases hq : t' = t ∧ p = sc.pri
    · obtain ⟨rfl, rfl⟩ := hq
      rw [hnew] at hy'
      rcases List.mem_append.mp hy' with hy' | hy'
      · exact h.fns t' sc.pri y hy'
      · rw [List.mem_singleton.mp hy']
        exact Option.some_ne_none _
    · rw [hold t' p hq] at hy'
      exact h.fns t' p y hy'

/-- The job a worker takes is the earliest that came and was not taken, and has a callback. -/
theorem History.first (h : History st v) {t s a : Nat} {th th' : SchThr} {sc : ZSchedule}
    {j : ScheduleJob F P} {r : List Nat} {w' : SchHeap F P}
    (ht : Taken st.heap w' v t s a th th' sc j r) :
    (st.inserted t sc.pri).map some =
      (st.removed t sc.pri).map some ++ some (j.fn, j.args) :: r.map st.heap.item ∧
    ∃ fn, j.fn = some fn := by
  have hq := h.queued t sc.pri ht.pri
  rw [ht.first, List.map_cons, SchHeap.item_of_jobs ht.unlink.job] at hq
  refine ⟨hq, Option.ne_none_iff_exists'.mp ?_⟩
  have hmem : some (j.fn, j.args) ∈ (st.inserted t sc.pri).map some := by
    rw [hq]
    exact List.mem_append_right _ List.mem_cons_self
  obtain ⟨x, hx, he⟩ := List.mem_map.mp hmem
  obtain rfl := Option.some.inj he
  exact h.fns t sc.pri _ hx

theorem History.take {t s a : Nat} {th th' : SchThr} {sc : ZSchedule} {j : ScheduleJob F P}
    {r : List Nat} {w' : SchHeap F P} (hv : Chains st.heap v) (h : History st v)
    (hscan : st.wrk t = .scan) (ht : Taken st.heap w' v t s a th th' sc j r) {pc : Worker F P}
    (hpc : pc = match j.fn with
      | some fn => .call fn j.args j.sch (st.late a)
      | none => .scan) :
    History { (st.setHeap w').setWrk t pc with
        taken := Function.update st.taken t (st.taken t ++ [(sc.pri, j.fn, j.args)]) }
      ((v.setQue t sc.pri r).setFree t (a :: v.free t)) := by
  obtain ⟨hfirst, fn, hfn⟩ := h.first ht
  have haq : a ∈ v.que t sc.pri := by
    rw [ht.first]
    exact List.mem_cons_self
  -- what is left in the queues was not written
  have hkeep : ∀ t' p, a ∉ v.que t' p → (v.que t' p).map w'.item = (v.que t' p).map st.heap.item :=
    fun t' p hno => items_of_loose fun b hb => ht.otherJob b fun he => hno (he ▸ hb)
  have hrest : r.map w'.item = r.map st.heap.item := by
    have hseg := hv.que t th sc.pri ht.unlink.thr ht.pri
    rw [ht.first] at hseg
    refine List.map_congr_left fun b hb => ?_
    unfold SchHeap.item
    rw [ht.otherJob b fun he => (List.nodup_cons.mp hseg.nodup).1 (he ▸ hb)]
  -- the records after it
  have hself :
      ((st.taken t ++ [(sc.pri, j.fn, j.args)]).filter fun x => x.1 = sc.pri).map Prod.snd =
      st.removed t sc.pri ++ [(j.fn, j.args)] := by
    rw [List.filter_append, List.map_append, List.filter_cons_of_pos (by simp)]
    rfl
  have hother : ∀ p, p ≠ sc.pri →
      ((st.taken t ++ [(sc.pri, j.fn, j.args)]).filter fun x => x.1 = p).map Prod.snd =
        st.removed t p := fun p hp => by
    rw [List.filter_append, List.map_append,
      List.filter_cons_of_neg (by simpa using fun he => hp he.symm), List.filter_nil, List.map_nil,
      List.append_nil]
    rfl
  refine ⟨fun t' p hp => ?_, h.fns, fun t' => ?_⟩
  · change (st.inserted t' p).map some = List.map some (List.map Prod.snd
      (List.filter _ (Function.update st.taken t _ t'))) ++ List.map w'.item _
    rw [SchView.setFree_que]
    by_cases hq : t' = t ∧ p = sc.pri
    · obtain ⟨rfl, rfl⟩ := hq
      rw [Function.update_self, hself, SchView.setQue_self, hrest, hfirst, List.map_append,
        List.append_assoc]
      rfl
    · have hno : a ∉ v.que t' p := fun hm => hq (hv.que_unique haq hm)
      rw [SchView.setQue_of_ne _ _ hq, hkeep t' p hno, h.queued t' p hp]
      refine congrArg (fun l => List.map some l ++ _) ?_
      by_cases htt : t' = t
      · subst htt
        rw [Function.update_self, hother p fun he => hq ⟨rfl, he⟩]
      · rw [Function.update_of_ne htt]
        rfl
  · change List.map Prod.snd (Function.update st.taken t _ t') =
      _ ++ (Function.update st.wrk t pc t').pending
    by_cases htt : t' = t
    · subst htt
      have hcalled := h.called t'
      rw [hscan] at hcalled
      rw [Function.update_self, Function.update_self, List.map_append, hcalled, hpc, hfn]
      rw [List.append_assoc]
      rfl
    · rw [Function.update_of_ne htt, Function.update_of_ne htt]
      exact h.called t'

theorem History.effect (hv : ThreadInv R st v) (h : History st v) (hnd : NoDelete st act)
    (he : Effect st v act st' v') : History st' v' := by
  cases he with
  | attach hq hj hs =>
      refine h.of_eq rfl rfl rfl (fun _ => rfl) fun t p => ?_
      rw [hq]
      exact items_of_loose fun a _ => congrFun hj a
  | refused => exact h
  | start x hi => exact h.of_eq rfl rfl rfl (fun _ => rfl) fun _ _ => rfl
  | getNode hi hn pc hpc =>
      refine h.of_eq rfl rfl rfl (fun _ => rfl) fun t p => items_of_loose fun a ha => ?_
      exact hn.otherJob a fun he => (hn.loose a he).que t p ha
  | fill hi hl =>
      refine h.of_eq rfl rfl rfl (fun _ => rfl) fun t p => items_of_loose fun a ha => ?_
      exact Function.update_of_ne (hl.ne_que ha) ..
  | insert ha hi hl hj hins => exact h.insert hj hins
  | give hi => exact h.of_eq rfl rfl rfl (fun _ => rfl) fun _ _ => rfl
  | check ht pc hpc =>
      refine h.of_eq rfl rfl rfl (pending_update (by rw [ht]; rfl) ?_) fun _ _ => rfl
      rcases hpc with rfl | rfl <;> rfl
  | token ht hn =>
      exact h.of_eq rfl rfl rfl (pending_update (by rw [ht]; rfl) rfl) fun _ _ => rfl
  | timeout ht =>
      exact h.of_eq rfl rfl rfl (pending_update (by rw [ht]; rfl) rfl) fun _ _ => rfl
  | empty ht hall =>
      exact h.of_eq rfl rfl rfl (pending_update (by rw [ht]; rfl) rfl) fun _ _ => rfl
  | take ht htaken pc hpc => exact h.take hv.chains ht htaken hpc
  | @call t fn args sch late ht =>
      refine ⟨h.queued, h.fns, fun t' => ?_⟩
      change _ = List.map _ (Function.update st.calls t _ t') ++
        (Function.update st.wrk t .running t').pending
      by_cases htt : t' = t
      · subst htt
        have hcalled := h.called t'
        rw [ht] at hcalled
        rw [Function.update_self, Function.update_self, List.map_append, List.append_assoc]
        exact hcalled
      · rw [Function.update_of_ne htt, Function.update_of_ne htt]
        exact h.called t'
  | back ht =>
      exact h.of_eq rfl rfl rfl (pending_update (by rw [ht]; rfl) rfl) fun _ _ => rfl
  | purge ha hp =>
      obtain ⟨fuel, rfl⟩ := ha
      exact hnd.elim
  | free ha hs hf =>
      refine h.of_eq rfl rfl rfl (fun t => ?_)
        fun t p => items_of_loose fun a _ => congrFun hf.jobs a
      change (Worker.mark _ (st.wrk t)).pending = _
      cases st.wrk t <;> rfl

theorem history_init (h : threadSys.init st) (hv : Chains st.heap v) : History st v := by
  refine ⟨fun t p _ => ?_, ?_, ?_⟩
  · rw [que_of_init h hv, h.2]
    rfl
  · rw [h.2]
    exact fun t p x hx => nomatch hx
  · rw [h.2]
    exact fun t => rfl

end History

/-! ## Along a run -/

section Run

variable {st : SchState F P} {v : SchView} {t : Nat} {th : SchThr} {p : EZCRTPriority}

theorem contents_nil (hv : Chains st.heap v) (ht : st.heap.thrs t = some th) (hp : p ≠ .num)
    (hnil : v.que t p = []) : Contents st.heap (th.que p) [] := by
  have hseg := hv.que t th p ht hp
  rw [hnil] at hseg
  exact ⟨[], hseg, rfl⟩

/-- What came into a queue, split into what was taken and what is there. -/
theorem History.split (h : History st v) (hp : p ≠ .num) :
    ∃ q, (v.que t p).map st.heap.item = q.map some ∧ st.inserted t p = st.removed t p ++ q := by
  obtain ⟨l1, q, hl, h1, h2⟩ := List.map_eq_append_iff.mp (h.queued t p hp)
  refine ⟨q, h2.symm, ?_⟩
  rw [hl, (Option.some_injective _).list_map h1]

theorem history_of_noDelete (h : threadSys.Reach NoDelete st) :
    ∃ v, ThreadInv LastTail st v ∧ History st v :=
  threadInv_of_noDelete (fun _ _ hc => hc) (fun _ _ hst hv => history_init hst hv.chains)
    (fun _ _ _ _ _ hv hI hnd he => hI.effect hv hnd he) h

/-- In every run without deletions: what came into a queue is what was taken from it and then what
    is in it; a worker that takes a job takes the first of the highest queue that has one, and has
    its callback and arguments to call; and what was taken is what was called, with at most the last
    still to be. -/
theorem fifo_exactlyOnce (h : threadSys.Reach NoDelete st) (ht : st.heap.thrs t = some th) :
    (∀ p, p ≠ .num →
      ∃ q, Contents st.heap (th.que p) q ∧ st.inserted t p = st.removed t p ++ q) ∧
    (∀ st', threadSys.next st (.remove t) = some st' →
      (st'.taken t = st.taken t ∧ ∀ p, p ≠ .num → Contents st.heap (th.que p) []) ∨
      ∃ p fn args q sch late, p ≠ .num ∧
        (∀ p', p'.level < p.level → Contents st.heap (th.que p') []) ∧
        Contents st.heap (th.que p) ((some fn, args) :: q) ∧
        st'.taken t = st.taken t ++ [(p, some fn, args)] ∧ st'.wrk t = .call fn args sch late) ∧
    (st.taken t).map Prod.snd =
      (st.calls t).map (fun c => (some c.1, c.2.1)) ++ (st.wrk t).pending := by
  obtain ⟨v, hv, hist⟩ := history_of_noDelete h
  refine ⟨fun p hp => ?_, fun st' hn => ?_, hist.called t⟩
  · obtain ⟨q, hq, hins⟩ := hist.split (t := t) hp
    exact ⟨q, ⟨v.que t p, hv.chains.que t th p ht hp, hq⟩, hins⟩
  · obtain ⟨-, ⟨rfl, hall⟩ | ⟨s, a, th0, th', sc, j, r, w', pc, htaken, hpc, rfl⟩⟩ :=
      hv.remove_cases hn
    · exact Or.inl ⟨rfl, fun p hp => contents_nil hv.chains ht hp (hall p hp)⟩
    · obtain ⟨hfirst, fn, hfn⟩ := hist.first htaken
      obtain ⟨q, hq, -⟩ := hist.split (t := t) htaken.pri
      -- the queue's contents begin with the job taken
      obtain ⟨q', rfl⟩ : ∃ q', q = (some fn, j.args) :: q' := by
        rw [htaken.first, List.map_cons, SchHeap.item_of_jobs htaken.unlink.job, hfn] at hq
        cases q with
        | nil => exact nomatch hq
        | cons x q' =>
            rw [← Option.some.inj (List.cons.inj hq).1]
            exact ⟨q', rfl⟩
      refine Or.inr ⟨sc.pri, fn, j.args, q', j.sch, st.late a, htaken.pri, fun p' hlt => ?_,
        ⟨v.que t sc.pri, hv.chains.que t th sc.pri ht htaken.pri, hq⟩, ?_, ?_⟩
      · have hp' : p' ≠ .num := by
          rintro rfl
          have hle : sc.pri.level ≤ EZCRTPriority.num.level := by cases sc.pri <;> decide
          omega
        exact contents_nil hv.chains ht hp' (htaken.higher p' hlt)
      · rw [← hfn]
        exact Function.update_self ..
      · rw [hpc, hfn]
        exact Function.update_self ..

/-- No insertion fails: what a sender has filled can always be inserted. -/
theorem insert_enabled (h : threadSys.Reach NoDelete st) {i a : Nat} {x : Send F P}
    (hi : st.snd i = .filled x a) : ∃ st', threadSys.next st (.insert i) = some st' := by
  obtain ⟨v, hv, -⟩ := history_of_noDelete h
  obtain ⟨hl, hj⟩ := hv.held i a (filledJob x.sch x.cb x.argn x.args) (by rw [hi]; rfl)
  obtain ⟨-, sc, hs, hp⟩ := hv.sending i x (by rw [hi]; rfl)
  obtain ⟨t, th, hst, ht⟩ := hv.chains.thr x.sch sc hs
  obtain ⟨w', th', sc', hins, -⟩ := zcrtSInsertJob_ok hv.chains ht hs hst hp
    (hv.tails t th sc.pri ht hp) hj rfl rfl hl
  have hplace : schPlace st.heap x.sch = .ok (t, sc.pri) := by
    unfold schPlace
    rw [deref_some hs, except_ok_bind]
    dsimp only
    rw [hst, deref_some ht]
    rfl
  refine Option.isSome_iff_exists.mp ?_
  change (st.insertStep i).isSome = true
  unfold SchState.insertStep
  rw [hi]
  dsimp only
  rw [hplace, hins]
  rfl

/-- No turn of a worker fails. -/
theorem remove_enabled (h : threadSys.Reach NoDelete st) (ht : st.heap.thrs t = some th)
    (hscan : st.wrk t = .scan) : ∃ st', threadSys.next st (.remove t) = some st' := by
  obtain ⟨v, hv, -⟩ := history_of_noDelete h
  refine Option.isSome_iff_exists.mp ?_
  change (st.removeStep t).isSome = true
  unfold SchState.removeStep
  rw [hscan]
  dsimp only
  rcases zcrtScheduleThreadProc_ok hv.chains ht with
    ⟨hnone, -⟩ | ⟨a, s, sc, j, r, w', th', hsome, -⟩
  · rw [hnone]
    rfl
  · rw [hsome]
    rfl

end Run

/-- A job of low and one of high priority came to the module's thread, in this order; the worker is
    about to look for one. -/
def twoSent : List (SchAct Unit Bool) :=
  [.create .zcrtThread .priLow 8 (some 1) none, .create .zcrtThread .priHigh 8 (some 2) none,
    .start 0 (.sendjobArgn (some 1) (some ()) [false]), .getNode 0 (some 1), .fill 0, .insert 0,
    .start 1 (.sendjobArgn (some 2) (some ()) [true]), .getNode 1 (some 2), .fill 1, .insert 1,
    .check 0 false, .timeout 0]

/-- What is in the queue of high priority, and the job taken, which is what will be called. -/
theorem fifo_exactlyOnce_two : ∃ (st st' : SchState Unit Bool) (th : SchThr),
    threadSys.next st (.remove 0) = some st' ∧
    Contents st.heap (th.que .priHigh) [(some (), [true])] ∧
    ∃ p fn args sch late, st'.taken 0 = [(p, some fn, args)] ∧
      st'.wrk 0 = .call fn args sch late := by
  obtain ⟨st, hst, hp⟩ := Sys.reach_of_run
    (p := fun st => (threadSys.next st (.remove 0)).any (fun st' => (st'.taken 0).length == 1) &&
      (st.heap.thrs 0).isSome && (st.inserted 0 .priHigh == [(some (), [true])]) &&
      (st.taken 0).isEmpty) noDelete_sound
    (Sys.Reach.init firstState_init) twoSent (by decide)
  simp only [Bool.and_eq_true, beq_iff_eq, List.isEmpty_iff, Option.any_eq_true_iff_get] at hp
  obtain ⟨⟨⟨⟨hsome, hlen⟩, hth⟩, hins⟩, htaken⟩ := hp
  obtain ⟨th, hth⟩ := Option.isSome_iff_exists.mp hth
  obtain ⟨st', hn⟩ := Option.isSome_iff_exists.mp hsome
  obtain ⟨hque, hrem, -⟩ := fifo_exactlyOnce hst hth
  obtain ⟨q, hq, hsplit⟩ := hque .priHigh (by decide)
  have hnone : st.removed 0 .priHigh = [] := by
    unfold SchState.removed
    rw [htaken]
    rfl
  rw [hins, hnone] at hsplit
  obtain rfl : [(some (), [true])] = q := hsplit
  refine ⟨st, st', th, hn, hq, ?_⟩
  rcases hrem st' hn with ⟨hsame, -⟩ | ⟨p, fn, args, q', sch, late, -, -, -, htook, hcall⟩
  · rw [Option.get_of_eq_some hsome hn, hsame, htaken] at hlen
    exact nomatch hlen
  · rw [htaken] at htook
    exact ⟨p, fn, args, sch, late, htook, hcall⟩

end Zcrt
