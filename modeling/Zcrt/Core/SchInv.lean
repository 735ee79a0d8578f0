/-
  What holds in every state of `threadSys`, and what each of its steps can do.

  * `ThreadInv`: the queues, the nodes the senders hold, the schedules they send to.
  * `Effect`: the steps by what they do to the queues and to what was recorded.
  * `effect_of_step`: no step does anything else, and each keeps `ThreadInv`.
-/
import Zcrt.Core.SchSys

namespace Zcrt

open Lib

variable {F P : Type}

/-- The node a sender holds, and what is in it. -/
def Sender.holds : Sender F P → Option (Nat × ScheduleJob F P)
  | node x job => some (job, { fn := some x.cb, argn := 0, args := [], sch := none, next := none })
  | filled x job => some (job, filledJob x.sch x.cb x.argn x.args)
  | _ => none

/-- The queues are lists, `tail` as `R` says; every node a sender holds is its own and in no list;
    the schedules sent to are there, and not being deleted; those being deleted have no jobs. -/
structure ThreadInv (R : Option Nat → List Nat → Prop) (st : SchState F P) (v : SchView) :
    Prop where
  chains : Chains st.heap v
  tails : Tails R st.heap v
  held : ∀ i a j, (st.snd i).holds = some (a, j) → v.Loose a ∧ st.heap.jobs a = some j
  distinct : ∀ i i' a j j', (st.snd i).holds = some (a, j) → (st.snd i').holds = some (a, j') →
    i = i'
  sending : ∀ i x, (st.snd i).sending = some x →
    st.dying x.sch = false ∧ ∃ sc, st.heap.schs x.sch = some sc ∧ sc.pri ≠ .num
  dying : ∀ s, st.dying s = true →
    (∃ sc, st.heap.schs s = some sc) ∧ ∀ t p a, a ∈ v.que t p → st.heap.owner a ≠ some s

namespace ThreadInv

variable {R : Option Nat → List Nat → Prop} {st st' : SchState F P} {v v' : SchView}

/-- A step after which the same nodes are held and the same schedules sent to. -/
theorem of_heap (h : ThreadInv R st v) (hsnd : st'.snd = st.snd) (hdy : st'.dying = st.dying)
    (hchains : Chains st'.heap v') (htails : Tails R st'.heap v')
    (hheld : ∀ a j, v.Loose a → st.heap.jobs a = some j → v'.Loose a ∧ st'.heap.jobs a = some j)
    (hpri : PriKept st.heap st'.heap)
    (hque : ∀ t p a, a ∈ v'.que t p → a ∈ v.que t p ∧ st'.heap.owner a = st.heap.owner a) :
    ThreadInv R st' v' where
  chains := hchains
  tails := htails
  held := fun i a j hh => by
    rw [hsnd] at hh
    obtain ⟨hl, hj⟩ := h.held i a j hh
    exact hheld a j hl hj
  distinct := by
    rw [hsnd]
    exact h.distinct
  sending := fun i x hx => by
    rw [hsnd] at hx
    obtain ⟨hd, sc, hs, hp⟩ := h.sending i x hx
    obtain ⟨sc', hs', hp'⟩ := hpri x.sch sc hs
    exact ⟨by rw [hdy, hd], sc', hs', by rw [hp']; exact hp⟩
  dying := fun s hs => by
    rw [hdy] at hs
    obtain ⟨⟨sc, hsc⟩, hno⟩ := h.dying s hs
    obtain ⟨sc', hs', -⟩ := hpri s sc hsc
    refine ⟨⟨sc', hs'⟩, fun t p a ha => ?_⟩
    rw [(hque t p a ha).2]
    exact hno t p a (hque t p a ha).1

/-- A step of sender `i`, which then stands at `pc`. -/
theorem of_sender (h : ThreadInv R st v) {i : Nat} {pc : Sender F P}
    (hsnd : st'.snd = Function.update st.snd i pc) (hdy : st'.dying = st.dying)
    (hchains : Chains st'.heap v') (htails : Tails R st'.heap v')
    (hheld : ∀ i' a j, i' ≠ i → (st.snd i').holds = some (a, j) →
      v'.Loose a ∧ st'.heap.jobs a = some j)
    (hown : ∀ a j, pc.holds = some (a, j) → (v'.Loose a ∧ st'.heap.jobs a = some j) ∧
      ∀ i' j', i' ≠ i → (st.snd i').holds ≠ some (a, j'))
    (hpri : PriKept st.heap st'.heap)
    (hsend : ∀ x, pc.sending = some x → st.dying x.sch = false ∧
      ∃ sc, st.heap.schs x.sch = some sc ∧ sc.pri ≠ .num)
    (hque : ∀ t p a, a ∈ v'.que t p → ∀ s, st.dying s = true → st'.heap.owner a ≠ some s) :
    ThreadInv R st' v' where
  chains := hchains
  tails := htails
  held := fun i' a j hh => by
    rw [hsnd] at hh
    by_cases hi : i' = i
    · subst hi
      rw [Function.update_self] at hh
      exact (hown a j hh).1
    · rw [Function.update_of_ne hi] at hh
      exact hheld i' a j hi hh
  distinct := fun i1 i2 a j1 j2 h1 h2 => by
    rw [hsnd] at h1 h2
    by_cases hi1 : i1 = i <;> by_cases hi2 : i2 = i
    · rw [hi1, hi2]
    · rw [hi1, Function.update_self] at h1
      rw [Function.update_of_ne hi2] at h2
      exact absurd h2 ((hown a j1 h1).2 i2 j2 hi2)
    · rw [hi2, Function.update_self] at h2
      rw [Function.update_of_ne hi1] at h1
      exact absurd h1 ((hown a j2 h2).2 i1 j1 hi1)
    · rw [Function.update_of_ne hi1] at h1
      rw [Function.update_of_ne hi2] at h2
      exact h.distinct i1 i2 a j1 j2 h1 h2
  sending := fun i' x hx => by
    have hold : st.dying x.sch = false ∧ ∃ sc, st.heap.schs x.sch = some sc ∧ sc.pri ≠ .num := by
      rw [hsnd] at hx
      by_cases hi : i' = i
      · subst hi
        rw [Function.update_self] at hx
        exact hsend x hx
      · rw [Function.update_of_ne hi] at hx
        exact h.sending i' x hx
    obtain ⟨hd, sc, hs, hp⟩ := hold
    obtain ⟨sc', hs', hp'⟩ := hpri x.sch sc hs
    exact ⟨by rw [hdy, hd], sc', hs', by rw [hp']; exact hp⟩
  dying := fun s hs => by
    rw [hdy] at hs
    obtain ⟨⟨sc, hsc⟩, -⟩ := h.dying s hs
    obtain ⟨sc', hs', -⟩ := hpri s sc hsc
    exact ⟨⟨sc', hs'⟩, fun t p a ha => hque t p a ha s hs⟩

/-- A job in a queue is not one of a schedule being deleted. -/
theorem notDying (h : ThreadInv R st v) {t a s : Nat} {p : EZCRTPriority} (ha : a ∈ v.que t p)
    (hs : st.dying s = true) : st.heap.owner a ≠ some s := (h.dying s hs).2 t p a ha

end ThreadInv

/-! ## What a step can do -/

/-- The steps of `threadSys`: what each does to the state, and to the lists. -/
inductive Effect (st : SchState F P) (v : SchView) (act : SchAct F P) :
    SchState F P → SchView → Prop
  | attach {w' : SchHeap F P} {v' : SchView} (hq : v'.que = v.que)
      (hj : w'.jobs = st.heap.jobs) (hs : SchsGrow st.heap w') : Effect st v act (st.setHeap w') v'
  | refused : Effect st v act st v
  | start {i : Nat} (x : Send F P) (hi : st.snd i = .idle) :
      Effect st v act (st.setSnd i (.begun x)) v
  | getNode {i t : Nat} {x : Send F P} {w' : SchHeap F P} {th th' : SchThr} {job : Option Nat}
      {f : List Nat} (hi : st.snd i = .begun x) (hn : NewJob st.heap w' v t th th' x.cb job f)
      (pc : Sender F P) (hpc : pc = .idle ∨ ∃ a, pc = .node x a) :
      Effect st v act ((st.setHeap w').setSnd i pc) (v.setFree t f)
  | fill {i a : Nat} {x : Send F P} (hi : st.snd i = .node x a) (hl : v.Loose a) :
      Effect st v act {
        (st.setHeap (st.heap.setJob a (filledJob x.sch x.cb x.argn x.args))).setSnd i
          (.filled x a) with late := Function.update st.late a false } v
  | insert {i a t : Nat} {x : Send F P} {th th' : SchThr} {sc sc' : ZSchedule} {w' : SchHeap F P}
      (ha : act = .insert i) (hi : st.snd i = .filled x a) (hl : v.Loose a)
      (hj : st.heap.jobs a = some (filledJob x.sch x.cb x.argn x.args))
      (hins : Inserted st.heap w' v t x.sch a th th' sc sc') :
      Effect st v act { (st.setHeap w').setSnd i (.give x.sch t) with
        inserted := Function.update st.inserted t (Function.update (st.inserted t) sc.pri
          (st.inserted t sc.pri ++ [(some x.cb, x.args)])) }
        (v.setQue t sc.pri (v.que t sc.pri ++ [a]))
  | give {i s t : Nat} (hi : st.snd i = .give s t) :
      Effect st v act { st.setSnd i .idle with sem := Function.update st.sem t (st.sem t + 1) } v
  | check {t : Nat} (ht : st.wrk t = .head) (pc : Worker F P) (hpc : pc = .wait ∨ pc = .exited) :
      Effect st v act (st.setWrk t pc) v
  | token {t n : Nat} (ht : st.wrk t = .wait) (hn : st.sem t = n + 1) :
      Effect st v act { st.setWrk t .scan with sem := Function.update st.sem t n } v
  | timeout {t : Nat} (ht : st.wrk t = .wait) : Effect st v act (st.setWrk t .scan) v
  | empty {t : Nat} (ht : st.wrk t = .scan) (hall : ∀ p, p ≠ .num → v.que t p = []) :
      Effect st v act (st.setWrk t .head) v
  | take {t s a : Nat} {th th' : SchThr} {sc : ZSchedule} {j : ScheduleJob F P} {r : List Nat}
      {w' : SchHeap F P} (ht : st.wrk t = .scan) (h : Taken st.heap w' v t s a th th' sc j r)
      (pc : Worker F P) (hpc : pc = match j.fn with
        | some fn => .call fn j.args j.sch (st.late a)
        | none => .scan) :
      Effect st v act { (st.setHeap w').setWrk t pc with
        taken := Function.update st.taken t (st.taken t ++ [(sc.pri, j.fn, j.args)]) }
        ((v.setQue t sc.pri r).setFree t (a :: v.free t))
  | call {t : Nat} {fn : F} {args : List P} {sch : Option Nat} {late : Bool}
      (ht : st.wrk t = .call fn args sch late) :
      Effect st v act { st.setWrk t .running with
        calls := Function.update st.calls t (st.calls t ++ [(fn, args, late)]) } v
  | back {t : Nat} (ht : st.wrk t = .running) : Effect st v act (st.setWrk t .scan) v
  | purge {s t : Nat} {th th1 th' : SchThr} {sc : ZSchedule} {w1 w' : SchHeap F P} {v1 : SchView}
      (ha : ∃ fuel, act = .delRegion s fuel) (h : Purged st.heap w1 w' v v1 t s th th1 th' sc) :
      Effect st v act { st.setHeap w' with dying := Function.update st.dying s true } v1
  | free {s t : Nat} {th th' : SchThr} {sc : ZSchedule} {w' : SchHeap F P} (ha : act = .delEnd s)
      (hs : st.dying s = true) (h : Freed st.heap w' t s th th' sc) :
      Effect st v act { st.setHeap w' with
        dying := Function.update st.dying s false
        late := fun a => if st.heap.owner a = some s then true else st.late a
        wrk := fun t => Worker.mark s (st.wrk t) } v

namespace ThreadInv

variable {R : Option Nat → List Nat → Prop} {st st' : SchState F P} {v v' : SchView}

/-! ## Creations and senders -/

theorem of_created (h : ThreadInv R st v) {w' : SchHeap F P}
    (hc : Created R st.heap w' v v') : ThreadInv R (st.setHeap w') v' := by
  refine h.of_heap rfl rfl hc.chains hc.tails (fun a j hl hj => ⟨⟨?_, ?_⟩, ?_⟩) hc.pri
    fun t p a ha => ⟨by rwa [hc.que] at ha, ?_⟩
  · rw [hc.que]
    exact hl.que
  · exact fun t ha => hl.free t (hc.free t a ha)
  · change w'.jobs a = some j
    rw [hc.jobs, hj]
  · change w'.owner a = _
    unfold SchHeap.owner
    rw [hc.jobs]

theorem start_step (h : ThreadInv R st v) {i : Nat} {call : SendCall F P}
    (hq : Quiet st (.start i call)) (hn : st.startStep i call = some st') :
    Effect st v (.start i call) st' v ∧ ThreadInv R st' v := by
  unfold SchState.startStep at hn
  split at hn
  · rename_i x hi hx
    obtain rfl := Option.some.inj hn
    refine ⟨Effect.start x hi, h.of_sender rfl rfl h.chains h.tails (fun i' a j _ => h.held i' a j)
      (fun a j hh => nomatch hh) (PriKept.of_eq rfl) (fun y hy => ?_)
      fun t p a ha s hs => h.notDying ha hs⟩
    obtain rfl := Option.some.inj hy
    obtain ⟨hhandle, hsch⟩ := sendTests_ok hx
    exact ⟨hq x.sch hhandle, hsch⟩
  · obtain rfl := Option.some.inj hn
    exact ⟨Effect.refused, h⟩
  · exact nomatch hn

theorem getNode_step (h : ThreadInv R st v) {i : Nat} {mem : Option Nat}
    (hn : st.getNodeStep i mem = some st') :
    ∃ v', Effect st v (.getNode i mem) st' v' ∧ ThreadInv R st' v' := by
  unfold SchState.getNodeStep at hn
  split at hn
  · rename_i x hi
    split at hn
    · rename_i hfresh
      obtain ⟨hd, sc, hs, hp⟩ := h.sending i x (by rw [hi]; rfl)
      obtain ⟨t, th, hst, ht⟩ := h.chains.thr x.sch sc hs
      obtain ⟨job, w1, f, th1, hnew, hnj⟩ := zcrtSJobNew_ok h.chains ht x.cb mem
        (SchOp.eq_none_of_fresh hfresh)
      have hnode : sendNode st.heap x mem = .ok (job, w1) := by
        unfold sendNode
        rw [deref_some hs, except_ok_bind]
        dsimp only
        rw [hst, hnew]
      rw [hnode] at hn
      -- what the other senders hold is not the node handed out
      have hheld : ∀ i' a j, i' ≠ i → (st.snd i').holds = some (a, j) →
          (v.setFree t f).Loose a ∧ w1.jobs a = some j := fun i' a j _ hh => by
        obtain ⟨hl, hj⟩ := h.held i' a j hh
        obtain ⟨hne, hl'⟩ := hnj.other hl hj
        exact ⟨hl', by rw [hnj.otherJob a hne, hj]⟩
      have hque : ∀ t' p a, a ∈ (v.setFree t f).que t' p → ∀ s, st.dying s = true →
          w1.owner a ≠ some s := fun t' p a ha s hs' => by
        have hne : job ≠ some a := fun he => (hnj.loose a he).que t' p ha
        have howner : w1.owner a = st.heap.owner a := by
          unfold SchHeap.owner
          rw [hnj.otherJob a hne]
        rw [howner]
        exact h.notDying ha hs'
      have hpri : PriKept st.heap w1 := PriKept.of_eq hnj.schs
      cases job with
      | none =>
          obtain rfl := Option.some.inj hn
          exact ⟨_, Effect.getNode hi hnj .idle (Or.inl rfl), h.of_sender rfl rfl hnj.chains
            (hnj.tails ht h.tails) hheld (fun a j hh => nomatch hh) hpri (fun y hy => nomatch hy)
            hque⟩
      | some job =>
          obtain rfl := Option.some.inj hn
          refine ⟨_, Effect.getNode hi hnj (.node x job) (Or.inr ⟨job, rfl⟩), h.of_sender rfl rfl
            hnj.chains (hnj.tails ht h.tails) hheld (fun a j hh => ?_) hpri (fun y hy => ?_) hque⟩
          · obtain ⟨rfl, rfl⟩ := Prod.mk.inj (Option.some.inj hh)
            refine ⟨⟨hnj.loose _ rfl, hnj.blank _ rfl⟩, fun i' j' _ hh' => ?_⟩
            obtain ⟨hl, hj⟩ := h.held i' _ j' hh'
            exact (hnj.other hl hj).1 rfl
          · obtain rfl := Option.some.inj hy
            exact ⟨hd, sc, hs, hp⟩
    · exact nomatch hn
  · exact nomatch hn

theorem fill_step (h : ThreadInv R st v) {i : Nat} (hn : st.fillStep i = some st') :
    Effect st v (.fill i) st' v ∧ ThreadInv R st' v := by
  unfold SchState.fillStep at hn
  split at hn
  · rename_i x a hi
    have hhold : (st.snd i).holds =
        some (a, { fn := some x.cb, argn := 0, args := [], sch := none, next := none }) := by
      rw [hi]
      rfl
    obtain ⟨hl, hj⟩ := h.held i a _ hhold
    have hfill : sendFill st.heap x a =
        .ok (st.heap.setJob a (filledJob x.sch x.cb x.argn x.args)) := by
      unfold sendFill
      rw [deref_some hj, except_ok_bind]
      rfl
    rw [hfill] at hn
    obtain rfl := Option.some.inj hn
    have hmine : ∀ i' j', i' ≠ i → (st.snd i').holds ≠ some (a, j') :=
      fun i' j' hne hh => hne (h.distinct i' i a j' _ hh hhold)
    refine ⟨Effect.fill hi hl, h.of_sender rfl rfl (h.chains.setJob hl _) h.tails
      (fun i' b j hne hh => ?_) (fun b j hh => ?_) (PriKept.of_eq rfl) (fun y hy => ?_)
      fun t p b hb s hs => ?_⟩
    · obtain ⟨hl', hj'⟩ := h.held i' b j hh
      have hba : b ≠ a := fun he => hmine i' j hne (he ▸ hh)
      exact ⟨hl', (Function.update_of_ne hba ..).trans hj'⟩
    · obtain ⟨rfl, rfl⟩ := Prod.mk.inj (Option.some.inj hh)
      exact ⟨⟨hl, Function.update_self ..⟩, hmine⟩
    · obtain rfl := Option.some.inj hy
      exact h.sending i x (by rw [hi]; rfl)
    · have howner : (st.heap.setJob a (filledJob x.sch x.cb x.argn x.args)).owner b =
          st.heap.owner b := by
        rw [SchHeap.setJob_owner, Function.update_of_ne (hl.ne_que hb)]
      exact fun ho => h.notDying hb hs (howner.symm.trans ho)
  · exact nomatch hn

/-- An insertion that succeeds. -/
theorem insert_cases (hR : TailRule R) (h : ThreadInv R st v) {i : Nat}
    (hn : st.insertStep i = some st') :
    ∃ (x : Send F P) (a t : Nat) (th th' : SchThr) (sc sc' : ZSchedule) (w' : SchHeap F P),
      st.snd i = .filled x a ∧ st.heap.thrs t = some th ∧ st.heap.schs x.sch = some sc ∧
      Inserted st.heap w' v t x.sch a th th' sc sc' ∧
      st' = { (st.setHeap w').setSnd i (.give x.sch t) with
        inserted := Function.update st.inserted t (Function.update (st.inserted t) sc.pri
          (st.inserted t sc.pri ++ [(some x.cb, x.args)])) } := by
  unfold SchState.insertStep at hn
  split at hn
  · rename_i x a hi
    obtain ⟨hl, hj⟩ := h.held i a (filledJob x.sch x.cb x.argn x.args) (by rw [hi]; rfl)
    obtain ⟨hd, sc, hs, hp⟩ := h.sending i x (by rw [hi]; rfl)
    obtain ⟨t, th, hst, ht⟩ := h.chains.thr x.sch sc hs
    have hplace : schPlace st.heap x.sch = .ok (t, sc.pri) := by
      unfold schPlace
      rw [deref_some hs, except_ok_bind]
      dsimp only
      rw [hst, deref_some ht]
      rfl
    rw [hplace] at hn
    cases hins : zcrtSInsertJob st.heap x.sch a with
    | error e =>
        rw [hins] at hn
        exact nomatch hn
    | ok w1 =>
        rw [hins] at hn
        obtain rfl := Option.some.inj hn
        have htl :=
          tail_of_insert h.chains ht hs hst hp (hR.weak _ _ (h.tails t th sc.pri ht hp)) hins
        obtain ⟨w2, th', sc', hins', hi'⟩ :=
          zcrtSInsertJob_ok h.chains ht hs hst hp htl hj rfl rfl hl
        obtain rfl := Except.ok.inj (hins.symm.trans hins')
        exact ⟨x, a, t, th, th', sc, sc', w1, hi, ht, hs, hi', rfl⟩
  · exact nomatch hn

theorem insert_step (hR : TailRule R) (h : ThreadInv R st v) {i : Nat}
    (hn : st.insertStep i = some st') :
    ∃ v', Effect st v (.insert i) st' v' ∧ ThreadInv R st' v' := by
  obtain ⟨x, a, t, th, th', sc, sc', w1, hi, ht, hs, hi', rfl⟩ := h.insert_cases hR hn
  have hhold : (st.snd i).holds = some (a, filledJob x.sch x.cb x.argn x.args) := by
    rw [hi]
    rfl
  obtain ⟨hl, hj⟩ := h.held i a _ hhold
  obtain ⟨hd, -⟩ := h.sending i x (by rw [hi]; rfl)
  refine ⟨_, Effect.insert rfl hi hl hj hi', h.of_sender rfl rfl hi'.chains
    (hi'.tails ht h.tails fun l => hR.snoc l a) (fun i' b j hne hh => ?_)
    (fun b j hh => nomatch hh) (PriKept.of_update hi'.schs hs hi'.schPri) (fun y hy => nomatch hy)
    fun t' p b hb s hs' ho => ?_⟩
  · obtain ⟨hl', hj'⟩ := h.held i' b j hh
    have hba : b ≠ a := fun he => hne (h.distinct i' i a j _ (he ▸ hh) hhold)
    refine ⟨⟨fun t' p' hm => ?_, hl'.free⟩, (hi'.otherJob b (hl'.que t sc.pri)).trans hj'⟩
    by_cases hq : t' = t ∧ p' = sc.pri
    · obtain ⟨rfl, rfl⟩ := hq
      rw [SchView.setQue_self] at hm
      rcases List.mem_append.mp hm with hm | hm
      · exact hl'.que t' sc.pri hm
      · exact hba (List.mem_singleton.mp hm)
    · rw [SchView.setQue_of_ne _ _ hq] at hm
      exact hl'.que t' p' hm
  · have ho' : st.heap.owner b = some s := (congrFun hi'.owner b).symm.trans ho
    by_cases hq : t' = t ∧ p = sc.pri
    · obtain ⟨rfl, rfl⟩ := hq
      rw [SchView.setQue_self] at hb
      rcases List.mem_append.mp hb with hb | hb
      · exact h.notDying hb hs' ho'
      · rw [List.mem_singleton.mp hb, SchHeap.owner_of_jobs hj] at ho'
        have hxs : x.sch = s := Option.some.inj ho'
        rw [← hxs, hd] at hs'
        exact nomatch hs'
    · rw [SchView.setQue_of_ne _ _ hq] at hb
      exact h.notDying hb hs' ho'

theorem give_step (h : ThreadInv R st v) {i : Nat} (hn : st.giveStep i = some st') :
    Effect st v (.give i) st' v ∧ ThreadInv R st' v := by
  unfold SchState.giveStep at hn
  split at hn
  · rename_i s t hi
    obtain rfl := Option.some.inj hn
    exact ⟨Effect.give hi, h.of_sender rfl rfl h.chains h.tails (fun i' a j _ => h.held i' a j)
      (fun a j hh => nomatch hh) (PriKept.of_eq rfl) (fun y hy => nomatch hy)
      fun t p a ha s hs => h.notDying ha hs⟩
  · exact nomatch hn

/-! ## The workers -/

/-- A step that leaves the heap, the senders and the deletions alone. -/
theorem of_worker (h : ThreadInv R st v) (hheap : st'.heap = st.heap) (hsnd : st'.snd = st.snd)
    (hdy : st'.dying = st.dying) : ThreadInv R st' v where
  chains := hheap ▸ h.chains
  tails := hheap ▸ h.tails
  held := by
    rw [hheap, hsnd]
    exact h.held
  distinct := by
    rw [hsnd]
    exact h.distinct
  sending := by
    rw [hheap, hsnd, hdy]
    exact h.sending
  dying := by
    rw [hheap, hdy]
    exact h.dying

theorem check_step (h : ThreadInv R st v) {t : Nat} {stop : Bool}
    (hn : st.checkStep t stop = some st') :
    Effect st v (.check t stop) st' v ∧ ThreadInv R st' v := by
  unfold SchState.checkStep at hn
  split at hn
  · rename_i th ht _
    obtain rfl := Option.some.inj hn
    refine ⟨Effect.check ht _ ?_, h.of_worker rfl rfl rfl⟩
    split
    · exact Or.inl rfl
    · exact Or.inr rfl
  · exact nomatch hn

theorem token_step (h : ThreadInv R st v) {t : Nat} (hn : st.tokenStep t = some st') :
    Effect st v (.token t) st' v ∧ ThreadInv R st' v := by
  unfold SchState.tokenStep at hn
  split at hn
  · rename_i n ht hs
    obtain rfl := Option.some.inj hn
    exact ⟨Effect.token ht hs, h.of_worker rfl rfl rfl⟩
  · exact nomatch hn

theorem timeout_step (h : ThreadInv R st v) {t : Nat} (hn : st.timeoutStep t = some st') :
    Effect st v (.timeout t) st' v ∧ ThreadInv R st' v := by
  unfold SchState.timeoutStep at hn
  split at hn
  · rename_i ht
    obtain rfl := Option.some.inj hn
    exact ⟨Effect.timeout ht, h.of_worker rfl rfl rfl⟩
  · exact nomatch hn

theorem call_step (h : ThreadInv R st v) {t : Nat} (hn : st.callStep t = some st') :
    Effect st v (.call t) st' v ∧ ThreadInv R st' v := by
  unfold SchState.callStep at hn
  split at hn
  · rename_i fn args sch late ht
    obtain rfl := Option.some.inj hn
    exact ⟨Effect.call ht, h.of_worker rfl rfl rfl⟩
  · exact nomatch hn

theorem back_step (h : ThreadInv R st v) {t : Nat} (hn : st.backStep t = some st') :
    Effect st v (.back t) st' v ∧ ThreadInv R st' v := by
  unfold SchState.backStep at hn
  split at hn
  · rename_i ht
    obtain rfl := Option.some.inj hn
    exact ⟨Effect.back ht, h.of_worker rfl rfl rfl⟩
  · exact nomatch hn

/-- The node a worker takes is in no sender's hands. -/
theorem taken_inv (hR : TailRule R) (h : ThreadInv R st v) {t s a : Nat} {th th' : SchThr}
    {sc : ZSchedule} {j : ScheduleJob F P} {r : List Nat} {w' : SchHeap F P}
    (ht : Taken st.heap w' v t s a th th' sc j r) :
    ThreadInv R (st.setHeap w') ((v.setQue t sc.pri r).setFree t (a :: v.free t)) := by
  have haq : a ∈ v.que t sc.pri := by
    rw [ht.first]
    exact List.mem_cons_self
  have hsub : ∀ t' p b, b ∈ (v.setQue t sc.pri r).que t' p → b ∈ v.que t' p ∧ b ≠ a := by
    intro t' p b hb
    by_cases hq : t' = t ∧ p = sc.pri
    · obtain ⟨rfl, rfl⟩ := hq
      rw [SchView.setQue_self] at hb
      have hseg := h.chains.que t' th sc.pri ht.unlink.thr ht.pri
      rw [ht.first] at hseg ⊢
      exact ⟨List.mem_cons_of_mem _ hb, fun he => (List.nodup_cons.mp hseg.nodup).1 (he ▸ hb)⟩
    · rw [SchView.setQue_of_ne _ _ hq] at hb
      exact ⟨hb, fun he => hq (h.chains.que_unique haq (he ▸ hb))⟩
  refine h.of_heap rfl rfl (ht.chains h.chains)
    (ht.tails h.chains h.tails fun tail hr => hR.pop tail a r hr) (fun b j' hl hj => ?_)
    (PriKept.of_update ht.unlink.schs ht.unlink.sch rfl) fun t' p b hb => ?_
  · have hba : b ≠ a := fun he => hl.que t sc.pri (he ▸ haq)
    refine ⟨⟨fun t' p hm => hl.que t' p (hsub t' p b hm).1, fun t' hm => ?_⟩,
      (ht.otherJob b hba).trans hj⟩
    by_cases ht' : t' = t
    · subst ht'
      rw [SchView.setFree_self] at hm
      rcases List.mem_cons.mp hm with he | hm
      · exact hba he
      · exact hl.free t' hm
    · rw [SchView.setFree_of_ne _ _ ht'] at hm
      exact hl.free t' hm
  · obtain ⟨hb, hne⟩ := hsub t' p b hb
    refine ⟨hb, ?_⟩
    change w'.owner b = _
    rw [ht.unlink.owner, Function.update_of_ne hne]

/-- A worker's turn under the mutex: it finds all queues empty, or takes a job. -/
theorem remove_cases (h : ThreadInv R st v) {t : Nat} (hn : st.removeStep t = some st') :
    st.wrk t = .scan ∧ ((st' = st.setWrk t .head ∧ ∀ p, p ≠ .num → v.que t p = []) ∨
      ∃ s a th th' sc j r w' pc, Taken st.heap w' v t s a th th' sc j r ∧
        (pc = match j.fn with
          | some fn => .call fn j.args j.sch (st.late a)
          | none => .scan) ∧
        st' = { (st.setHeap w').setWrk t pc with
          taken := Function.update st.taken t (st.taken t ++ [(sc.pri, j.fn, j.args)]) }) := by
  unfold SchState.removeStep at hn
  split at hn
  · rename_i hscan
    refine ⟨hscan, ?_⟩
    cases hrun : zcrtScheduleThreadProc st.heap t with
    | error e =>
        rw [hrun] at hn
        exact nomatch hn
    | ok res =>
        obtain ⟨⟨t0, th⟩, ht, -⟩ := except_bind_eq_ok hrun
        obtain ⟨ht0, ht⟩ := deref_eq_ok ht
        obtain rfl := Option.some.inj ht0
        rw [hrun] at hn
        rcases zcrtScheduleThreadProc_ok h.chains ht with
          ⟨hnone, hall⟩ | ⟨a, s, sc, j, r, w1, th', hsome, htaken⟩
        · obtain rfl := Except.ok.inj (hnone.symm.trans hrun)
          obtain rfl := Option.some.inj hn
          exact Or.inl ⟨rfl, hall⟩
        · obtain rfl := Except.ok.inj (hsome.symm.trans hrun)
          have hlevel : SchState.levelOf st.heap j = sc.pri := by
            unfold SchState.levelOf
            rw [htaken.unlink.jobSch, Option.bind_some, htaken.unlink.sch]
            rfl
          dsimp only at hn
          rw [hlevel] at hn
          obtain rfl := Option.some.inj hn
          exact Or.inr ⟨s, a, th, th', sc, j, r, w1, _, htaken, rfl, rfl⟩
  · exact nomatch hn

theorem remove_step (hR : TailRule R) (h : ThreadInv R st v) {t : Nat}
    (hn : st.removeStep t = some st') :
    ∃ v', Effect st v (.remove t) st' v' ∧ ThreadInv R st' v' := by
  obtain ⟨hscan, ⟨rfl, hall⟩ | ⟨s, a, th, th', sc, j, r, w', pc, htaken, hpc, rfl⟩⟩ :=
    h.remove_cases hn
  · exact ⟨v, Effect.empty hscan hall, h.of_worker rfl rfl rfl⟩
  · exact ⟨_, Effect.take hscan htaken pc hpc, (h.taken_inv hR htaken).of_worker rfl rfl rfl⟩

/-! ## Deletions -/

theorem delRegion_step (h : ThreadInv R st v) {s fuel : Nat} (hq : Quiet st (.delRegion s fuel))
    (hpurge : ∀ t th w1 w' v1 th1 th' sc, Purged st.heap w1 w' v v1 t s th th1 th' sc →
      Tails R w' v1)
    (hn : st.delRegionStep s fuel = some st') :
    ∃ v', Effect st v (.delRegion s fuel) st' v' ∧ ThreadInv R st' v' := by
  unfold SchState.delRegionStep at hn
  split at hn
  · exact nomatch hn
  · cases hrun : deleteRegion st.heap s fuel with
    | error e =>
        rw [hrun] at hn
        exact nomatch hn
    | ok w' =>
        rw [hrun] at hn
        obtain rfl := Option.some.inj hn
        obtain ⟨sc, t, th, w1, v1, th1, th', hp⟩ := deleteRegion_ok h.chains hrun
        -- every schedule is still there, with its priority
        have hpri : PriKept st.heap w' := by
          have hmap := hp.schs
          intro s1 sc1 hs1
          have hm := hmap s1
          by_cases hs : s1 = s
          · subst hs
            obtain rfl := Option.some.inj (hp.sch.symm.trans hs1)
            rw [Function.update_self, Option.map_some] at hm
            obtain ⟨sc', hs', he⟩ := Option.map_eq_some_iff.mp hm
            exact ⟨sc', hs', (congrArg ZSchedule.pri he :)⟩
          · rw [Function.update_of_ne hs, hs1, Option.map_some] at hm
            obtain ⟨sc', hs', he⟩ := Option.map_eq_some_iff.mp hm
            exact ⟨sc', hs', (congrArg ZSchedule.pri he :)⟩
        refine ⟨v1, Effect.purge ⟨fuel, rfl⟩ hp, ?_⟩
        exact {
          chains := hp.chains
          tails := hpurge t th w1 w' v1 th1 th' sc hp
          held := fun i a j hh => by
            obtain ⟨hl, hj⟩ := h.held i a j hh
            obtain ⟨hl', hj'⟩ := hp.loose h.chains hl
            exact ⟨hl', hj'.trans hj⟩
          distinct := h.distinct
          sending := fun i x hx => by
            obtain ⟨hd, sc1, hs1, hp1⟩ := h.sending i x hx
            obtain ⟨sc', hs', hp'⟩ := hpri x.sch sc1 hs1
            have hne : x.sch ≠ s := fun he => hq i (he ▸ Sender.uses_of_sending hx)
            exact ⟨(Function.update_of_ne hne ..).trans hd, sc', hs', by rw [hp']; exact hp1⟩
          dying := fun s1 hs1 => by
            by_cases hs : s1 = s
            · subst hs
              obtain ⟨sc', hs', -⟩ := hpri s1 sc hp.sch
              exact ⟨⟨sc', hs'⟩, hp.notOwned⟩
            · have hs1' : st.dying s1 = true := (Function.update_of_ne hs ..).symm.trans hs1
              obtain ⟨⟨sc1, hsc1⟩, -⟩ := h.dying s1 hs1'
              obtain ⟨sc', hs', -⟩ := hpri s1 sc1 hsc1
              refine ⟨⟨sc', hs'⟩, fun t' p' a ha => ?_⟩
              obtain ⟨hold, -, howner⟩ := hp.mem h.chains ha
              exact fun ho => h.notDying hold hs1' (howner.symm.trans ho) }

theorem delEnd_step (h : ThreadInv R st v) {s : Nat} (hn : st.delEndStep s = some st') :
    Effect st v (.delEnd s) st' v ∧ ThreadInv R st' v := by
  unfold SchState.delEndStep at hn
  split at hn
  · rename_i hdy
    cases hrun : deleteEnd st.heap s with
    | error e =>
        rw [hrun] at hn
        exact nomatch hn
    | ok w' =>
        rw [hrun] at hn
        obtain rfl := Option.some.inj hn
        obtain ⟨sc, t, th, th', hf⟩ := deleteEnd_ok hrun
        have hno := (h.dying s hdy).2
        refine ⟨Effect.free rfl hdy hf, ?_⟩
        have howner : w'.owner = st.heap.owner := by
          unfold SchHeap.owner
          rw [hf.jobs]
        exact {
          chains := hf.chains h.chains hno
          tails := hf.tails h.tails
          held := fun i a j hh => by
            obtain ⟨hl, hj⟩ := h.held i a j hh
            exact ⟨hl, (congrFun hf.jobs a).trans hj⟩
          distinct := h.distinct
          sending := fun i x hx => by
            obtain ⟨hd, sc1, hs1, hp1⟩ := h.sending i x hx
            have hne : x.sch ≠ s := fun he => by
              rw [he, hdy] at hd
              exact nomatch hd
            refine ⟨(Function.update_of_ne hne ..).trans hd, sc1, ?_, hp1⟩
            exact (congrFun hf.schs x.sch).trans ((Function.update_of_ne hne ..).trans hs1)
          dying := fun s1 hs1 => by
            by_cases hs : s1 = s
            · subst hs
              exact nomatch (Function.update_self ..).symm.trans hs1
            · have hs1' : st.dying s1 = true := (Function.update_of_ne hs ..).symm.trans hs1
              obtain ⟨⟨sc1, hsc1⟩, hno1⟩ := h.dying s1 hs1'
              refine ⟨⟨sc1, (congrFun hf.schs s1).trans ((Function.update_of_ne hs ..).trans hsc1)⟩,
                fun t' p' a ha => ?_⟩
              exact fun ho => hno1 t' p' a ha ((congrFun howner a).symm.trans ho) }
  · exact nomatch hn

end ThreadInv

section Step

variable {R : Option Nat → List Nat → Prop} {st st' : SchState F P} {v : SchView}

/-- A step of the threads does what one of `Effect` does, and keeps the invariant. -/
theorem effect_of_step (hR : TailRule R) (h : ThreadInv R st v) {act : SchAct F P}
    (hq : Quiet st act)
    (hpurge : ∀ s fuel, act = .delRegion s fuel → ∀ t th w1 w' v1 th1 th' sc,
      Purged st.heap w1 w' v v1 t s th th1 th' sc → Tails R w' v1)
    (hn : threadSys.next st act = some st') :
    ∃ v', Effect st v act st' v' ∧ ThreadInv R st' v' := by
  cases act with
  | create type pri maxsize mem memThr =>
      obtain ⟨w', hw, rfl⟩ := Option.map_eq_some_iff.mp hn
      obtain ⟨ha, hr⟩ := exec_of_next hw
      obtain ⟨⟨r, w1⟩, hrun, rfl⟩ := except_map_eq_ok hr
      obtain ⟨ha1, ha2⟩ := Bool.and_eq_true_iff.mp ha
      obtain ⟨v', hc⟩ := create_created hR h.chains h.tails (SchOp.eq_none_of_fresh ha1)
        (SchOp.eq_none_of_fresh ha2) hrun
      exact ⟨v', Effect.attach hc.que hc.jobs hc.grow, h.of_created hc⟩
  | createShare sch1 pri maxsize mem =>
      obtain ⟨w', hw, rfl⟩ := Option.map_eq_some_iff.mp hn
      obtain ⟨ha, hr⟩ := exec_of_next hw
      obtain ⟨⟨r, w1⟩, hrun, rfl⟩ := except_map_eq_ok hr
      obtain ⟨-, ha2⟩ := Bool.and_eq_true_iff.mp ha
      obtain ⟨v', hc⟩ := createShare_created h.chains h.tails (SchOp.eq_none_of_fresh ha2) hrun
      exact ⟨v', Effect.attach hc.que hc.jobs hc.grow, h.of_created hc⟩
  | start i call => exact ⟨v, h.start_step hq hn⟩
  | getNode i mem => exact h.getNode_step hn
  | fill i => exact ⟨v, h.fill_step hn⟩
  | insert i => exact h.insert_step hR hn
  | give i => exact ⟨v, h.give_step hn⟩
  | check t stop => exact ⟨v, h.check_step hn⟩
  | token t => exact ⟨v, h.token_step hn⟩
  | timeout t => exact ⟨v, h.timeout_step hn⟩
  | remove t => exact h.remove_step hR hn
  | call t => exact ⟨v, h.call_step hn⟩
  | back t => exact ⟨v, h.back_step hn⟩
  | delRegion s fuel => exact h.delRegion_step hq (hpurge s fuel rfl) hn
  | delEnd s => exact ⟨v, h.delEnd_step hn⟩

/-- The first state. -/
theorem threadInv_init (hR : TailRule R) (h : threadSys.init st) : ∃ v, ThreadInv R st v := by
  obtain ⟨hinit, hst⟩ := h
  obtain ⟨v, hv, htail⟩ := queBy_init hR hinit
  refine ⟨v, hv, htail, ?_, ?_, ?_, ?_⟩ <;> rw [hst]
  · exact fun i a j hh => nomatch hh
  · exact fun i i' a j j' hh => nomatch hh
  · exact fun i x hx => nomatch hx
  · exact fun s hs => nomatch hs

end Step

/-- At first there is no schedule, and no job. -/
theorem que_of_init {st : SchState F P} {v : SchView} (h : threadSys.init st)
    (hv : Chains st.heap v) (t : Nat) (p : EZCRTPriority) : v.que t p = [] := by
  refine List.eq_nil_iff_forall_not_mem.mpr fun a ha => ?_
  obtain ⟨s, sc, -, hs, -⟩ := hv.place t p a ha
  obtain ⟨⟨mem, hinit⟩, -⟩ := h
  obtain ⟨⟨thr, w1⟩, hnew, hrest⟩ := except_bind_eq_ok hinit
  rw [← Except.ok.inj hrest] at hs
  cases mem with
  | none => exact nomatch hnew
  | some thr =>
      rw [← (Prod.mk.inj (Except.ok.inj hnew)).2] at hs
      exact nomatch hs

/-- In a run that no deletion disturbs the queues are lists, but for tails that are `NULL`. -/
theorem threadInv_of_quiet {C : SchState F P → SchAct F P → Prop}
    (hC : ∀ st act, C st act → Quiet st act) {I : SchState F P → SchView → Prop}
    (hinit : ∀ st v, threadSys.init st → ThreadInv WeakTail st v → I st v)
    (hstep : ∀ st v act st' v', ThreadInv WeakTail st v →
      I st v → C st act → Effect st v act st' v' → I st' v') {st : SchState F P}
    (h : threadSys.Reach C st) :
    ∃ v, ThreadInv WeakTail st v ∧ I st v := by
  refine h.invariant (I := fun st => ∃ v, ThreadInv WeakTail st v ∧ I st v) (fun st hst => ?_)
    fun st act st' ⟨v, hv, hI⟩ hc hn => ?_
  · obtain ⟨v, hv⟩ := threadInv_init tailRule_weak hst
    exact ⟨v, hv, hinit st v hst hv⟩
  · obtain ⟨v', heff, hv'⟩ := effect_of_step tailRule_weak hv (hC st act hc)
      (fun s fuel _ t th w1 w' v1 th1 th' sc hp =>
        hp.tails (hp.removed.tailWeak hv.tails hp.thr hp.pri)) hn
    exact ⟨v', hv', hstep st v act st' v' hv hI hc heff⟩

/-- A step that is not one of a deletion, when none is going on. -/
theorem effect_of_noDelete {R : Option Nat → List Nat → Prop} (hR : TailRule R)
    {st st' : SchState F P} {v : SchView} {act : SchAct F P} (hdy : ∀ s, st.dying s = false)
    (hv : ThreadInv R st v) (hc : NoDelete st act) (hn : threadSys.next st act = some st') :
    Quiet st act ∧ (∀ s, st'.dying s = false) ∧
      ∃ v', Effect st v act st' v' ∧ ThreadInv R st' v' := by
  have hquiet : Quiet st act := by
    cases act with
    | start i call => exact fun s _ => hdy s
    | delRegion s fuel => exact hc.elim
    | _ => exact trivial
  obtain ⟨v', heff, hv'⟩ := effect_of_step hR hv hquiet
    (fun s fuel he => by rw [he] at hc; exact hc.elim) hn
  refine ⟨hquiet, ?_, v', heff, hv'⟩
  cases heff with
  | purge ha _ =>
      obtain ⟨fuel, rfl⟩ := ha
      exact hc.elim
  | free _ hs _ =>
      rw [hdy] at hs
      exact nomatch hs
  | _ => exact hdy

/-- Without deletions every `tail` is right, too. -/
theorem threadInv_of_noDelete {C : SchState F P → SchAct F P → Prop}
    (hC : ∀ st act, C st act → NoDelete st act) {I : SchState F P → SchView → Prop}
    (hinit : ∀ st v, threadSys.init st → ThreadInv LastTail st v → I st v)
    (hstep : ∀ st v act st' v', ThreadInv LastTail st v → I st v →
      C st act → Effect st v act st' v' → I st' v') {st : SchState F P}
    (h : threadSys.Reach C st) :
    ∃ v, ThreadInv LastTail st v ∧ I st v := by
  have hall : (∀ s, st.dying s = false) ∧
      ∃ v, ThreadInv LastTail st v ∧ I st v := by
    refine h.invariant
      (I := fun st => (∀ s, st.dying s = false) ∧ ∃ v, ThreadInv LastTail st v ∧ I st v)
      (fun st hst => ⟨fun s => by rw [hst.2], ?_⟩) fun st act st' ⟨hdy, v, hv, hI⟩ hc hn => ?_
    · obtain ⟨v, hv⟩ := threadInv_init tailRule_ok hst
      exact ⟨v, hv, hinit st v hst hv⟩
    · obtain ⟨-, hdy', v', heff, hv'⟩ := effect_of_noDelete tailRule_ok hdy hv (hC st act hc) hn
      exact ⟨hdy', v', hv', hstep st v act st' v' hv hI hc heff⟩
  exact hall.2

/-- A run without deletions is one that no deletion disturbs. -/
theorem reach_quiet_of_noDelete {st : SchState F P} (h : threadSys.Reach NoDelete st) :
    threadSys.Reach Quiet st := by
  have hall : (∀ s, st.dying s = false) ∧ (∃ v, ThreadInv LastTail st v) ∧
      threadSys.Reach Quiet st := by
    refine h.invariant
      (I := fun st => (∀ s, st.dying s = false) ∧ (∃ v, ThreadInv LastTail st v) ∧
        threadSys.Reach Quiet st)
      (fun st hst => ⟨fun s => by rw [hst.2], threadInv_init tailRule_ok hst, Sys.Reach.init hst⟩)
      fun st act st' ⟨hdy, ⟨v, hv⟩, hr⟩ hc hn => ?_
    obtain ⟨hquiet, hdy', v', -, hv'⟩ := effect_of_noDelete tailRule_ok hdy hv hc hn
    exact ⟨hdy', ⟨v', hv'⟩, hr.step hquiet hn⟩
  exact hall.2.2

/-- The threads of a module whose own thread is at address 0. -/
def firstState : SchState F P :=
  { heap := moduleHeap, sem := fun _ => 0, snd := fun _ => .idle, wrk := fun _ => .head,
    dying := fun _ => false, late := fun _ => false, inserted := fun _ _ => [],
    taken := fun _ => [],
    calls := fun _ => [] }

theorem firstState_init : threadSys.init (firstState : SchState F P) := ⟨moduleHeap_init, rfl⟩

end Zcrt
