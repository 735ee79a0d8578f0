/-
  The size of a schedule's queue. A sender tests it before it has the mutex, and inserts later.

  * `WithinSize`: no schedule has more jobs than its `maxsize`.
  * `HasRoom`: each insertion finds room, whatever the sender's test said.
  * `withinSize_iff`: the bound holds as long as that does, and no longer.
-/
import Zcrt.Core.SchInv

namespace Zcrt

open Lib

variable {F P : Type}

/-- No schedule's `cursize` is above its `maxsize`, nor the number of its jobs in any queue. -/
def WithinSize (w : SchHeap F P) : Prop :=
  ∀ s sc, w.schs s = some sc → sc.cursize ≤ sc.maxsize ∧
    ∀ t th p l, w.thrs t = some th → p ≠ .num → Seg w.links (th.que p).jobs l none →
      ((l.countP fun a => w.owner a = some s : Nat) : Int) ≤ sc.maxsize

/-- A step that is not one of a deletion, and that inserts no job into a queue that is full by
    then. -/
def HasRoom (st : SchState F P) : SchAct F P → Prop
  | .insert i => ∀ x a sc, st.snd i = .filled x a → st.heap.schs x.sch = some sc →
      sc.cursize < sc.maxsize
  | .delRegion _ _ => False
  | _ => True

theorem HasRoom.noDelete {st : SchState F P} {act : SchAct F P} (h : HasRoom st act) :
    NoDelete st act := by
  cases act with
  | delRegion s fuel => exact h
  | _ => trivial

/-- What `cursize` says of every schedule. -/
def Bounded (w : SchHeap F P) : Prop :=
  ∀ s sc, w.schs s = some sc → 0 ≤ sc.maxsize ∧ sc.cursize ≤ sc.maxsize

section Bounded

variable {w w' : SchHeap F P} {v v' : SchView} {st st' : SchState F P} {act : SchAct F P}

/-- The jobs of a schedule are in one queue, and `cursize` is their number. -/
theorem Bounded.withinSize (h : Bounded w) (hv : Chains w v) : WithinSize w := by
  intro s sc hs
  obtain ⟨hpos, hle⟩ := h s sc hs
  refine ⟨hle, fun t th p l ht hp hseg => ?_⟩
  obtain rfl := (hv.que t th p ht hp).unique hseg
  by_cases hplace : sc.thr = some t ∧ sc.pri = p
  · obtain ⟨hst, rfl⟩ := hplace
    rw [← hv.count s sc t hs hst]
    exact hle
  · have hnone : (v.que t p).countP (fun a => w.owner a = some s) = 0 :=
      List.countP_eq_zero.mpr fun a ha ho => by
        obtain ⟨s', sc', ho', hs', hst', hp'⟩ := hv.place t p a ha
        obtain rfl := Option.some.inj (ho'.symm.trans (of_decide_eq_true ho))
        obtain rfl := Option.some.inj (hs.symm.trans hs')
        exact hplace ⟨hst', hp'⟩
    rw [hnone]
    exact hpos

theorem Bounded.grow (h : Bounded w) (hg : SchsGrow w w') : Bounded w' := fun s sc hs => by
  rcases hg s sc hs with hold | ⟨hzero, hpos⟩
  · exact h s sc hold
  · exact ⟨hpos, by rw [hzero]; exact hpos⟩

/-- One schedule changed. -/
theorem Bounded.update (h : Bounded w) {s : Nat} {sc : ZSchedule}
    (hs : w'.schs = Function.update w.schs s (some sc))
    (hsc : 0 ≤ sc.maxsize ∧ sc.cursize ≤ sc.maxsize) : Bounded w' := fun s1 sc1 hs1 => by
  rw [hs] at hs1
  by_cases he : s1 = s
  · rw [he, Function.update_self] at hs1
    obtain rfl := Option.some.inj hs1
    exact hsc
  · rw [Function.update_of_ne he] at hs1
    exact h s1 sc1 hs1

/-- What is asked of a step keeps the bound. -/
theorem Bounded.effect (h : Bounded st.heap) (hroom : HasRoom st act)
    (he : Effect st v act st' v') : Bounded st'.heap := by
  cases he with
  | attach hq hj hs => exact h.grow hs
  | getNode hi hn pc hpc => exact h.grow (SchsGrow.of_eq hn.schs)
  | fill hi hl => exact h.grow (SchsGrow.of_eq rfl)
  | @insert i a t x th th' sc sc' w' ha hi hl hj hins =>
      obtain rfl := ha
      have hlt := hroom x a sc hi hins.sch
      change Bounded w'
      refine h.update hins.schs ?_
      rw [hins.maxsize, hins.cursize]
      exact ⟨(h x.sch sc hins.sch).1, hlt⟩
  | take ht htaken pc hpc =>
      obtain ⟨hpos, hle⟩ := h _ _ htaken.unlink.sch
      exact h.update htaken.unlink.schs ⟨hpos, by dsimp only; omega⟩
  | purge ha hp =>
      obtain ⟨fuel, rfl⟩ := ha
      exact hroom.elim
  | @free s t th th' sc w' ha hs hf =>
      change Bounded w'
      refine h.grow fun s1 sc1 hs1 => Or.inl ?_
      rw [hf.schs] at hs1
      by_cases hne : s1 = s
      · rw [hne, Function.update_self] at hs1
        exact nomatch hs1
      · rwa [Function.update_of_ne hne] at hs1
  | _ => exact h

end Bounded

/-! ## Along a run -/

section Run

variable {st st' : SchState F P} {act : SchAct F P}

theorem bounded_of_init (h : threadSys.init st) : Bounded st.heap := by
  obtain ⟨⟨mem, hinit⟩, -⟩ := h
  obtain ⟨⟨thr, w1⟩, hnew, hrest⟩ := except_bind_eq_ok hinit
  rw [← Except.ok.inj hrest]
  cases mem with
  | none => exact nomatch hnew
  | some thr =>
      rw [← (Prod.mk.inj (Except.ok.inj hnew)).2]
      exact fun s sc hs => nomatch hs

theorem bounded_of_hasRoom (h : threadSys.Reach HasRoom st) :
    ∃ v, ThreadInv LastTail st v ∧ Bounded st.heap :=
  threadInv_of_noDelete (I := fun st _ => Bounded st.heap) (fun _ _ hc => hc.noDelete)
    (fun _ _ hst _ => bounded_of_init hst) (fun _ _ _ _ _ _ hb hc he => hb.effect hc he) h

/-- No schedule has more jobs than its `maxsize` as long as every insertion finds room. An insertion
    that finds none makes it one too many. -/
theorem withinSize_iff (h : threadSys.Reach HasRoom st) : WithinSize st.heap ∧
    ∀ act st', NoDelete st act → threadSys.next st act = some st' →
      (WithinSize st'.heap ↔ HasRoom st act) := by
  obtain ⟨v, hv, hb⟩ := bounded_of_hasRoom h
  refine ⟨hb.withinSize hv.chains, fun act st' hnd hn => ⟨fun hwithin => ?_, fun hroom => ?_⟩⟩
  · cases act with
    | delRegion s fuel => exact hnd
    | insert i =>
        intro x a sc hi hs
        obtain ⟨x', a', t, th, th', sc', sc1, w', hi', -, -, hins, rfl⟩ :=
          hv.insert_cases tailRule_ok hn
        obtain ⟨rfl, rfl⟩ := Sender.filled.inj (hi.symm.trans hi')
        obtain rfl := Option.some.inj (hs.symm.trans hins.sch)
        have hs' : w'.schs x.sch = some sc1 := by rw [hins.schs, Function.update_self]
        have hle := (hwithin x.sch sc1 hs').1
        rw [hins.cursize, hins.maxsize] at hle
        omega
    | _ => trivial
  · obtain ⟨v', hv', hb'⟩ := bounded_of_hasRoom (h.step hroom hn)
    exact hb'.withinSize hv'.chains

end Run

/-! ## Two senders -/

/-- `HasRoom`, computed. -/
def hasRoom (st : SchState F P) : SchAct F P → Bool
  | .insert i =>
      match st.snd i with
      | .filled x _ => (st.heap.schs x.sch).all fun sc => decide (sc.cursize < sc.maxsize)
      | _ => true
  | .delRegion _ _ => false
  | _ => true

theorem hasRoom_sound (st : SchState F P) (act : SchAct F P) (h : hasRoom st act = true) :
    HasRoom st act := by
  cases act with
  | insert i =>
      intro x a sc hi hs
      unfold hasRoom at h
      dsimp only at h
      rw [hi] at h
      dsimp only at h
      rw [hs] at h
      exact of_decide_eq_true h
  | delRegion s fuel => exact nomatch h
  | _ => trivial

/-- Two senders to a schedule of size 1, both past their tests, and the first job inserted. -/
def twoPassed : List (SchAct Unit Bool) :=
  [.create .zcrtThread .priLow 1 (some 1) none,
    .start 0 (.sendjobArgn (some 1) (some ()) [false]),
    .start 1 (.sendjobArgn (some 1) (some ()) [true]),
    .getNode 0 (some 1), .fill 0, .getNode 1 (some 2), .fill 1, .insert 0]

/-- The worker takes the first job before the second is inserted. -/
theorem withinSize_iff_removed : ∃ st : SchState Unit Bool, threadSys.Reach HasRoom st ∧
    (st.inserted 0 .priLow).length = 2 ∧ WithinSize st.heap := by
  obtain ⟨st, hst, hp⟩ := Sys.reach_of_run (p := fun st => (st.inserted 0 .priLow).length == 2)
    hasRoom_sound (Sys.Reach.init firstState_init)
    (twoPassed ++ [.check 0 false, .timeout 0, .remove 0, .insert 1]) (by decide)
  exact ⟨st, hst, eq_of_beq hp, (withinSize_iff hst).1⟩

/-- The second job inserted while the first is there: two jobs, where one is the most. -/
theorem bothInserted_overfull : ∃ st : SchState Unit Bool, threadSys.Reach NoDelete st ∧
    (st.heap.schs 1).map (fun sc => (sc.cursize, sc.maxsize)) = some (2, 1) ∧
    ¬WithinSize st.heap := by
  obtain ⟨st, hst, hp⟩ := Sys.reach_of_run
    (p := fun st => (st.heap.schs 1).map (fun sc => (sc.cursize, sc.maxsize)) == some (2, 1))
    noDelete_sound (Sys.Reach.init firstState_init) (twoPassed ++ [.insert 1]) (by decide)
  refine ⟨st, hst, eq_of_beq hp, fun hwithin => ?_⟩
  obtain ⟨sc, hs, hsize⟩ := Option.map_eq_some_iff.mp (eq_of_beq hp)
  obtain ⟨hcur, hmax⟩ := Prod.mk.inj hsize
  have hle := (hwithin 1 sc hs).1
  rw [hcur, hmax] at hle
  exact absurd hle (by decide)

end Zcrt
