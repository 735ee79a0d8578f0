/-
  The mutex of the kernel port: a semaphore, and beside it the owner and the nesting that make it
  recursive. The owner is written before the semaphore is had.

  * `ZCRTMutex`, `MutexState`: the mutex, and where each thread is in a call.
  * `mutexSys`: the steps of the calls.
  * `HeldBy`: the semaphore lets one thread in, in every run whose nesting does not wrap.
  * `Uncontended`: no thread writes the owner while another one claims the mutex, and no
    `zcrt_mutex_trylock` takes it.
  * `mutex_recursive`: what holds with and without contention.
-/
import Zcrt.Lib.Steps
import Zcrt.Core.Types

namespace Zcrt

open Lib

structure ZCRTMutex where
  sem : Nat
  owner : UInt32
  recurseCount : Int32
  deriving DecidableEq

def zcrtMutexCreate : ZCRTMutex := { sem := 1, owner := 0, recurseCount := 0 }

/-- The `pid` of a thread. -/
abbrev Pid := { n : UInt32 // n ≠ 0 }

/-- Where a thread is: outside of the calls, or before one of their steps. -/
inductive MutexPos
  | boundary
  | store
  | down
  | clear
  | up
  deriving DecidableEq

/-- `depth` counts the acquisitions a thread has not released. -/
structure MutexThread where
  pos : MutexPos
  depth : Nat
  deriving DecidableEq

structure MutexState where
  mutex : ZCRTMutex
  thr : Pid → MutexThread

inductive MutexAct
  | lock (t : Pid)
  | store (t : Pid)
  | down (t : Pid)
  | trylock (t : Pid)
  | unlock (t : Pid)
  | clear (t : Pid)
  | up (t : Pid)

namespace MutexState

variable (st : MutexState) (t : Pid)

def setThr (th : MutexThread) : Pid → MutexThread := Function.update st.thr t th

/-- `zcrt_mutex_lock`, the test of the owner. -/
def lockStep : Option MutexState :=
  if (st.thr t).pos = .boundary then
    if st.mutex.owner = t.val then
      some {
        mutex := { st.mutex with recurseCount := st.mutex.recurseCount + 1 }
        thr := st.setThr t { pos := .boundary, depth := (st.thr t).depth + 1 } }
    else some { st with thr := st.setThr t { st.thr t with pos := .store } }
  else none

/-- `sem->owner = selfid` -/
def storeStep : Option MutexState :=
  if (st.thr t).pos = .store then
    some {
      mutex := { st.mutex with owner := t.val }
      thr := st.setThr t { st.thr t with pos := .down } }
  else none

/-- `down(&sem->sem)`, when it comes back. -/
def downStep : Option MutexState :=
  if (st.thr t).pos = .down ∧ 0 < st.mutex.sem then
    some {
      mutex := { st.mutex with sem := st.mutex.sem - 1 }
      thr := st.setThr t { pos := .boundary, depth := (st.thr t).depth + 1 } }
  else none

def trylockStep : Option MutexState :=
  if (st.thr t).pos = .boundary then
    if 0 < st.mutex.sem then
      some {
        mutex := { st.mutex with sem := st.mutex.sem - 1 }
        thr := st.setThr t { pos := .boundary, depth := (st.thr t).depth + 1 } }
    else some st
  else none

/-- `zcrt_mutex_unlock`, the test of the nesting. Only what is locked is unlocked. -/
def unlockStep : Option MutexState :=
  if (st.thr t).pos = .boundary ∧ 0 < (st.thr t).depth then
    if st.mutex.recurseCount > 0 then
      some {
        mutex := { st.mutex with recurseCount := st.mutex.recurseCount - 1 }
        thr := st.setThr t { pos := .boundary, depth := (st.thr t).depth - 1 } }
    else some { st with thr := st.setThr t { st.thr t with pos := .clear } }
  else none

/-- `sem->owner = 0` -/
def clearStep : Option MutexState :=
  if (st.thr t).pos = .clear then
    some {
      mutex := { st.mutex with owner := 0 }
      thr := st.setThr t { st.thr t with pos := .up } }
  else none

def upStep : Option MutexState :=
  if (st.thr t).pos = .up then
    some {
      mutex := { st.mutex with sem := st.mutex.sem + 1 }
      thr := st.setThr t { pos := .boundary, depth := (st.thr t).depth - 1 } }
  else none

def step : MutexAct → Option MutexState
  | .lock t => st.lockStep t
  | .store t => st.storeStep t
  | .down t => st.downStep t
  | .trylock t => st.trylockStep t
  | .unlock t => st.unlockStep t
  | .clear t => st.clearStep t
  | .up t => st.upStep t

/-- A thread has the mutex until its last `up`. -/
def Inside : Prop := 0 < (st.thr t).depth

/-- A thread claims the mutex from its writing of the owner to its clearing of it. -/
def Claims : Prop := (st.thr t).pos = .down ∨ st.Inside t ∧ (st.thr t).pos ≠ .up

instance : Decidable (st.Inside t) := inferInstanceAs (Decidable (0 < _))

instance : Decidable (st.Claims t) := inferInstanceAs (Decidable (_ ∨ _ ∧ _))

end MutexState

def idleMutex : MutexState :=
  { mutex := zcrtMutexCreate, thr := fun _ => { pos := .boundary, depth := 0 } }

def mutexSys : Sys MutexState MutexAct where
  init st := st = idleMutex
  next := MutexState.step

/-! ## What a recursive mutex is -/

def AtMostOne (st : MutexState) : Prop := ∀ t u, st.Inside t → st.Inside u → t = u

def NamesHolder (st : MutexState) : Prop :=
  ∀ t, st.Inside t → (st.thr t).pos = .boundary → st.mutex.owner = t.val

/-- No thread that has the mutex goes for the semaphore. -/
def NeverWaitsForItself (st : MutexState) : Prop :=
  ∀ t, st.Inside t → (st.thr t).pos ≠ .store ∧ (st.thr t).pos ≠ .down

/-- A nested lock does not take the counter past its type. -/
def NoWrap (st : MutexState) : MutexAct → Prop
  | .lock t => st.mutex.owner = t.val → st.mutex.recurseCount.toInt + 1 < 2 ^ 31
  | _ => True

/-- Nesting does not wrap, an owner is written only when no other thread claims the mutex, and
    `zcrt_mutex_trylock` finds it taken. -/
def Uncontended (st : MutexState) : MutexAct → Prop
  | .store t => ∀ u, u ≠ t → ¬st.Claims u
  | .trylock _ => st.mutex.sem = 0
  | act => NoWrap st act

theorem Uncontended.noWrap {st : MutexState} {act : MutexAct} (h : Uncontended st act) :
    NoWrap st act := by
  cases act with
  | lock t => exact h
  | _ => trivial

/-! ## One thread at a time -/

/-- `o` is the thread that has the mutex. The owner field can be wrong with contention, but it names
    no thread that does not claim the mutex. -/
structure HeldBy (st : MutexState) (o : Option Pid) : Prop where
  inside : ∀ t, st.Inside t ↔ o = some t
  sem : st.mutex.sem = if o = none then 1 else 0
  rest : o = none → st.mutex.recurseCount = 0
  count : ∀ t, o = some t → st.mutex.recurseCount.toInt + 1 = (st.thr t).depth
  owner : ∀ t : Pid, st.mutex.owner = t.val → st.Claims t
  last : ∀ t, (st.thr t).pos = .clear ∨ (st.thr t).pos = .up → (st.thr t).depth = 1

section Held

open MutexState

variable {st st' : MutexState} {o : Option Pid} {t u : Pid} {th : MutexThread}

theorem MutexState.setThr_self : st.setThr t th t = th := Function.update_self ..

theorem MutexState.setThr_ne (h : u ≠ t) : st.setThr t th u = st.thr u :=
  Function.update_of_ne h ..

theorem HeldBy.free (h : HeldBy st o) (hsem : 0 < st.mutex.sem) : o = none := by
  by_contra hne
  rw [h.sem, if_neg hne] at hsem
  exact absurd hsem (by decide)

theorem HeldBy.depth_zero (h : HeldBy st o) (ht : o ≠ some t) : (st.thr t).depth = 0 :=
  Nat.eq_zero_of_not_pos fun hpos => ht ((h.inside t).mp hpos)

/-- A thread goes on to another place. -/
theorem HeldBy.move (h : HeldBy st o) {pos : MutexPos} {owner : UInt32}
    (hst : st' = {
      mutex := { st.mutex with owner := owner }
      thr := st.setThr t { st.thr t with pos := pos } })
    (hlast : pos = .clear ∨ pos = .up → (st.thr t).depth = 1)
    (howner : ∀ u : Pid, owner = u.val → st'.Claims u) : HeldBy st' o := by
  have hthr : st'.thr = st.setThr t { st.thr t with pos := pos } := by rw [hst]
  have hdepth : ∀ u, (st'.thr u).depth = (st.thr u).depth := fun u => by
    rw [hthr]
    by_cases hu : u = t
    · rw [hu, setThr_self]
    · rw [setThr_ne hu]
  refine ⟨fun u => ?_, ?_, fun ho => ?_, fun u ho => ?_, fun u hu => ?_, fun u hu => ?_⟩
  · unfold MutexState.Inside
    rw [hdepth u]
    exact h.inside u
  · rw [hst]
    exact h.sem
  · rw [hst]
    exact h.rest ho
  · rw [hdepth u, hst]
    exact h.count u ho
  · rw [hst] at hu
    exact howner u hu
  · rw [hdepth u]
    rw [hthr] at hu
    by_cases hut : u = t
    · rw [hut, setThr_self] at hu
      rw [hut]
      exact hlast hu
    · rw [setThr_ne hut] at hu
      exact h.last u hu

/-- A thread that claims the mutex elsewhere does so after a step of another one. -/
theorem claims_ne (hthr : st'.thr = st.setThr t th) (hu : u ≠ t) : st'.Claims u ↔ st.Claims u := by
  unfold MutexState.Claims MutexState.Inside
  rw [hthr, setThr_ne hu]

theorem inside_at (hthr : st'.thr t = th) : st'.Inside t ↔ 0 < th.depth := by
  unfold MutexState.Inside
  rw [hthr]

theorem claims_at (hthr : st'.thr t = th) :
    st'.Claims t ↔ th.pos = .down ∨ 0 < th.depth ∧ th.pos ≠ .up := by
  unfold MutexState.Claims
  rw [inside_at hthr, hthr]

theorem claims_self (hthr : st'.thr t = th) (hd : 0 < th.depth) (hp : th.pos ≠ .up) :
    st'.Claims t := (claims_at hthr).mpr (Or.inr ⟨hd, hp⟩)

/-- A thread gets the semaphore. -/
theorem HeldBy.enter (h : HeldBy st none)
    (hst : st' = {
      mutex := { st.mutex with sem := st.mutex.sem - 1 }
      thr := st.setThr t { pos := .boundary, depth := (st.thr t).depth + 1 } }) :
    HeldBy st' (some t) := by
  have hthr : st'.thr = st.setThr t { pos := .boundary, depth := (st.thr t).depth + 1 } := by
    rw [hst]
  have hself : st'.thr t = { pos := .boundary, depth := 1 } := by
    rw [hthr, setThr_self, h.depth_zero (t := t) (by simp)]
  refine ⟨fun u => ?_, ?_, (fun ho => nomatch ho), fun u ho => ?_, fun u hu => ?_, fun u hu => ?_⟩
  · by_cases hut : u = t
    · rw [hut]
      unfold MutexState.Inside
      rw [hself]
      simp
    · unfold MutexState.Inside
      rw [hthr, setThr_ne hut, h.depth_zero (t := u) (by simp)]
      simp [Ne.symm hut]
  · rw [hst]
    change st.mutex.sem - 1 = _
    rw [h.sem]
    rfl
  · obtain rfl := Option.some.inj ho
    rw [hself, hst]
    change st.mutex.recurseCount.toInt + 1 = _
    rw [h.rest rfl]
    rfl
  · rw [hst] at hu
    by_cases hut : u = t
    · rw [hut]
      exact claims_self hself Nat.one_pos MutexPos.noConfusion
    · exact (claims_ne hthr hut).mpr (h.owner u hu)
  · by_cases hut : u = t
    · rw [hut, hself]
    · rw [hthr, setThr_ne hut] at hu ⊢
      exact h.last u hu

/-- The nesting of the thread that has the mutex changes, but not to nothing. -/
theorem HeldBy.nest (h : HeldBy st (some t)) {n : Int32} {d : Nat}
    (hst : st' = {
      mutex := { st.mutex with recurseCount := n }
      thr := st.setThr t { pos := .boundary, depth := d } })
    (hd : 0 < d) (hn : n.toInt + 1 = d) : HeldBy st' (some t) := by
  have hthr : st'.thr = st.setThr t { pos := .boundary, depth := d } := by rw [hst]
  have hself : st'.thr t = { pos := .boundary, depth := d } := by rw [hthr, setThr_self]
  refine ⟨fun u => ?_, ?_, (fun ho => nomatch ho), fun u ho => ?_, fun u hu => ?_, fun u hu => ?_⟩
  · by_cases hut : u = t
    · rw [hut]
      unfold MutexState.Inside
      rw [hself]
      simp [hd]
    · unfold MutexState.Inside
      rw [hthr, setThr_ne hut]
      exact h.inside u
  · rw [hst]
    exact h.sem
  · obtain rfl := Option.some.inj ho
    rw [hself, hst]
    exact hn
  · rw [hst] at hu
    by_cases hut : u = t
    · rw [hut]
      exact claims_self hself hd MutexPos.noConfusion
    · exact (claims_ne hthr hut).mpr (h.owner u hu)
  · by_cases hut : u = t
    · rw [hut, hself] at hu
      rcases hu with hu | hu
      · exact nomatch hu
      · exact nomatch hu
    · rw [hthr, setThr_ne hut] at hu ⊢
      exact h.last u hu

/-- A thread gives the semaphore back. -/
theorem HeldBy.leave (h : HeldBy st (some t)) (hpos : (st.thr t).pos = .up)
    (hst : st' = {
      mutex := { st.mutex with sem := st.mutex.sem + 1 }
      thr := st.setThr t { pos := .boundary, depth := (st.thr t).depth - 1 } }) :
    HeldBy st' none := by
  have hdepth : (st.thr t).depth = 1 := h.last t (Or.inr hpos)
  have hthr : st'.thr = st.setThr t { pos := .boundary, depth := (st.thr t).depth - 1 } := by
    rw [hst]
  have hself : st'.thr t = { pos := .boundary, depth := 0 } := by
    rw [hthr, setThr_self, hdepth]
  have hzero : ∀ u, (st'.thr u).depth = 0 := fun u => by
    by_cases hut : u = t
    · rw [hut, hself]
    · rw [hthr, setThr_ne hut]
      exact h.depth_zero (by simp [Ne.symm hut])
  refine ⟨fun u => ?_, ?_, fun _ => ?_, (fun u ho => nomatch ho), fun u hu => ?_, fun u hu => ?_⟩
  · unfold MutexState.Inside
    rw [hzero u]
    simp
  · rw [hst]
    change st.mutex.sem + 1 = _
    rw [h.sem]
    rfl
  · have hcount := h.count t rfl
    rw [hst]
    apply Int32.toInt_inj.mp
    change st.mutex.recurseCount.toInt = 0
    omega
  · rw [hst] at hu
    by_cases hut : u = t
    · obtain rfl := hut
      rcases h.owner u hu with hc | ⟨-, hc⟩
      · exact nomatch hpos.symm.trans hc
      · exact absurd hpos hc
    · exact (claims_ne hthr hut).mpr (h.owner u hu)
  · by_cases hut : u = t
    · rw [hut, hself] at hu
      rcases hu with hu | hu
      · exact nomatch hu
      · exact nomatch hu
    · rw [hthr, setThr_ne hut] at hu ⊢
      exact h.last u hu

end Held

/-! ## Steps -/

section Step

open MutexState

variable {st st' : MutexState} {o : Option Pid} {t : Pid}

/-- A thread outside of the calls that is named as the owner has the mutex. -/
theorem HeldBy.owner_inside (h : HeldBy st o) (hpos : (st.thr t).pos = .boundary)
    (howner : st.mutex.owner = t.val) : o = some t := by
  rcases h.owner t howner with hdown | ⟨hin, -⟩
  · exact nomatch hpos.symm.trans hdown
  · exact (h.inside t).mp hin

theorem HeldBy.lockStep (h : HeldBy st o) (hw : NoWrap st (.lock t))
    (hs : st.lockStep t = some st') : HeldBy st' o := by
  unfold MutexState.lockStep at hs
  split at hs
  · rename_i hpos
    split at hs
    · rename_i howner
      obtain rfl := Option.some.inj hs
      obtain rfl := h.owner_inside hpos howner
      have hcount := h.count t rfl
      have hlt := hw howner
      refine h.nest rfl (Nat.succ_pos _) ?_
      have hadd : (st.mutex.recurseCount + 1).toInt = st.mutex.recurseCount.toInt + 1 := by
        rw [Int32.toInt_add, Int.bmod_eq_of_le]
        · rfl
        · change -_ ≤ st.mutex.recurseCount.toInt + 1
          omega
        · change st.mutex.recurseCount.toInt + 1 < _
          omega
      rw [hadd]
      omega
    · rename_i howner
      obtain rfl := Option.some.inj hs
      refine h.move rfl (fun he => ?_) fun u hu => ?_
      · rcases he with he | he
        · exact nomatch he
        · exact nomatch he
      · by_cases hut : u = t
        · exact absurd (hut ▸ hu) howner
        · exact (claims_ne rfl hut).mpr (h.owner u hu)
  · exact nomatch hs

theorem HeldBy.storeStep (h : HeldBy st o) (hs : st.storeStep t = some st') : HeldBy st' o := by
  unfold MutexState.storeStep at hs
  split at hs
  · obtain rfl := Option.some.inj hs
    refine h.move rfl (fun he => ?_) fun u hu => Or.inl ?_
    · rcases he with he | he
      · exact nomatch he
      · exact nomatch he
    · obtain rfl := Subtype.ext hu
      exact congrArg MutexThread.pos setThr_self
  · exact nomatch hs

theorem HeldBy.downStep (h : HeldBy st o) (hs : st.downStep t = some st') :
    o = none ∧ HeldBy st' (some t) := by
  unfold MutexState.downStep at hs
  split at hs
  · rename_i hpos
    obtain rfl := Option.some.inj hs
    obtain rfl := h.free hpos.2
    exact ⟨rfl, h.enter rfl⟩
  · exact nomatch hs

theorem HeldBy.trylockStep (h : HeldBy st o) (hs : st.trylockStep t = some st') :
    st' = st ∧ o ≠ none ∨ 0 < st.mutex.sem ∧ HeldBy st' (some t) := by
  unfold MutexState.trylockStep at hs
  split at hs
  · split at hs
    · rename_i hsem
      obtain rfl := Option.some.inj hs
      obtain rfl := h.free hsem
      exact Or.inr ⟨hsem, h.enter rfl⟩
    · rename_i hsem
      refine Or.inl ⟨(Option.some.inj hs).symm, fun ho => hsem ?_⟩
      rw [h.sem, if_pos ho]
      exact Nat.one_pos
  · exact nomatch hs

theorem HeldBy.unlockStep (h : HeldBy st o) (hs : st.unlockStep t = some st') : HeldBy st' o := by
  unfold MutexState.unlockStep at hs
  split at hs
  · rename_i hpos
    obtain rfl := (h.inside t).mp hpos.2
    have hcount := h.count t rfl
    split at hs
    · rename_i hrec
      obtain rfl := Option.some.inj hs
      have hrec : 0 < st.mutex.recurseCount.toInt := Int32.lt_iff_toInt_lt.mp hrec
      have hlt := st.mutex.recurseCount.toInt_lt
      refine h.nest rfl (by omega) ?_
      have hsub : (st.mutex.recurseCount - 1).toInt = st.mutex.recurseCount.toInt - 1 := by
        rw [Int32.toInt_sub, Int.bmod_eq_of_le]
        · rfl
        · change -_ ≤ st.mutex.recurseCount.toInt - 1
          omega
        · change st.mutex.recurseCount.toInt - 1 < _
          omega
      rw [hsub]
      omega
    · rename_i hrec
      obtain rfl := Option.some.inj hs
      have hrec : ¬0 < st.mutex.recurseCount.toInt := fun hlt =>
        hrec (Int32.lt_iff_toInt_lt.mpr hlt)
      refine h.move rfl (fun _ => by have := hpos.2; omega) fun u hu => ?_
      by_cases hut : u = t
      · rw [hut]
        exact claims_self setThr_self hpos.2 MutexPos.noConfusion
      · exact (claims_ne rfl hut).mpr (h.owner u hu)
  · exact nomatch hs

theorem HeldBy.clearStep (h : HeldBy st o) (hs : st.clearStep t = some st') : HeldBy st' o := by
  unfold MutexState.clearStep at hs
  split at hs
  · rename_i hpos
    obtain rfl := Option.some.inj hs
    exact h.move rfl (fun _ => h.last t (Or.inl hpos)) fun u hu => absurd hu.symm u.property
  · exact nomatch hs

theorem HeldBy.upStep (h : HeldBy st o) (hs : st.upStep t = some st') :
    o = some t ∧ HeldBy st' none := by
  unfold MutexState.upStep at hs
  split at hs
  · rename_i hpos
    obtain rfl := Option.some.inj hs
    have hin : st.Inside t := by
      unfold MutexState.Inside
      rw [h.last t (Or.inr hpos)]
      exact Nat.one_pos
    obtain rfl := (h.inside t).mp hin
    exact ⟨rfl, h.leave hpos rfl⟩
  · exact nomatch hs

theorem HeldBy.step (h : HeldBy st o) {act : MutexAct} (hw : NoWrap st act)
    (hs : mutexSys.next st act = some st') : ∃ o', HeldBy st' o' := by
  cases act with
  | lock t => exact ⟨o, h.lockStep hw hs⟩
  | store t => exact ⟨o, h.storeStep hs⟩
  | down t => exact ⟨some t, (h.downStep hs).2⟩
  | trylock t =>
      rcases h.trylockStep hs with ⟨rfl, -⟩ | ⟨-, h'⟩
      · exact ⟨o, h⟩
      · exact ⟨some t, h'⟩
  | unlock t => exact ⟨o, h.unlockStep hs⟩
  | clear t => exact ⟨o, h.clearStep hs⟩
  | up t => exact ⟨none, (h.upStep hs).2⟩

theorem heldBy_of_init (h : mutexSys.init st) : HeldBy st none := by
  obtain rfl := h
  refine ⟨fun t => ?_, rfl, fun _ => rfl, (fun t ho => nomatch ho), fun t ht => ?_, fun t ht => ?_⟩
  · simp [idleMutex, MutexState.Inside]
  · exact absurd ht.symm t.property
  · simp [idleMutex] at ht

theorem heldBy_of_reach (h : mutexSys.Reach NoWrap st) : ∃ o, HeldBy st o :=
  h.invariant (I := fun st => ∃ o, HeldBy st o) (fun _ hst => ⟨none, heldBy_of_init hst⟩)
    fun _ _ _ ⟨_, hst⟩ hw hs => hst.step hw hs

theorem HeldBy.atMostOne (h : HeldBy st o) : AtMostOne st := fun t u ht hu =>
  Option.some.inj (((h.inside t).mp ht).symm.trans ((h.inside u).mp hu))

end Step

/-! ## Without contention -/

/-- Who claims the mutex is its owner, and does not go for the semaphore again. -/
structure OwnerIs (st : MutexState) : Prop where
  owner : ∀ t, st.Claims t → st.mutex.owner = t.val
  waits : NeverWaitsForItself st

section OwnerIs

open MutexState

variable {st st' : MutexState} {o : Option Pid} {t : Pid} {th : MutexThread}

theorem claims_of_inside (hin : st.Inside t) (hpos : (st.thr t).pos = .boundary) : st.Claims t :=
  Or.inr ⟨hin, by rw [hpos]; exact MutexPos.noConfusion⟩

theorem OwnerIs.namesHolder (h : OwnerIs st) : NamesHolder st :=
  fun t hin hpos => h.owner t (claims_of_inside hin hpos)

theorem NeverWaitsForItself.of_thr (h : NeverWaitsForItself st)
    (hthr : st'.thr = st.setThr t th)
    (hwait : 0 < th.depth → th.pos ≠ .store ∧ th.pos ≠ .down) : NeverWaitsForItself st' := by
  intro u hin
  by_cases hut : u = t
  · have hself : st'.thr u = th := by rw [hthr, hut, setThr_self]
    rw [hself]
    exact hwait ((inside_at hself).mp hin)
  · have hother : st'.thr u = st.thr u := by rw [hthr, setThr_ne hut]
    rw [hother]
    exact h u ((inside_at hother).mp hin)

/-- A step of `t` that leaves the owner field. -/
theorem OwnerIs.of_thr (h : OwnerIs st) (hthr : st'.thr = st.setThr t th)
    (howner : st'.mutex.owner = st.mutex.owner)
    (hclaim : st'.Claims t → st.mutex.owner = t.val)
    (hwait : 0 < th.depth → th.pos ≠ .store ∧ th.pos ≠ .down) : OwnerIs st' := by
  refine ⟨fun u hu => ?_, h.waits.of_thr hthr hwait⟩
  rw [howner]
  by_cases hut : u = t
  · subst hut
    exact hclaim hu
  · exact h.owner u ((claims_ne hthr hut).mp hu)

theorem OwnerIs.lockStep (h : OwnerIs st) (hs : st.lockStep t = some st') : OwnerIs st' := by
  unfold MutexState.lockStep at hs
  split at hs
  · rename_i hpos
    split at hs
    · rename_i howner
      obtain rfl := Option.some.inj hs
      exact h.of_thr rfl rfl (fun _ => howner) fun _ => ⟨MutexPos.noConfusion, MutexPos.noConfusion⟩
    · rename_i howner
      obtain rfl := Option.some.inj hs
      -- else the owner is the thread, as it is outside of the calls
      have hout : ¬st.Inside t := fun hin => howner (h.owner t (claims_of_inside hin hpos))
      refine h.of_thr rfl rfl (fun hc => ?_) fun hin => absurd hin hout
      rcases (claims_at setThr_self).mp hc with hc | ⟨hin, -⟩
      · exact nomatch hc
      · exact absurd hin hout
  · exact nomatch hs

theorem OwnerIs.storeStep (h : OwnerIs st) (hc : ∀ u, u ≠ t → ¬st.Claims u)
    (hs : st.storeStep t = some st') : OwnerIs st' := by
  unfold MutexState.storeStep at hs
  split at hs
  · rename_i hpos
    obtain rfl := Option.some.inj hs
    refine ⟨fun u hu => ?_, h.waits.of_thr rfl fun hin => absurd hpos (h.waits t hin).1⟩
    by_cases hut : u = t
    · rw [hut]
    · exact absurd ((claims_ne rfl hut).mp hu) (hc u hut)
  · exact nomatch hs

theorem OwnerIs.downStep (h : OwnerIs st) (hs : st.downStep t = some st') : OwnerIs st' := by
  unfold MutexState.downStep at hs
  split at hs
  · rename_i hpos
    obtain rfl := Option.some.inj hs
    exact h.of_thr rfl rfl (fun _ => h.owner t (Or.inl hpos.1))
      fun _ => ⟨MutexPos.noConfusion, MutexPos.noConfusion⟩
  · exact nomatch hs

theorem OwnerIs.unlockStep (h : OwnerIs st) (hs : st.unlockStep t = some st') : OwnerIs st' := by
  unfold MutexState.unlockStep at hs
  split at hs
  · rename_i hpos
    have howner := h.owner t (claims_of_inside hpos.2 hpos.1)
    split at hs
    · obtain rfl := Option.some.inj hs
      exact h.of_thr rfl rfl (fun _ => howner) fun _ => ⟨MutexPos.noConfusion, MutexPos.noConfusion⟩
    · obtain rfl := Option.some.inj hs
      exact h.of_thr rfl rfl (fun _ => howner) fun _ => ⟨MutexPos.noConfusion, MutexPos.noConfusion⟩
  · exact nomatch hs

theorem OwnerIs.clearStep (h : OwnerIs st) (hheld : HeldBy st o) (hs : st.clearStep t = some st') :
    OwnerIs st' := by
  unfold MutexState.clearStep at hs
  split at hs
  · rename_i hpos
    obtain rfl := Option.some.inj hs
    have hin : st.Inside t := lt_of_lt_of_eq Nat.one_pos (hheld.last t (Or.inl hpos)).symm
    have hclaim : st.Claims t := Or.inr ⟨hin, by rw [hpos]; exact MutexPos.noConfusion⟩
    refine ⟨fun u hu => ?_,
      h.waits.of_thr rfl fun _ => ⟨MutexPos.noConfusion, MutexPos.noConfusion⟩⟩
    by_cases hut : u = t
    · subst hut
      rcases (claims_at setThr_self).mp hu with hu | ⟨-, hu⟩
      · exact nomatch hu
      · exact absurd rfl hu
    · -- both would be the owner
      have howner := h.owner u ((claims_ne rfl hut).mp hu)
      rw [h.owner t hclaim] at howner
      exact absurd (Subtype.ext howner).symm hut
  · exact nomatch hs

theorem OwnerIs.upStep (h : OwnerIs st) (hheld : HeldBy st o) (hs : st.upStep t = some st') :
    OwnerIs st' := by
  have hnone := (hheld.upStep hs).2
  unfold MutexState.upStep at hs
  split at hs
  · obtain rfl := Option.some.inj hs
    refine h.of_thr rfl rfl (fun hc => ?_) fun _ => ⟨MutexPos.noConfusion, MutexPos.noConfusion⟩
    rcases (claims_at setThr_self).mp hc with hc | ⟨hin, -⟩
    · exact nomatch hc
    · exact nomatch (hnone.inside t).mp ((inside_at setThr_self).mpr hin)
  · exact nomatch hs

theorem OwnerIs.step (h : OwnerIs st) (hheld : HeldBy st o) {act : MutexAct}
    (hc : Uncontended st act)
    (hs : mutexSys.next st act = some st') : OwnerIs st' := by
  cases act with
  | lock t => exact h.lockStep hs
  | store t => exact h.storeStep hc hs
  | down t => exact h.downStep hs
  | trylock t =>
      rcases hheld.trylockStep hs with ⟨rfl, -⟩ | ⟨hsem, -⟩
      · exact h
      · exact absurd hc hsem.ne'
  | unlock t => exact h.unlockStep hs
  | clear t => exact h.clearStep hheld hs
  | up t => exact h.upStep hheld hs

theorem idleMutex_claims : ¬idleMutex.Claims t := by
  simp [idleMutex, MutexState.Claims, MutexState.Inside]

theorem ownerIs_of_init (h : mutexSys.init st) : OwnerIs st := by
  obtain rfl := h
  exact ⟨fun t ht => absurd ht idleMutex_claims, fun t hin => absurd hin (Nat.lt_irrefl 0)⟩

theorem ownerIs_of_reach (h : mutexSys.Reach Uncontended st) : OwnerIs st := by
  obtain ⟨-, howner⟩ := h.invariant (I := fun st => (∃ o, HeldBy st o) ∧ OwnerIs st)
    (fun _ hst => ⟨⟨none, heldBy_of_init hst⟩, ownerIs_of_init hst⟩)
    fun _ _ _ ⟨⟨_, hheld⟩, howner⟩ hc hs =>
      ⟨hheld.step hc.noWrap hs, howner.step hheld hc hs⟩
  exact howner

end OwnerIs

/-- One thread at most has the mutex. Without contention, the owner field names it outside of the
    calls, and it does not wait for itself. -/
theorem mutex_recursive (st : MutexState) : (mutexSys.Reach NoWrap st → AtMostOne st) ∧
    (mutexSys.Reach Uncontended st → NamesHolder st ∧ NeverWaitsForItself st) := by
  constructor
  · intro h
    obtain ⟨o, ho⟩ := heldBy_of_reach h
    exact ho.atMostOne
  · intro h
    have howner := ownerIs_of_reach h
    exact ⟨howner.namesHolder, howner.waits⟩

/-! ## One thread, and two -/

/-- `Uncontended` without a step that writes the owner, computed. -/
def uncontended (st : MutexState) : MutexAct → Bool
  | .lock _ => st.mutex.recurseCount.toInt + 1 < 2 ^ 31
  | .store _ => false
  | .trylock _ => st.mutex.sem = 0
  | _ => true

theorem uncontended_sound (st : MutexState) (act : MutexAct) (h : uncontended st act = true) :
    Uncontended st act := by
  cases act with
  | lock t => exact fun _ => of_decide_eq_true h
  | store t => exact nomatch h
  | trylock t =>
      change st.mutex.sem = 0
      exact of_decide_eq_true h
  | _ => trivial

def pid1 : Pid := ⟨1, by decide⟩

def pid2 : Pid := ⟨2, by decide⟩

/-- One thread locks twice. -/
theorem mutex_recursive_nested : ∃ st, mutexSys.Reach Uncontended st ∧
    (st.thr pid1).depth = 2 ∧ AtMostOne st ∧ NamesHolder st ∧ NeverWaitsForItself st := by
  have hinit : mutexSys.Reach Uncontended idleMutex := Sys.Reach.init rfl
  have hlock := hinit.step (l := .lock pid1) (uncontended_sound _ _ (by decide)) rfl
  have halone : Uncontended { idleMutex with
      thr := idleMutex.setThr pid1 { pos := .store, depth := 0 } } (.store pid1) := by
    intro u hu hc
    have hidle : idleMutex.Claims u := (claims_ne rfl hu).mp hc
    exact idleMutex_claims hidle
  have hstore := hlock.step halone rfl
  obtain ⟨st, hst, hp⟩ := Sys.reach_of_run (p := fun st => (st.thr pid1).depth == 2)
    uncontended_sound hstore [.down pid1, .lock pid1] (by decide)
  have hall : mutexSys.Reach NoWrap st := hst.mono fun _ _ hc => hc.noWrap
  exact ⟨st, hst, eq_of_beq hp, (mutex_recursive st).1 hall, (mutex_recursive st).2 hst⟩

/-- The second thread writes the owner while the first one has the mutex. The first one then waits
    for itself. -/
theorem contended_waitsForItself : ∃ st, mutexSys.Reach NoWrap st ∧ ¬NamesHolder st ∧
    ∃ st', mutexSys.Reach NoWrap st' ∧ ¬NeverWaitsForItself st' := by
  have hinit : mutexSys.Reach NoWrap idleMutex := Sys.Reach.init rfl
  have hcheck : ∀ (st : MutexState) act, (match act with
      | .lock _ => decide (st.mutex.recurseCount.toInt + 1 < 2 ^ 31)
      | _ => true) = true → NoWrap st act := fun st act h => by
    cases act with
    | lock t => exact fun _ => of_decide_eq_true h
    | _ => trivial
  obtain ⟨st, hst, hp⟩ := Sys.reach_of_run
    (p := fun st => decide (st.Inside pid1 ∧ (st.thr pid1).pos = .boundary ∧ st.mutex.owner = 2))
    hcheck hinit
    [.lock pid1, .store pid1, .down pid1, .lock pid2, .store pid2] (by decide)
  obtain ⟨st', hst', hp'⟩ := Sys.reach_of_run
    (p := fun st => decide (st.Inside pid1 ∧ (st.thr pid1).pos = .down))
    hcheck hinit
    [.lock pid1, .store pid1, .down pid1, .lock pid2, .store pid2, .lock pid1, .store pid1]
    (by decide)
  obtain ⟨hin, hpos, howner⟩ := of_decide_eq_true hp
  obtain ⟨hin', hdown⟩ := of_decide_eq_true hp'
  refine ⟨st, hst, fun hnames => ?_, st', hst', fun hnever => (hnever pid1 hin').2 hdown⟩
  rw [hnames pid1 hin hpos] at howner
  exact absurd howner (by decide)

end Zcrt
