/-
  Runs of `zcrt_timer_container_new` and `zcrt_timer_container_delete`.

  * `ConState.live`: the containers given out and not deleted since.
  * `containerLoop_hit`, `containerLoop_full`, `containerLoop_endless`: what the search comes to.
  * `containers_iff`: in every state of every run a new container is right exactly while one is
    free or `conlastid` is below 64536.
  * `containers_endless`: a run after which the search does not end.
-/
import Zcrt.Core.TimerSys

namespace Zcrt

open Lib

variable {F P : Type}

/-- `1..999`. -/
def InRange (c : UInt16) : Prop := c ≠ ZTIMER_INVALID_CONTAINER ∧ c.toNat < ZTIMER_CONTAINER_MAX

/-! ## The search -/

theorem u16_add_ofNat (i : UInt16) (k : Nat) :
    (i + UInt16.ofNat k).toNat = (i.toNat + k) % 65536 := by
  simp

theorem u16_mod_max (i : UInt16) :
    (i % UInt16.ofNat ZTIMER_CONTAINER_MAX).toNat = i.toNat % ZTIMER_CONTAINER_MAX := by
  rw [UInt16.toNat_mod]
  rfl

section Search

variable {container : UInt16 → UInt8} {last i : UInt16} {fuel : Nat}

theorem containerLoop_take (hi : i.toNat < last.toNat + ZTIMER_CONTAINER_MAX)
    (h0 : i % UInt16.ofNat ZTIMER_CONTAINER_MAX ≠ ZTIMER_INVALID_CONTAINER)
    (hfree : container (i % UInt16.ofNat ZTIMER_CONTAINER_MAX) = 0) :
    containerLoop container last (fuel + 1) i =
      .ok (some (i % UInt16.ofNat ZTIMER_CONTAINER_MAX, i)) := by
  rw [containerLoop, if_pos hi]
  exact if_pos ⟨h0, hfree⟩

theorem containerLoop_skip (hi : i.toNat < last.toNat + ZTIMER_CONTAINER_MAX)
    (hused : i % UInt16.ofNat ZTIMER_CONTAINER_MAX ≠ ZTIMER_INVALID_CONTAINER →
      container (i % UInt16.ofNat ZTIMER_CONTAINER_MAX) ≠ 0) :
    containerLoop container last (fuel + 1) i = containerLoop container last fuel (i + 1) := by
  rw [containerLoop, if_pos hi]
  exact if_neg fun h => hused h.1 h.2

/-- The first free one within the bound is found. -/
theorem containerLoop_first {k : Nat} (hk : k < fuel)
    (hbound : ∀ j ≤ k, (i + UInt16.ofNat j).toNat < last.toNat + ZTIMER_CONTAINER_MAX)
    (hused : ∀ j < k,
      (i + UInt16.ofNat j) % UInt16.ofNat ZTIMER_CONTAINER_MAX ≠ ZTIMER_INVALID_CONTAINER →
        container ((i + UInt16.ofNat j) % UInt16.ofNat ZTIMER_CONTAINER_MAX) ≠ 0)
    (h0 : (i + UInt16.ofNat k) % UInt16.ofNat ZTIMER_CONTAINER_MAX ≠ ZTIMER_INVALID_CONTAINER)
    (hfree : container ((i + UInt16.ofNat k) % UInt16.ofNat ZTIMER_CONTAINER_MAX) = 0) :
    containerLoop container last fuel i =
      .ok (some ((i + UInt16.ofNat k) % UInt16.ofNat ZTIMER_CONTAINER_MAX,
        i + UInt16.ofNat k)) := by
  induction k generalizing i fuel with
  | zero =>
      obtain ⟨fuel, rfl⟩ : ∃ f, fuel = f + 1 := ⟨fuel - 1, by omega⟩
      have hzero : i + UInt16.ofNat 0 = i := UInt16.add_zero i
      have hi := hbound 0 (Nat.le_refl 0)
      rw [hzero] at h0 hfree hi ⊢
      exact containerLoop_take hi h0 hfree
  | succ k ih =>
      obtain ⟨fuel, rfl⟩ : ∃ f, fuel = f + 1 := ⟨fuel - 1, by omega⟩
      have hzero : i + UInt16.ofNat 0 = i := UInt16.add_zero i
      have hshift : ∀ j, i + 1 + UInt16.ofNat j = i + UInt16.ofNat (j + 1) := by
        intro j
        rw [UInt16.ofNat_add, UInt16.add_assoc, UInt16.add_comm 1]
        rfl
      have hi := hbound 0 (Nat.zero_le _)
      have hi' := hused 0 (Nat.succ_pos k)
      rw [hzero] at hi hi'
      rw [containerLoop_skip hi hi', ← hshift]
      rw [← hshift] at h0 hfree
      refine ih (by omega) ?_ ?_ h0 hfree
      · intro j hj
        rw [hshift]
        exact hbound (j + 1) (by omega)
      · intro j hj
        rw [hshift]
        exact hused (j + 1) (by omega)

/-- Something free within the bound is not missed. -/
theorem containerLoop_hit {k : Nat} (hk : k < fuel)
    (hbound : ∀ j ≤ k, (i + UInt16.ofNat j).toNat < last.toNat + ZTIMER_CONTAINER_MAX)
    (h0 : (i + UInt16.ofNat k) % UInt16.ofNat ZTIMER_CONTAINER_MAX ≠ ZTIMER_INVALID_CONTAINER)
    (hfree : container ((i + UInt16.ofNat k) % UInt16.ofNat ZTIMER_CONTAINER_MAX) = 0) :
    ∃ r, containerLoop container last fuel i = .ok (some r) := by
  have hex : ∃ j, (i + UInt16.ofNat j) % UInt16.ofNat ZTIMER_CONTAINER_MAX ≠
      ZTIMER_INVALID_CONTAINER ∧
      container ((i + UInt16.ofNat j) % UInt16.ofNat ZTIMER_CONTAINER_MAX) = 0 := ⟨k, h0, hfree⟩
  have hle : Nat.find hex ≤ k := Nat.find_min' hex ⟨h0, hfree⟩
  obtain ⟨hfirst0, hfirst⟩ := Nat.find_spec hex
  refine ⟨_, containerLoop_first (by omega) (fun j hj => hbound j (by omega)) ?_ hfirst0 hfirst⟩
  intro j hj hne hz
  exact Nat.find_min hex hj ⟨hne, hz⟩

variable (hfull : ∀ c, InRange c → container c ≠ 0)
include hfull

theorem full_used (i : UInt16) :
    i % UInt16.ofNat ZTIMER_CONTAINER_MAX ≠ ZTIMER_INVALID_CONTAINER →
      container (i % UInt16.ofNat ZTIMER_CONTAINER_MAX) ≠ 0 := by
  intro hne
  refine hfull _ ⟨hne, ?_⟩
  rw [u16_mod_max]
  exact Nat.mod_lt _ (by decide)

/-- With nothing free and a bound that `i` reaches, the loop runs up to the bound. -/
theorem containerLoop_full (hlast : last.toNat + ZTIMER_CONTAINER_MAX < 65536)
    (hle : i.toNat ≤ last.toNat + ZTIMER_CONTAINER_MAX)
    (hfuel : last.toNat + ZTIMER_CONTAINER_MAX < i.toNat + fuel) :
    containerLoop container last fuel i = .ok none := by
  induction fuel generalizing i with
  | zero => omega
  | succ fuel ih =>
      by_cases hi : i.toNat < last.toNat + ZTIMER_CONTAINER_MAX
      · have hnext : (i + 1).toNat = i.toNat + 1 := by
          have := u16_add_ofNat i 1
          rw [Nat.mod_eq_of_lt (by omega)] at this
          exact this
        rw [containerLoop_skip hi (full_used hfull i)]
        exact ih (by omega) (by omega)
      · rw [containerLoop, if_neg hi]

/-- With nothing free and a bound above every `uint16_t`, the loop does not end. -/
theorem containerLoop_endless (hlast : 65536 ≤ last.toNat + ZTIMER_CONTAINER_MAX) :
    containerLoop container last fuel i = .error .endless := by
  induction fuel generalizing i with
  | zero => rfl
  | succ fuel ih =>
      have hi := i.toNat_lt
      rw [containerLoop_skip (by omega) (full_used hfull i)]
      exact ih

end Search

/-- Something free is always found. -/
theorem containerLoop_free {container : UInt16 → UInt8} (last : UInt16) {c : UInt16}
    (hc : InRange c) (hfree : container c = 0) :
    ∃ r, containerLoop container last 65536 last = .ok (some r) := by
  have hmax : ZTIMER_CONTAINER_MAX = 1000 := rfl
  have hlast := last.toNat_lt
  have hc' := hc.2
  -- `last + k` comes to `c`, before the bound or once `i` starts over
  obtain ⟨k, hk, hbound, hidx⟩ : ∃ k < 65536,
      (∀ j ≤ k, (last.toNat + j) % 65536 < last.toNat + ZTIMER_CONTAINER_MAX) ∧
        (last.toNat + k) % 65536 % ZTIMER_CONTAINER_MAX = c.toNat := by
    rcases Nat.lt_or_ge last.toNat 64537 with h | h
    · refine ⟨(c.toNat + 1000 - last.toNat % 1000) % 1000, by omega, fun j hj => by omega, ?_⟩
      rw [hmax]
      omega
    · refine ⟨65536 - last.toNat + c.toNat, by omega, fun j hj => by omega, ?_⟩
      rw [hmax]
      omega
  have heq : (last + UInt16.ofNat k) % UInt16.ofNat ZTIMER_CONTAINER_MAX = c := by
    apply UInt16.toNat_inj.mp
    rw [u16_mod_max, u16_add_ofNat, hidx]
  refine containerLoop_hit (k := k) hk ?_ (heq ▸ hc.1) (heq ▸ hfree)
  intro j hj
  rw [u16_add_ofNat]
  exact hbound j hj

/-! ## Runs -/

/-- The manager, and the containers that `zcrt_timer_container_new` gave out and
    `zcrt_timer_container_delete` did not take back since. -/
structure ConState (F P : Type) where
  mng : ZTimer F P
  live : UInt16 → Bool

inductive ConOp
  | new
  | delete (containerId : UInt16)

/-- The containers after `zcrt_timer_container_new` gave `c`. -/
def ConState.given (live : UInt16 → Bool) (c : UInt16) : UInt16 → Bool :=
  if c = ZTIMER_INVALID_CONTAINER then live else Function.update live c true

/-- A call that returns. -/
def ConState.step (st : ConState F P) : ConOp → Option (ConState F P)
  | .new =>
      match zcrtTimerContainerNew (some st.mng) with
      | .ok (c, some mng) => some { mng := mng, live := ConState.given st.live c }
      | _ => none
  | .delete c => (zcrtTimerContainerDelete (some st.mng) c).map fun mng =>
      { mng := mng, live := Function.update st.live c false }

def conSys : Sys (ConState F P) ConOp where
  init st := st = { mng := zcrtTimerManageInit, live := fun _ => false }
  next := ConState.step

/-- The table holds the live containers. -/
def ConState.Ok (st : ConState F P) : Prop :=
  ∀ c, st.live c = true ↔ InRange c ∧ st.mng.container c ≠ 0

theorem valid_iff {c : UInt16} :
    ztimerIsValidContainerId c = true ↔ InRange c ∨ c = ZTIMER_CONTAINER_CONSTID := by
  unfold ztimerIsValidContainerId InRange
  simp
  tauto

theorem not_inRange_const : ¬InRange ZTIMER_CONTAINER_CONSTID := by
  rintro ⟨-, h⟩
  exact absurd h (by decide)

/-- With something free, a free container is taken. -/
theorem containerNew_of_free (mng : ZTimer F P) {d : UInt16} (hd : InRange d)
    (hfree : mng.container d = 0) :
    ∃ c i, InRange c ∧ mng.container c = 0 ∧ zcrtTimerContainerNew (some mng) = .ok (c,
      some { mng with container := Function.update mng.container c 1, conlastid := i }) := by
  obtain ⟨r, hr⟩ := containerLoop_free mng.conlastid hd hfree
  obtain ⟨k, -, hidx, hne, hzero, -⟩ := containerLoop_firstFree hr
  refine ⟨r.1, r.2, ⟨hne, ?_⟩, hzero, ?_⟩
  · rw [hidx, u16_mod_max]
    exact Nat.mod_lt _ (by decide)
  · have hnext : mng.nextContainer = .ok (some r) := hr
    unfold zcrtTimerContainerNew
    dsimp only
    rw [hnext]
    rfl

section Full

variable {mng : ZTimer F P} (hfull : ∀ d, InRange d → mng.container d ≠ 0)
include hfull

theorem containerNew_of_full (hlast : mng.conlastid.toNat < 64536) :
    zcrtTimerContainerNew (some mng) = .ok (ZTIMER_INVALID_CONTAINER, some mng) := by
  have hmax : ZTIMER_CONTAINER_MAX = 1000 := rfl
  have hnext : mng.nextContainer = .ok none :=
    containerLoop_full hfull (by omega) (by omega) (by omega)
  unfold zcrtTimerContainerNew
  dsimp only
  rw [hnext]
  rfl

theorem containerNew_endless (hlast : 64536 ≤ mng.conlastid.toNat) :
    zcrtTimerContainerNew (some mng) = .error .endless := by
  have hmax : ZTIMER_CONTAINER_MAX = 1000 := rfl
  have hnext : mng.nextContainer = .error .endless := containerLoop_endless hfull (by omega)
  unfold zcrtTimerContainerNew
  dsimp only
  rw [hnext]
  rfl

end Full

theorem ConState.Ok.step {st st' : ConState F P} (h : st.Ok) {op : ConOp}
    (hs : st.step op = some st') : st'.Ok := by
  match op with
  | .new =>
      unfold ConState.step at hs
      dsimp only at hs
      by_cases hfree : ∃ d, InRange d ∧ st.mng.container d = 0
      · obtain ⟨d, hd, hzero⟩ := hfree
        obtain ⟨c, i, hc, -, hnew⟩ := containerNew_of_free st.mng hd hzero
        rw [hnew] at hs
        obtain rfl := Option.some.inj hs
        unfold ConState.given
        rw [if_neg hc.1]
        intro d
        by_cases hd : d = c
        · subst hd
          simp [hc]
        · dsimp only
          rw [Function.update_of_ne hd, Function.update_of_ne hd]
          exact h d
      · push Not at hfree
        rcases Nat.lt_or_ge st.mng.conlastid.toNat 64536 with hlast | hlast
        · rw [containerNew_of_full hfree hlast] at hs
          obtain rfl := Option.some.inj hs
          unfold ConState.given
          rw [if_pos rfl]
          exact h
        · rw [containerNew_endless hfree hlast] at hs
          exact nomatch hs
  | .delete c =>
      obtain ⟨mng, hdel, rfl⟩ := Option.map_eq_some_iff.mp hs
      intro d
      dsimp only
      rcases containerDelete_cases hdel with ⟨rfl, hno⟩ | rfl
      · by_cases hd : d = c
        · subst hd
          have hrange : ¬InRange d := by
            intro hr
            rcases hno with hno | rfl
            · exact hno (valid_iff.mpr (Or.inl hr))
            · exact not_inRange_const hr
          simp [hrange]
        · rw [Function.update_of_ne hd]
          exact h d
      · by_cases hd : d = c
        · subst hd
          simp
        · dsimp only
          rw [Function.update_of_ne hd, Function.update_of_ne hd]
          exact h d

theorem conSys_ok {st : ConState F P} (h : conSys.Reachable st) : st.Ok := by
  refine h.invariant ?_ fun _ _ _ hok _ hn => hok.step hn
  rintro st rfl c
  simp [zcrtTimerManageInit]

/-- `zcrt_timer_container_new` ends, gives a container that is not live as long as there is one,
    and `ZTIMER_INVALID_CONTAINER` exactly when there is none, the table then unchanged. -/
def Allocates (st : ConState F P) : Prop :=
  ∃ c mng, zcrtTimerContainerNew (some st.mng) = .ok (c, some mng) ∧
    ((∃ d, InRange d ∧ st.live d = false) → InRange c ∧ st.live c = false) ∧
    (c = ZTIMER_INVALID_CONTAINER ↔ ∀ d, InRange d → st.live d = true) ∧
    (c = ZTIMER_INVALID_CONTAINER → mng = st.mng)

theorem ConState.Ok.free_iff {st : ConState F P} (h : st.Ok) {d : UInt16} (hd : InRange d) :
    st.live d = false ↔ st.mng.container d = 0 := by
  rw [← Bool.not_eq_true, h d]
  tauto

/-- In every state of every run a new container is right exactly while one is free or `conlastid`
    is below 64536. -/
theorem containers_iff {st : ConState F P} (h : conSys.Reachable st) :
    Allocates st ↔
      (∃ d, InRange d ∧ st.live d = false) ∨ st.mng.conlastid.toNat < 64536 := by
  have hok := conSys_ok h
  by_cases hfree : ∃ d, InRange d ∧ st.live d = false
  · refine ⟨fun _ => Or.inl hfree, fun _ => ?_⟩
    obtain ⟨d, hd, hdead⟩ := hfree
    obtain ⟨c, i, hc, hzero, hnew⟩ := containerNew_of_free st.mng hd ((hok.free_iff hd).mp hdead)
    refine ⟨c, _, hnew, fun _ => ⟨hc, (hok.free_iff hc).mpr hzero⟩, ⟨?_, ?_⟩, ?_⟩
    · exact fun hinv => absurd hinv hc.1
    · intro hall
      rw [hall d hd] at hdead
      exact nomatch hdead
    · exact fun hinv => absurd hinv hc.1
  · have hfull : ∀ d, InRange d → st.mng.container d ≠ 0 := by
      intro d hd hzero
      exact hfree ⟨d, hd, (hok.free_iff hd).mpr hzero⟩
    have hall : ∀ d, InRange d → st.live d = true := fun d hd => (hok d).mpr ⟨hd, hfull d hd⟩
    rw [or_iff_right hfree]
    constructor
    · rintro ⟨c, mng, hnew, -⟩
      by_contra hlast
      rw [containerNew_endless hfull (by omega)] at hnew
      exact nomatch hnew
    · intro hlast
      exact ⟨_, _, containerNew_of_full hfull hlast, fun hc => absurd hc hfree,
        iff_of_true rfl hall, fun _ => rfl⟩

/-! ## A run into the endless search -/

/-- All containers are live and `conlastid` is `n`. -/
structure ConState.FullAt (st : ConState F P) (n : Nat) : Prop where
  reach : conSys.Reachable st
  last : st.mng.conlastid.toNat = n
  full : ∀ d, InRange d → st.mng.container d ≠ 0

/-- The containers up to `n` are live and `conlastid` is `n`. -/
structure ConState.FilledTo (st : ConState F P) (n : Nat) : Prop where
  reach : conSys.Reachable st
  last : st.mng.conlastid.toNat = n
  used : ∀ d, InRange d → (st.mng.container d ≠ 0 ↔ d.toNat ≤ n)

theorem inRange_ofNat {c : Nat} (h0 : c ≠ 0) (h : c < ZTIMER_CONTAINER_MAX) :
    InRange (UInt16.ofNat c) ∧ (UInt16.ofNat c).toNat = c := by
  have hmax : ZTIMER_CONTAINER_MAX = 1000 := rfl
  have hc : (UInt16.ofNat c).toNat = c := by
    rw [UInt16.toNat_ofNat']
    omega
  refine ⟨⟨fun he => ?_, by omega⟩, hc⟩
  rw [he] at hc
  exact h0 hc.symm

/-- `zcrt_timer_container_new` when the next free container is `k` places on. -/
theorem containerNew_ahead {mng : ZTimer F P} {k n c : Nat} (hn : mng.conlastid.toNat = n)
    (hk : k < ZTIMER_CONTAINER_MAX) (hwrap : n + k < 65536)
    (hc : (n + k) % ZTIMER_CONTAINER_MAX = c) (h0 : c ≠ 0)
    (hfree : mng.container (UInt16.ofNat c) = 0)
    (hused : ∀ j < k, (n + j) % ZTIMER_CONTAINER_MAX ≠ 0 →
      mng.container (UInt16.ofNat ((n + j) % ZTIMER_CONTAINER_MAX)) ≠ 0) :
    zcrtTimerContainerNew (some mng) = .ok (UInt16.ofNat c,
      some { mng with container := Function.update mng.container (UInt16.ofNat c) 1
                      conlastid := UInt16.ofNat (n + k) }) := by
  have hmax : ZTIMER_CONTAINER_MAX = 1000 := rfl
  have hidx : ∀ j ≤ k, (mng.conlastid + UInt16.ofNat j) % UInt16.ofNat ZTIMER_CONTAINER_MAX =
      UInt16.ofNat ((n + j) % ZTIMER_CONTAINER_MAX) := by
    intro j hj
    apply UInt16.toNat_inj.mp
    rw [u16_mod_max, u16_add_ofNat, UInt16.toNat_ofNat', hn, hmax]
    omega
  have hclt : c < ZTIMER_CONTAINER_MAX := hc ▸ Nat.mod_lt _ (by decide)
  have hlast : mng.conlastid + UInt16.ofNat k = UInt16.ofNat (n + k) := by
    apply UInt16.toNat_inj.mp
    rw [u16_add_ofNat, UInt16.toNat_ofNat', hn]
  have hloop : mng.nextContainer = .ok (some (UInt16.ofNat c, UInt16.ofNat (n + k))) := by
    unfold ZTimer.nextContainer
    rw [containerLoop_first (k := k) (by omega), hidx k (Nat.le_refl k), hc, hlast]
    · intro j hj
      rw [u16_add_ofNat, hn]
      omega
    · intro j hj
      rw [hidx j (Nat.le_of_lt hj)]
      intro hj0
      refine hused j hj fun hz => hj0 ?_
      rw [hz]
      rfl
    · rw [hidx k (Nat.le_refl k), hc]
      exact (inRange_ofNat h0 hclt).1.1
    · rw [hidx k (Nat.le_refl k), hc]
      exact hfree
  unfold zcrtTimerContainerNew
  dsimp only
  rw [hloop]
  rfl

theorem filledTo_succ {st : ConState F P} {n : Nat} (h : st.FilledTo n)
    (hn : n + 1 < ZTIMER_CONTAINER_MAX) : ∃ st' : ConState F P, st'.FilledTo (n + 1) := by
  have hmax : ZTIMER_CONTAINER_MAX = 1000 := rfl
  obtain ⟨hrange, hval⟩ := inRange_ofNat (Nat.succ_ne_zero n) hn
  have hfree : st.mng.container (UInt16.ofNat (n + 1)) = 0 := by
    by_contra hused
    have := (h.used _ hrange).mp hused
    omega
  have hnew := containerNew_ahead (k := 1) h.last (by omega) (by omega) (Nat.mod_eq_of_lt hn)
    (Nat.succ_ne_zero n) hfree (by
      intro j hj hne
      obtain rfl : j = 0 := by omega
      rw [Nat.add_zero, Nat.mod_eq_of_lt (by omega)] at hne ⊢
      obtain ⟨hr, hv⟩ := inRange_ofNat hne (by omega)
      exact (h.used _ hr).mpr (by omega))
  have hstep : st.step .new = some
      { mng := { st.mng with container := Function.update st.mng.container (UInt16.ofNat (n + 1)) 1
                             conlastid := UInt16.ofNat (n + 1) }
        live := ConState.given st.live (UInt16.ofNat (n + 1)) } := by
    unfold ConState.step
    dsimp only
    rw [hnew]
  refine ⟨_, h.reach.step (l := .new) trivial hstep, hval, fun d hd => ?_⟩
  by_cases he : d = UInt16.ofNat (n + 1)
  · subst he
    dsimp only
    rw [Function.update_self, hval]
    simp
  · have hne : d.toNat ≠ n + 1 := fun hv => he (UInt16.toNat_inj.mp (hv.trans hval.symm))
    dsimp only
    rw [Function.update_of_ne he, h.used d hd]
    omega

/-- With all live, one deleted `k` places on is the one given out next. -/
theorem fullAt_ahead {st : ConState F P} {n k : Nat} (h : st.FullAt n)
    (hk : k < ZTIMER_CONTAINER_MAX) (hwrap : n + k < 65536)
    (h0 : (n + k) % ZTIMER_CONTAINER_MAX ≠ 0) : ∃ st' : ConState F P, st'.FullAt (n + k) := by
  have hmax : ZTIMER_CONTAINER_MAX = 1000 := rfl
  obtain ⟨hrange, hval⟩ := inRange_ofNat h0 (Nat.mod_lt _ (by decide))
  generalize hc : (n + k) % ZTIMER_CONTAINER_MAX = c at h0 hrange hval
  have hdel : zcrtTimerContainerDelete (some st.mng) (UInt16.ofNat c) =
      some { st.mng with container := Function.update st.mng.container (UInt16.ofNat c) 0 } := by
    unfold zcrtTimerContainerDelete
    dsimp only
    rw [if_neg]
    rintro (hno | he)
    · exact hno (valid_iff.mpr (Or.inl hrange))
    · rw [he] at hrange
      exact not_inRange_const hrange
  have hlast : ({ st.mng with container := Function.update st.mng.container (UInt16.ofNat c) 0 } :
      ZTimer F P).conlastid.toNat = n := h.last
  have hnew := containerNew_ahead (k := k) hlast hk hwrap hc h0 (Function.update_self ..) (by
      intro j hj hne
      obtain ⟨hr, hv⟩ := inRange_ofNat hne (Nat.mod_lt _ (by decide))
      have hother : UInt16.ofNat ((n + j) % ZTIMER_CONTAINER_MAX) ≠ UInt16.ofNat c := by
        intro he
        have := congrArg UInt16.toNat he
        rw [hv, hval, ← hc, hmax] at this
        omega
      dsimp only
      rw [Function.update_of_ne hother]
      exact h.full _ hr)
  have hstep1 : st.step (.delete (UInt16.ofNat c)) = some
      { mng := { st.mng with container := Function.update st.mng.container (UInt16.ofNat c) 0 }
        live := Function.update st.live (UInt16.ofNat c) false } := by
    unfold ConState.step
    dsimp only
    rw [hdel]
    rfl
  have hreach := Sys.Reach.step (l := ConOp.delete (UInt16.ofNat c)) h.reach trivial hstep1
  have hlast : (UInt16.ofNat (n + k)).toNat = n + k := by
    rw [UInt16.toNat_ofNat']
    omega
  have hstep2 : ConState.step
      { mng := { st.mng with container := Function.update st.mng.container (UInt16.ofNat c) 0 }
        live := Function.update st.live (UInt16.ofNat c) false } .new = some
      { mng := { st.mng with
          container := Function.update
            (Function.update st.mng.container (UInt16.ofNat c) 0) (UInt16.ofNat c) 1
          conlastid := UInt16.ofNat (n + k) }
        live := ConState.given (Function.update st.live (UInt16.ofNat c) false)
          (UInt16.ofNat c) } := by
    unfold ConState.step
    dsimp only
    rw [hnew]
  refine ⟨_, Sys.Reach.step (l := ConOp.new) hreach trivial hstep2, hlast, fun d hd => ?_⟩
  by_cases he : d = UInt16.ofNat c
  · subst he
    simp
  · simp [he, h.full d hd]

theorem filledTo_reach {n : Nat} (hn : n < ZTIMER_CONTAINER_MAX) :
    ∃ st : ConState F P, st.FilledTo n := by
  induction n with
  | zero =>
      refine ⟨{ mng := zcrtTimerManageInit, live := fun _ => false }, Sys.Reach.init rfl, rfl, ?_⟩
      rintro d ⟨hne, -⟩
      have hpos : d.toNat ≠ 0 := fun hz => hne (UInt16.toNat_inj.mp hz)
      simp [zcrtTimerManageInit, hpos]
  | succ n ih =>
      obtain ⟨st, hst⟩ := ih (by omega)
      exact filledTo_succ hst hn

/-- After 999 calls all containers are live. -/
theorem fullAt_first : ∃ st : ConState F P, st.FullAt 999 := by
  obtain ⟨st, hst⟩ := filledTo_reach (F := F) (P := P) (show 999 < ZTIMER_CONTAINER_MAX by decide)
  refine ⟨st, hst.reach, hst.last, fun d hd => (hst.used d hd).mpr ?_⟩
  exact Nat.le_of_lt_succ hd.2

/-- Three containers given out and the second deleted, and all 999 given out. -/
theorem containers_iff_used :
    (∃ st : ConState Nat Nat, conSys.Reachable st ∧
      [1, 2, 3, 4].map st.live = [true, false, true, false] ∧ Allocates st) ∧
    ∃ st : ConState Nat Nat, conSys.Reachable st ∧ (∀ d, InRange d → st.live d = true) ∧
      st.mng.conlastid.toNat = 999 ∧ Allocates st := by
  constructor
  · have hinit : conSys.Reachable
        ({ mng := zcrtTimerManageInit, live := fun _ => false } : ConState Nat Nat) :=
      Sys.Reach.init rfl
    obtain ⟨st, h, hp⟩ := Sys.reach_of_run (c := fun _ _ => true)
      (p := fun st => [1, 2, 3, 4].map st.live == [true, false, true, false])
      (fun _ _ _ => trivial) hinit [.new, .new, .new, .delete 2] (by decide)
    have hlive := eq_of_beq hp
    refine ⟨st, h, hlive, (containers_iff h).mpr (Or.inl ⟨2, ⟨by decide, by decide⟩, ?_⟩)⟩
    exact (List.cons.inj (List.cons.inj hlive).2).1
  · obtain ⟨st, hst⟩ := fullAt_first (F := Nat) (P := Nat)
    refine ⟨st, hst.reach, fun d hd => (conSys_ok hst.reach d).mpr ⟨hd, hst.full d hd⟩, hst.last,
      (containers_iff hst.reach).mpr (Or.inr ?_)⟩
    rw [hst.last]
    decide

/-- `conlastid` gets as far as 64536 with all containers live. -/
theorem fullAt_reach {n : Nat} (hn : n ≤ 64536) :
    ∃ (st : ConState F P) (m : Nat), n ≤ m ∧ m < 65536 ∧ st.FullAt m := by
  have hmax : ZTIMER_CONTAINER_MAX = 1000 := rfl
  induction n with
  | zero =>
      obtain ⟨st, hst⟩ := fullAt_first (F := F) (P := P)
      exact ⟨st, 999, by omega, by omega, hst⟩
  | succ n ih =>
      obtain ⟨st, m, hnm, hm, hst⟩ := ih (by omega)
      rcases Nat.eq_or_lt_of_le hnm with rfl | hlt
      · by_cases h0 : (n + 1) % ZTIMER_CONTAINER_MAX = 0
        · -- 0 is no container
          obtain ⟨st', hst'⟩ := fullAt_ahead (k := 2) hst (by omega) (by omega)
            (by rw [hmax] at h0 ⊢; omega)
          exact ⟨st', n + 2, by omega, by omega, hst'⟩
        · obtain ⟨st', hst'⟩ := fullAt_ahead (k := 1) hst (by omega) (by omega) h0
          exact ⟨st', n + 1, by omega, by omega, hst'⟩
      · exact ⟨st, m, hlt, hm, hst⟩

/-- A run after which all containers are live and the search for one does not end. -/
theorem containers_endless :
    ∃ st : ConState Nat Nat, conSys.Reachable st ∧
      (∀ fuel, containerLoop st.mng.container st.mng.conlastid fuel st.mng.conlastid =
        .error .endless) ∧ ¬Allocates st := by
  have hmax : ZTIMER_CONTAINER_MAX = 1000 := rfl
  obtain ⟨st, m, hle, -, hst⟩ := fullAt_reach (F := Nat) (P := Nat) (Nat.le_refl 64536)
  have hlast := hst.last
  refine ⟨st, hst.reach, fun fuel => containerLoop_endless hst.full (by omega), ?_⟩
  rintro ⟨c, mng, hnew, -⟩
  rw [containerNew_endless hst.full (by omega)] at hnew
  exact nomatch hnew

end Zcrt
