/-
  The registry of components: `zipc_server_register`, `zipc_server_unregister` and the table behind
  them, and who is registered after any sequence of these calls.

  * `HashOk`: the table of the names it holds. Two C strings that are equal have one hash key, and
    `strcmp` finds them equal.
  * `regSys`: the calls, with the history of what each returned.
  * `registered_iff_owned`: a lookup finds the component last registered, as long as no component is
    unregistered while another one has its name.
-/
import Zcrt.Lib.Buckets
import Zcrt.Lib.Steps
import Zcrt.Ipc.Parse

namespace Zcrt

open Lib

variable {F E : Type}

/-! ## Names -/

theorem hashKeyLoop_cstring {cs : List UInt8} (h : (0 : UInt8) ∈ cs) (key : UInt32) :
    hashKeyLoop cs key = hashKeyLoop (cstring cs ++ [0]) key := by
  induction cs generalizing key with
  | nil => exact absurd h List.not_mem_nil
  | cons c cs ih =>
      by_cases hc : c = 0
      · rw [hc]
        rfl
      · have htail := List.mem_of_ne_of_mem (Ne.symm hc) h
        -- the byte added is the next one, which may be the NUL
        have hnext : cs.headD 0 = (cstring cs ++ [0]).headD 0 := by
          cases cs with
          | nil => exact absurd htail List.not_mem_nil
          | cons d cs =>
              by_cases hd : d = 0
              · rw [hd]
                rfl
              · rw [cstring_cons hd]
                rfl
        rw [cstring_cons hc, List.cons_append, hashKeyLoop, hashKeyLoop, if_neg hc, if_neg hc,
          ← hnext]
        exact ih htail _

/-- The place of a name. -/
def hashHome (size : UInt32) (name : List UInt8) : Nat :=
  (hashKeyLoop (name ++ [0]) 0 % size).toNat

theorem zcrtHashKey_eq (ht : ZHash (ZIPCComp F)) {comp : ZIPCComp F}
    (h : (0 : UInt8) ∈ comp.name) :
    zcrtHashKey zipcComponentHashKey ht comp = hashHome ht.size (cstring comp.name) := by
  unfold zcrtHashKey hashHome zipcComponentHashKey
  rw [hashKeyLoop_cstring h]

theorem setlname_of_lt {name : List UInt8} (h : name.length < 64) :
    zipcComponentSetlname name = name ++ List.replicate (64 - name.length) 0 := by
  unfold zipcComponentSetlname
  dsimp only
  rw [if_neg (show ¬name.length ≥ ZCRT_NAME_LEN.toNat from Nat.not_le_of_lt h), List.take_length]
  rfl

/-- A name that does not fit is cut. -/
theorem setlname_of_ge {name : List UInt8} (h : 64 ≤ name.length) :
    zipcComponentSetlname name = zipcComponentSetlname (name.take 63) := by
  have hlen : (name.take 63).length = 63 := by
    rw [List.length_take]
    omega
  rw [setlname_of_lt (show (name.take 63).length < 64 by omega), hlen]
  unfold zipcComponentSetlname
  dsimp only
  rw [if_pos (show name.length ≥ ZCRT_NAME_LEN.toNat from h)]
  rfl

/-- A name that fits is kept up to its first NUL. -/
theorem cstring_setlname {name : List UInt8} (h : name.length < 64) :
    cstring (zipcComponentSetlname name) = cstring name := by
  obtain ⟨k, hk⟩ : ∃ k, 64 - name.length = k + 1 := ⟨63 - name.length, by omega⟩
  rw [setlname_of_lt h, hk, List.replicate_succ, cstring_append_zero]

theorem setlname_nul (name : List UInt8) : (0 : UInt8) ∈ zipcComponentSetlname name := by
  have hlt : ∀ name : List UInt8, name.length < 64 → (0 : UInt8) ∈ zipcComponentSetlname name :=
    fun name h => by
      rw [setlname_of_lt h]
      exact List.mem_append_right _ (List.mem_replicate.mpr ⟨by omega, rfl⟩)
  by_cases h : name.length < 64
  · exact hlt name h
  · rw [setlname_of_ge (Nat.le_of_not_lt h)]
    exact hlt _ (by rw [List.length_take]; omega)

/-- A component made by `zipc_component_new`: its name is a C string that fits, padded. -/
def ZIPCComp.Made (comp : ZIPCComp F) : Prop :=
  zipcComponentSetlname (cstring comp.name) = comp.name

instance (comp : ZIPCComp F) : Decidable comp.Made := inferInstanceAs (Decidable (_ = _))

theorem ZIPCComp.Made.nul {comp : ZIPCComp F} (h : comp.Made) : (0 : UInt8) ∈ comp.name := by
  rw [← h]
  exact setlname_nul _

theorem zipcComponentNew_made (addr : Nat) {name : List UInt8} (h : (0 : UInt8) ∉ name)
    (call : Option F) : (zipcComponentNew addr name call).Made := by
  have hlt : ∀ name : List UInt8, name.length < 64 → (0 : UInt8) ∉ name →
      zipcComponentSetlname (cstring (zipcComponentSetlname name)) = zipcComponentSetlname name :=
    fun name hname hno => by rw [cstring_setlname hname, cstring_of_noNul hno]
  change zipcComponentSetlname (cstring (zipcComponentSetlname name)) = zipcComponentSetlname name
  by_cases hname : name.length < 64
  · exact hlt name hname h
  · rw [setlname_of_ge (Nat.le_of_not_lt hname)]
    exact hlt _ (by rw [List.length_take]; omega) fun hm => h (List.mem_of_mem_take hm)

/-! ## The table -/

/-- The table holds `c`. -/
def ZHash.Has {α : Type} (ht : ZHash α) (c : α) : Prop := ∃ i, c ∈ ht.index i

/-- Each component is in the chain of its name, no two have one name, and the names are C
    strings. -/
structure HashOk (ht : ZHash (ZIPCComp F)) : Prop where
  buckets : Buckets (fun c : ZIPCComp F => cstring c.name) (hashHome ht.size) ht.index
  nul : ∀ c, ht.Has c → (0 : UInt8) ∈ c.name

namespace HashOk

variable {ht : ZHash (ZIPCComp F)} {comp : ZIPCComp F}

theorem new {node : Nat} {size : UInt32} (h : zcrtHashNew node size = some ht) :
    HashOk ht ∧ ∀ c, ¬ht.Has c := by
  obtain ⟨-, rfl⟩ := zcrtHashNew_eq_some h
  have hno : ∀ c : ZIPCComp F, ¬ZHash.Has ⟨size, 0, fun _ => []⟩ c := fun c hc => by
    obtain ⟨i, hi⟩ := hc
    exact absurd hi List.not_mem_nil
  exact ⟨⟨Buckets.empty, fun c hc => absurd hc (hno c)⟩, hno⟩

theorem cmp_iff (h : HashOk ht) (hcomp : (0 : UInt8) ∈ comp.name) {i : Nat} :
    ∀ c ∈ ht.index i, decide (zipcComponentHashCmp c comp = 0) = true ↔
      cstring c.name = cstring comp.name := fun c hc => by
  rw [decide_eq_true_iff]
  exact strncmp_eq_zero_iff_cstring (h.nul c ⟨i, hc⟩) hcomp

/-- A lookup finds the component of that name. -/
theorem lookup_eq_some (h : HashOk ht) {name : List UInt8} {c : ZIPCComp F} :
    zipcParaseLookupComp (some ht) name = some c ↔
      ht.Has c ∧ cstring c.name = cstring (zipcComponentSetlname name) := by
  unfold zipcParaseLookupComp
  rw [Option.bind_some]
  unfold zcrtHashLookup
  rw [zcrtHashKey_eq ht (setlname_nul name)]
  exact h.buckets.find_eq_some (h.cmp_iff (setlname_nul name))

theorem lookup_eq_none (h : HashOk ht) {name : List UInt8} :
    zipcParaseLookupComp (some ht) name = none ↔
      ∀ c, ht.Has c → cstring c.name ≠ cstring (zipcComponentSetlname name) := by
  rw [Option.eq_none_iff_forall_ne_some]
  constructor
  · intro hnone c hc he
    exact hnone c (h.lookup_eq_some.mpr ⟨hc, he⟩)
  · intro hno c hc
    obtain ⟨hhas, he⟩ := h.lookup_eq_some.mp hc
    exact hno c hhas he

variable (comp) in
/-- A component of a new name added. -/
theorem add (h : HashOk ht) (hcomp : (0 : UInt8) ∈ comp.name)
    (hnew : ∀ c, ht.Has c → cstring c.name ≠ cstring comp.name) :
    HashOk (zcrtHashAdd zipcComponentHashKey ht comp) ∧
      ∀ c, (zcrtHashAdd zipcComponentHashKey ht comp).Has c ↔ c = comp ∨ ht.Has c := by
  have hhas : ∀ c, (zcrtHashAdd zipcComponentHashKey ht comp).Has c ↔ c = comp ∨ ht.Has c :=
    fun c => Buckets.mem_add
  refine ⟨⟨?_, fun c hc => ?_⟩, hhas⟩
  · have hadd := h.buckets.add (d := comp) fun i c hc => hnew c ⟨i, hc⟩
    rw [← zcrtHashKey_eq ht hcomp] at hadd
    exact hadd
  · rcases (hhas c).mp hc with rfl | hc
    · exact hcomp
    · exact h.nul c hc

/-- A removal takes the first node out that compares equal. -/
theorem remove_index (ht : ZHash (ZIPCComp F)) (comp : ZIPCComp F) :
    (zcrtHashRemove zipcComponentHashKey zipcComponentHashCmp ht comp).size = ht.size ∧
    (zcrtHashRemove zipcComponentHashKey zipcComponentHashCmp ht comp).index =
      Function.update ht.index (zcrtHashKey zipcComponentHashKey ht comp)
        ((ht.index (zcrtHashKey zipcComponentHashKey ht comp)).eraseP
          fun c => decide (zipcComponentHashCmp c comp = 0)) := by
  rw [zcrtHashRemove_eq]
  exact ⟨rfl, rfl⟩

/-- The component of that name removed, whichever it is. -/
theorem remove (h : HashOk ht) (hcomp : (0 : UInt8) ∈ comp.name) :
    HashOk (zcrtHashRemove zipcComponentHashKey zipcComponentHashCmp ht comp) ∧
      ∀ c, (zcrtHashRemove zipcComponentHashKey zipcComponentHashCmp ht comp).Has c ↔
        ht.Has c ∧ cstring c.name ≠ cstring comp.name := by
  obtain ⟨hsize, hindex⟩ := remove_index ht comp
  rw [zcrtHashKey_eq ht hcomp] at hindex
  have hhas : ∀ c, (zcrtHashRemove zipcComponentHashKey zipcComponentHashCmp ht comp).Has c ↔
      ht.Has c ∧ cstring c.name ≠ cstring comp.name := fun c => by
    unfold ZHash.Has
    rw [hindex]
    exact h.buckets.mem_erase (h.cmp_iff hcomp)
  refine ⟨⟨?_, fun c hc => h.nul c ((hhas c).mp hc).1⟩, hhas⟩
  rw [hindex, hsize]
  exact h.buckets.erase _ _

end HashOk

/-! ## The calls -/

/-- `zipc_server_register`. -/
def zipcServerRegister (module : Option (ZIPCModule F E)) (comp : Option (ZIPCComp F)) :
    EZCRTErr × Option (ZIPCModule F E) :=
  match module, comp with
  | some ipc, some comp =>
      if (zipcParaseLookupComp ipc.modlist (cstring comp.name)).isSome then (.existed, some ipc)
      else
        (.success, some { ipc with
          modlist := ipc.modlist.map fun ht => zcrtHashAdd zipcComponentHashKey ht comp })
  | module, _ => (.paramErr, module)

/-- `zipc_server_unregister`. -/
def zipcServerUnregister (module : Option (ZIPCModule F E)) (comp : Option (ZIPCComp F)) :
    Option (ZIPCModule F E) :=
  match module, comp with
  | some ipc, some comp =>
      some { ipc with
        modlist := ipc.modlist.map fun ht =>
          zcrtHashRemove zipcComponentHashKey zipcComponentHashCmp ht comp }
  | module, _ => module

/-- A call that was made, with what it returned. -/
inductive RegCall (F : Type)
  | register (comp : ZIPCComp F) (ret : EZCRTErr)
  | unregister (comp : ZIPCComp F)

/-- The last successful registration of `comp` has not been followed by `zipc_server_unregister`. -/
def Owned (comp : ZIPCComp F) (log : List (RegCall F)) : Prop :=
  ∃ before after, log = before ++ .register comp .success :: after ∧ .unregister comp ∉ after

theorem not_owned_nil (comp : ZIPCComp F) : ¬Owned comp [] := fun h => by
  obtain ⟨before, after, he, -⟩ := h
  exact absurd he.symm (by simp)

/-- After one call more. -/
theorem owned_concat {comp : ZIPCComp F} {log : List (RegCall F)} {x : RegCall F} :
    Owned comp (log ++ [x]) ↔
      x = .register comp .success ∨ Owned comp log ∧ x ≠ .unregister comp := by
  constructor
  · intro h
    obtain ⟨before, after, he, hno⟩ := h
    rcases List.eq_nil_or_concat after with rfl | ⟨after, y, rfl⟩
    · exact Or.inl (List.append_inj_right' he rfl |> List.singleton_inj.mp)
    · rw [List.concat_eq_append] at he hno
      have he' : log ++ [x] = (before ++ .register comp .success :: after) ++ [y] := by
        rw [he]
        simp
      obtain ⟨rfl, hxy⟩ := List.append_inj' he' rfl
      obtain rfl := List.singleton_inj.mp hxy
      refine Or.inr ⟨⟨before, after, rfl, fun hm => hno (List.mem_append_left _ hm)⟩, fun hx => ?_⟩
      exact hno (List.mem_append_right _ (List.mem_singleton.mpr hx.symm))
  · intro h
    rcases h with rfl | ⟨⟨before, after, rfl, hno⟩, hx⟩
    · exact ⟨log, [], rfl, List.not_mem_nil⟩
    · refine ⟨before, after ++ [x], by simp, fun hm => ?_⟩
      rcases List.mem_append.mp hm with hm | hm
      · exact hno hm
      · exact hx (List.mem_singleton.mp hm).symm

/-- The module and the calls made so far. -/
structure RegState (F E : Type) where
  module : ZIPCModule F E
  log : List (RegCall F)

inductive RegAct (F : Type)
  | register (comp : ZIPCComp F)
  | unregister (comp : ZIPCComp F)

namespace RegState

variable (st : RegState F E)

def registerStep (comp : ZIPCComp F) : Option (RegState F E) :=
  match zipcServerRegister (some st.module) (some comp) with
  | (ret, some module) => some ⟨module, st.log ++ [.register comp ret]⟩
  | _ => none

def unregisterStep (comp : ZIPCComp F) : Option (RegState F E) :=
  (zipcServerUnregister (some st.module) (some comp)).map fun module =>
    ⟨module, st.log ++ [.unregister comp]⟩

/-- The components are those `zipc_component_new` makes. -/
def step : RegAct F → Option (RegState F E)
  | .register comp => if comp.Made then st.registerStep comp else none
  | .unregister comp => if comp.Made then st.unregisterStep comp else none

end RegState

/-- The module has the table `zipc_server_create` gives it. -/
def regSys : Sys (RegState F E) (RegAct F) where
  init st := st.module.modlist = zcrtHashNew sizeofNode 128 ∧ st.log = []
  next := RegState.step

/-! ## Who is registered -/

/-- A lookup of a name returns a component exactly if this is registered and has that name. -/
def LookupOwned (st : RegState F E) : Prop :=
  ∀ name comp, zipcParaseLookupComp st.module.modlist name = some comp ↔
    Owned comp st.log ∧ cstring comp.name = cstring (zipcComponentSetlname name)

/-- No component is unregistered while another one of its name is registered. -/
def OnlyOwn (st : RegState F E) : RegAct F → Prop
  | .register _ => True
  | .unregister comp =>
      ∀ other, Owned other st.log → cstring other.name = cstring comp.name → other = comp

/-- The table holds the components registered. -/
def RegInv (st : RegState F E) : Prop :=
  ∃ ht, st.module.modlist = some ht ∧ HashOk ht ∧ ∀ comp, ht.Has comp ↔ Owned comp st.log

variable {st st' : RegState F E}

theorem RegInv.lookupOwned (h : RegInv st) : LookupOwned st := by
  obtain ⟨ht, hmod, hok, hhas⟩ := h
  intro name comp
  rw [hmod, hok.lookup_eq_some, hhas]

theorem regInv_init (h : regSys.init st) : RegInv st := by
  obtain ⟨hmod, hlog⟩ := h
  have hnew : zcrtHashNew sizeofNode 128 = some (⟨128, 0, fun _ => []⟩ : ZHash (ZIPCComp F)) := rfl
  obtain ⟨hok, hno⟩ := HashOk.new hnew
  refine ⟨_, hmod.trans hnew, hok, fun comp => ?_⟩
  rw [hlog]
  exact ⟨fun hc => absurd hc (hno comp), fun hc => absurd hc (not_owned_nil comp)⟩

theorem RegInv.register (h : RegInv st) {comp : ZIPCComp F} (hmade : comp.Made)
    (hs : st.registerStep comp = some st') : RegInv st' := by
  obtain ⟨ht, hmod, hok, hhas⟩ := h
  unfold RegState.registerStep zipcServerRegister at hs
  dsimp only at hs
  rw [hmod] at hs
  by_cases hex : (zipcParaseLookupComp (some ht) (cstring comp.name)).isSome = true
  · -- refused
    rw [if_pos hex] at hs
    obtain rfl := Option.some.inj hs
    refine ⟨ht, hmod, hok, fun c => ?_⟩
    rw [hhas, owned_concat]
    constructor
    · intro hc
      exact Or.inr ⟨hc, fun he => nomatch he⟩
    · intro hc
      rcases hc with he | hc
      · exact absurd (RegCall.register.inj he).2 (by decide)
      · exact hc.1
  · rw [if_neg hex] at hs
    obtain rfl := Option.some.inj hs
    have hnone := Option.not_isSome_iff_eq_none.mp hex
    have hnew : ∀ c, ht.Has c → cstring c.name ≠ cstring comp.name := fun c hc => by
      have hne := hok.lookup_eq_none.mp hnone c hc
      rwa [hmade] at hne
    obtain ⟨hok', hhas'⟩ := hok.add _ hmade.nul hnew
    refine ⟨_, rfl, hok', fun c => ?_⟩
    rw [hhas', hhas, owned_concat]
    constructor
    · intro hc
      rcases hc with rfl | hc
      · exact Or.inl rfl
      · exact Or.inr ⟨hc, fun he => nomatch he⟩
    · intro hc
      rcases hc with he | hc
      · exact Or.inl (RegCall.register.inj he).1.symm
      · exact Or.inr hc.1

/-- `zipc_server_unregister` takes the component of that name away, whichever it is. -/
theorem RegInv.unregister (h : RegInv st) {comp : ZIPCComp F} (hmade : comp.Made)
    (hs : st.unregisterStep comp = some st') :
    st'.log = st.log ++ [.unregister comp] ∧ ∃ ht, st'.module.modlist = some ht ∧ HashOk ht ∧
      ∀ c, ht.Has c ↔ Owned c st.log ∧ cstring c.name ≠ cstring comp.name := by
  obtain ⟨ht, hmod, hok, hhas⟩ := h
  unfold RegState.unregisterStep zipcServerUnregister at hs
  dsimp only at hs
  rw [hmod] at hs
  obtain rfl := Option.some.inj hs
  obtain ⟨hok', hhas'⟩ := hok.remove hmade.nul
  refine ⟨rfl, _, rfl, hok', fun c => ?_⟩
  rw [hhas', hhas]

/-- A step keeps the registry right exactly if it unregisters nobody else's name. -/
theorem RegInv.step_iff (h : RegInv st) {a : RegAct F} (hs : st.step a = some st') :
    (OnlyOwn st a → RegInv st') ∧ (LookupOwned st' → OnlyOwn st a) := by
  cases a with
  | register comp =>
      unfold RegState.step at hs
      dsimp only at hs
      split at hs
      · rename_i hmade
        exact ⟨fun _ => h.register hmade hs, fun _ => trivial⟩
      · exact nomatch hs
  | unregister comp =>
      unfold RegState.step at hs
      dsimp only at hs
      split at hs
      · rename_i hmade
        obtain ⟨hlog, ht, hmod, hok, hhas⟩ := h.unregister hmade hs
        constructor
        · intro hown
          refine ⟨ht, hmod, hok, fun c => ?_⟩
          rw [hhas, hlog, owned_concat]
          constructor
          · intro hc
            exact Or.inr ⟨hc.1, fun he => hc.2 (by rw [RegCall.unregister.inj he])⟩
          · intro hc
            rcases hc with he | ⟨hc, hne⟩
            · exact nomatch he
            · exact ⟨hc, fun he => hne (by rw [hown c hc he])⟩
        · -- else the other one is not found any more
          intro hlookup other hother hname
          by_contra hne
          have howned : Owned other st'.log := by
            rw [hlog, owned_concat]
            exact Or.inr ⟨hother, fun he => hne (RegCall.unregister.inj he).symm⟩
          have hfound := (hlookup (cstring comp.name) other).mpr ⟨howned, by rw [hmade, hname]⟩
          rw [hmod] at hfound
          exact ((hhas other).mp (hok.lookup_eq_some.mp hfound).1).2 hname
      · exact nomatch hs

theorem regInv_of_reach (h : regSys.Reach OnlyOwn st) : RegInv st :=
  h.invariant (fun _ => regInv_init) fun _ _ _ hinv hown hs => (hinv.step_iff hs).1 hown

/-- A component that is registered can be unregistered. -/
theorem RegInv.onlyOwn (h : RegInv st) {comp : ZIPCComp F} (hown : Owned comp st.log) :
    OnlyOwn st (.unregister comp) := by
  intro other hother hname
  obtain ⟨ht, -, hok, hhas⟩ := h
  obtain ⟨i, hi⟩ := (hhas other).mpr hother
  obtain ⟨j, hj⟩ := (hhas comp).mpr hown
  exact hok.buckets.unique hi hj hname

/-- As long as no component is unregistered while another one of its name is registered, a lookup
    returns the component registered; and no longer. -/
theorem registered_iff_owned (h : regSys.Reach OnlyOwn st) :
    LookupOwned st ∧ ∀ a st', regSys.next st a = some st' → (LookupOwned st' ↔ OnlyOwn st a) := by
  have hinv := regInv_of_reach h
  refine ⟨hinv.lookupOwned, fun a st' hs => ⟨(hinv.step_iff hs).2, fun hown => ?_⟩⟩
  exact ((hinv.step_iff hs).1 hown).lookupOwned

/-! ## Two components of one name -/

def isRegister : RegAct F → Bool
  | .register _ => true
  | .unregister _ => false

theorem onlyOwn_of_isRegister (st : RegState F E) (a : RegAct F) (h : isRegister a = true) :
    OnlyOwn st a := by
  cases a with
  | register comp => trivial
  | unregister comp => exact nomatch h

/-- A component of which only the name matters. -/
def namedComp (addr : Nat) (name : String) : ZIPCComp Unit := zipcComponentNew addr (cstr name) none

def newModule : ZIPCModule Unit Unit := { evtEncode := none, modlist := zcrtHashNew sizeofNode 128 }

/-- Two names that collide, and a third component that is refused until the first one is
    unregistered. -/
theorem registered_iff_owned_refused : ∃ st : RegState Unit Unit, regSys.Reach OnlyOwn st ∧
    (zipcParaseLookupComp st.module.modlist (cstr "ab")).map ZIPCComp.addr = some 3 ∧
    (zipcParaseLookupComp st.module.modlist (cstr "bb")).map ZIPCComp.addr = some 2 ∧
    LookupOwned st := by
  have hinit : regSys.Reach OnlyOwn ⟨newModule, []⟩ := Sys.Reach.init ⟨rfl, rfl⟩
  obtain ⟨st, hr, hlog, hp⟩ : ∃ st, regSys.run (fun _ => isRegister) ⟨newModule, []⟩
      [.register (namedComp 1 "ab"), .register (namedComp 2 "bb"),
        .register (namedComp 3 "ab")] = some st ∧
      st.log = [.register (namedComp 1 "ab") .success, .register (namedComp 2 "bb") .success,
        .register (namedComp 3 "ab") .existed] ∧
      ((st.step (.unregister (namedComp 1 "ab"))).bind fun st =>
        st.step (.register (namedComp 3 "ab"))).map (fun st =>
          ((zipcParaseLookupComp st.module.modlist (cstr "ab")).map ZIPCComp.addr,
            (zipcParaseLookupComp st.module.modlist (cstr "bb")).map ZIPCComp.addr)) =
        some (some 3, some 2) := ⟨_, rfl, rfl, by decide⟩
  have hst := hinit.run onlyOwn_of_isRegister hr
  obtain ⟨st2, hstep, hlookup⟩ := Option.map_eq_some_iff.mp hp
  obtain ⟨st1, hstep1, hstep2⟩ := Option.bind_eq_some_iff.mp hstep
  have howned : Owned (namedComp 1 "ab") st.log := by
    rw [hlog]
    exact ⟨[], _, rfl, by simp⟩
  have hst1 := hst.step ((regInv_of_reach hst).onlyOwn howned) hstep1
  have hst2 := hst1.step (show OnlyOwn st1 (.register (namedComp 3 "ab")) from trivial) hstep2
  obtain ⟨h1, h2⟩ := Prod.mk.inj hlookup
  exact ⟨st2, hst2, h1, h2, (registered_iff_owned hst2).1⟩

/-- The second is refused, and unregistering it takes the first one away. -/
theorem refused_removesOther :
    ∃ st : RegState Unit Unit, regSys.Reachable st ∧ ¬LookupOwned st := by
  have hinit : regSys.Reach OnlyOwn ⟨newModule, []⟩ := Sys.Reach.init ⟨rfl, rfl⟩
  obtain ⟨st, hst, hp⟩ := Sys.reach_of_run (c := fun _ => isRegister)
    (p := fun st =>
      (zipcParaseLookupComp st.module.modlist (cstr "a")).map ZIPCComp.addr == some 1 &&
        (st.step (.unregister (namedComp 2 "a"))).isSome)
    onlyOwn_of_isRegister hinit
    [.register (namedComp 1 "a"), .register (namedComp 2 "a")]
    (by decide)
  obtain ⟨h1, h2⟩ := Bool.and_eq_true_iff.mp hp
  obtain ⟨other, hother, haddr⟩ := Option.map_eq_some_iff.mp (eq_of_beq h1)
  obtain ⟨st', hs⟩ := Option.isSome_iff_exists.mp h2
  have hinv := regInv_of_reach hst
  have hnext : regSys.next st (.unregister (namedComp 2 "a")) = some st' := hs
  refine ⟨st', hst.reachable.step trivial hnext, fun hlookup => ?_⟩
  have hown := (hinv.step_iff hs).2 hlookup
  obtain ⟨howned, hname⟩ := (hinv.lookupOwned _ other).mp hother
  have he := hown other howned hname
  rw [he] at haddr
  exact absurd haddr (by decide)

end Zcrt
