/-
  Which handler a request reaches: the names in the message are counted strings, those of the
  registry are C strings, and `zipc_parase_lookup_comp` makes the former into the latter.

  * `zipcRequestTarget`: `zipc_parse_request` up to the call of the handler.
  * `target_eq_ok`: it is the action named by what stands in front of the first NUL of each name.
  * `dispatchedByName_iff`: when that is the action of the names themselves.
-/
import Zcrt.Ipc.Registry

namespace Zcrt

open Lib

variable {F E : Type}

/-- The action `zipc_parse_request` calls and its component, or the code it returns without a call,
    and the input left. -/
def zipcRequestTarget (module : ZIPCModule F E) (ibuf : ZBuf) :
    Except EZCRTErr (ZIPCComp F × ZIPCComp F × F) × ZBuf :=
  match zipcParseBodyInfo.run ibuf with
  | (.error ret, ibuf) => (.error ret, ibuf)
  | (.ok (compname, action), ibuf) =>
      match zipcParaseLookupComp module.modlist compname with
      | none => (.error .ipcNoModule, ibuf)
      | some comp =>
          match zipcParseArgsType.run ibuf with
          | (.error ret, ibuf) => (.error ret, ibuf)
          | (.ok (), ibuf) =>
              match zipcParaseLookupComp comp.apilist action with
              | none => (.error .ipcNoAct, ibuf)
              | some api =>
                  match api.call with
                  | none => (.error .ipcNoAct, ibuf)
                  | some fn => (.ok (comp, api, fn), ibuf)

/-- The request is answered by the handler of its target, or by a code. -/
theorem zipcParseRequest_eq_target
    (call : F → ZIPCComp F → ZBuf → ZBuf → Option (EZCRTErr × ZBuf × ZBuf))
    (module : ZIPCModule F E) (ibuf obuf : ZBuf) :
    zipcParseRequest call module ibuf obuf =
      match zipcRequestTarget module ibuf with
      | (.error ret, ibuf) => some (ret, ibuf, obuf)
      | (.ok (comp, _, fn), ibuf) => call fn comp ibuf obuf := by
  unfold zipcParseRequest zipcRequestTarget
  rcases zipcParseBodyInfo.run ibuf with ⟨ret | ⟨compname, action⟩, ibuf1⟩
  · rfl
  dsimp only
  cases zipcParaseLookupComp module.modlist compname with
  | none => rfl
  | some comp =>
      dsimp only
      rcases zipcParseArgsType.run ibuf1 with ⟨ret | ⟨⟩, ibuf2⟩
      · rfl
      · unfold zipcCompCall
        dsimp only
        cases zipcParaseLookupComp comp.apilist action with
        | none => rfl
        | some api =>
            dsimp only
            cases api.call with
            | none => rfl
            | some fn => rfl

/-- A request that reaches no handler does not succeed. -/
theorem zipcRequestTarget_error {module : ZIPCModule F E} {v : ZBuf} {ret : EZCRTErr} {ibuf : ZBuf}
    (h : zipcRequestTarget module v = (.error ret, ibuf)) : ret ≠ .success := by
  have hcode : ∀ {code : EZCRTErr} {v' : ZBuf}, code ≠ .success →
      ((.error code, v') : Except EZCRTErr (ZIPCComp F × ZIPCComp F × F) × ZBuf) =
        (.error ret, ibuf) → ret ≠ .success := fun hne he => by
    rw [← Except.error.inj (Prod.mk.inj he).1]
    exact hne
  unfold zipcRequestTarget at h
  rcases hb : zipcParseBodyInfo.run v with ⟨code | ⟨compname, action⟩, ibuf1⟩
  · rw [hb] at h
    exact hcode (by rw [zipcParseBodyInfo_error hb]; decide) h
  rw [hb] at h
  dsimp only at h
  cases hcomp : zipcParaseLookupComp module.modlist compname with
  | none =>
      rw [hcomp] at h
      exact hcode (by decide) h
  | some comp =>
      rw [hcomp] at h
      dsimp only at h
      rcases ha : zipcParseArgsType.run ibuf1 with ⟨code | ⟨⟩, ibuf2⟩
      · rw [ha] at h
        exact hcode (zipcParseArgsType_error ha) h
      rw [ha] at h
      dsimp only at h
      cases hapi : zipcParaseLookupComp comp.apilist action with
      | none =>
          rw [hapi] at h
          exact hcode (by decide) h
      | some api =>
          rw [hapi] at h
          dsimp only at h
          cases hfn : api.call with
          | none =>
              rw [hfn] at h
              exact hcode (by decide) h
          | some fn =>
              rw [hfn] at h
              exact nomatch (Prod.mk.inj h).1

/-- The names a body gives are shorter than a name array. -/
theorem zipcParseBodyInfo_ok {v : ZBuf} {compname action : List UInt8} {ibuf : ZBuf}
    (h : zipcParseBodyInfo.run v = (.ok (compname, action), ibuf)) :
    compname.length < 64 ∧ action.length < 64 := by
  have hp : Prog.Post (fun r : Except EZCRTErr (List UInt8 × List UInt8) =>
      ∀ names, r = .ok names → names.1.length < 64 ∧ names.2.length < 64) zipcParseBodyInfo := by
    have herr : ∀ names,
        (Except.error EZCRTErr.ipcBodyErr : Except EZCRTErr (List UInt8 × List UInt8)) =
        .ok names → names.1.length < 64 ∧ names.2.length < 64 := fun names he => nomatch he
    refine Prog.post_op_bind (I := TlvI) TlvOp.len fun ⟨ok, idx⟩ => ?_
    dsimp only
    split
    · exact Prog.post_pure herr
    split
    · exact Prog.post_pure herr
    refine Prog.post_op_bind (I := TlvI) TlvOp.int fun x => ?_
    cases x with
    | none => exact Prog.post_pure herr
    | some _ =>
    refine Prog.post_op_bind (I := TlvI) TlvOp.string fun x => ?_
    cases x with
    | none => exact Prog.post_pure herr
    | some compname =>
    dsimp only
    split
    · exact Prog.post_pure herr
    rename_i hcomp
    refine Prog.post_op_bind (I := TlvI) TlvOp.int fun x => ?_
    cases x with
    | none => exact Prog.post_pure herr
    | some _ =>
    refine Prog.post_op_bind (I := TlvI) TlvOp.string fun x => ?_
    cases x with
    | none => exact Prog.post_pure herr
    | some action =>
    dsimp only
    split
    · exact Prog.post_pure herr
    · rename_i haction
      refine Prog.post_pure fun names he => ?_
      obtain rfl := Except.ok.inj he
      exact ⟨Nat.lt_of_not_le hcomp, Nat.lt_of_not_le haction⟩
  exact Prog.run_post (I := TlvI) TlvOp.step hp v (compname, action) (congrArg Prod.fst h)

/-! ## Registered actions -/

/-- The tables are those registrations make. -/
def RegistryOk (module : ZIPCModule F E) : Prop :=
  ∃ ht, module.modlist = some ht ∧ HashOk ht ∧
    ∀ comp, ht.Has comp → ∃ apis, comp.apilist = some apis ∧ HashOk apis

/-- A component in the registry and an action of it. -/
def Registered (module : ZIPCModule F E) (comp api : ZIPCComp F) : Prop :=
  ∃ ht apis, module.modlist = some ht ∧ ht.Has comp ∧ comp.apilist = some apis ∧ apis.Has api

/-- `zipc_component_register` keeps the table of actions. -/
theorem zipcComponentRegister_ok {comp sub : ZIPCComp F} {apis : ZHash (ZIPCComp F)}
    (hapis : comp.apilist = some apis) (hok : HashOk apis) (hsub : sub.Made) :
    ∃ ret comp' apis', zipcComponentRegister (some comp) (some sub) = (ret, some comp') ∧
      comp'.name = comp.name ∧ comp'.apilist = some apis' ∧ HashOk apis' := by
  unfold zipcComponentRegister
  dsimp only
  rw [hapis]
  by_cases hex : (zipcParaseLookupComp (some apis) (cstring sub.name)).isSome = true
  · rw [if_pos hex]
    exact ⟨_, comp, apis, rfl, rfl, hapis, hok⟩
  · rw [if_neg hex]
    have hnone := Option.not_isSome_iff_eq_none.mp hex
    refine ⟨_, _, _, rfl, rfl, rfl, (hok.add _ hsub.nul fun c hc => ?_).1⟩
    have hne := hok.lookup_eq_none.mp hnone c hc
    rwa [hsub] at hne

section Target

variable {module : ZIPCModule F E} {ibuf ibuf1 ibuf2 : ZBuf} {compname action : List UInt8}

/-- The target is the action whose name, and whose component's, are those of the message up to the
    first NUL. -/
theorem target_eq_ok (hreg : RegistryOk module)
    (hbody : zipcParseBodyInfo.run ibuf = (.ok (compname, action), ibuf1))
    (hargs : zipcParseArgsType.run ibuf1 = (.ok (), ibuf2)) (comp api : ZIPCComp F) (fn : F) :
    (zipcRequestTarget module ibuf).1 = .ok (comp, api, fn) ↔
      Registered module comp api ∧ api.call = some fn ∧ cstring comp.name = cstring compname ∧
        cstring api.name = cstring action := by
  obtain ⟨ht, hmod, hok, hapis⟩ := hreg
  obtain ⟨hcomplen, hactlen⟩ := zipcParseBodyInfo_ok hbody
  have hlookup : ∀ {ht : ZHash (ZIPCComp F)}, HashOk ht → ∀ {name}, name.length < 64 → ∀ {c},
      (zipcParaseLookupComp (some ht) name = some c ↔ ht.Has c ∧ cstring c.name = cstring name) :=
    fun hok _ hname _ => by rw [hok.lookup_eq_some, cstring_setlname hname]
  unfold zipcRequestTarget
  rw [hbody]
  dsimp only
  constructor
  · intro he
    split at he
    · exact nomatch he
    · rename_i comp' hcomp
      rw [hargs] at he
      dsimp only at he
      split at he
      · exact nomatch he
      · rename_i api' hapi
        split at he
        · exact nomatch he
        · rename_i fn' hfn
          obtain ⟨rfl, hrest⟩ := Prod.mk.inj (Except.ok.inj he)
          obtain ⟨rfl, rfl⟩ := Prod.mk.inj hrest
          rw [hmod] at hcomp
          obtain ⟨hhas, hname⟩ := (hlookup hok hcomplen).mp hcomp
          obtain ⟨apis, hlist, hapisok⟩ := hapis comp' hhas
          rw [hlist] at hapi
          obtain ⟨hhas', hname'⟩ := (hlookup hapisok hactlen).mp hapi
          exact ⟨⟨ht, apis, hmod, hhas, hlist, hhas'⟩, hfn, hname, hname'⟩
  · intro h
    obtain ⟨⟨ht', apis, hmod', hhas, hlist, hhas'⟩, hfn, hname, hname'⟩ := h
    obtain rfl := Option.some.inj (hmod.symm.trans hmod')
    obtain ⟨apis', hlist', hapisok⟩ := hapis comp hhas
    obtain rfl := Option.some.inj (hlist.symm.trans hlist')
    rw [hmod, (hlookup hok hcomplen).mpr ⟨hhas, hname⟩]
    dsimp only
    rw [hargs]
    dsimp only
    rw [hlist, (hlookup hapisok hactlen).mpr ⟨hhas', hname'⟩]
    dsimp only
    rw [hfn]

variable (module) in
/-- Without a target the code says that there is no such component or action. -/
theorem target_error (hbody : zipcParseBodyInfo.run ibuf = (.ok (compname, action), ibuf1))
    (hargs : zipcParseArgsType.run ibuf1 = (.ok (), ibuf2)) :
    (∃ t, (zipcRequestTarget module ibuf).1 = .ok t) ∨
      (zipcRequestTarget module ibuf).1 = .error .ipcNoModule ∨
      (zipcRequestTarget module ibuf).1 = .error .ipcNoAct := by
  unfold zipcRequestTarget
  rw [hbody]
  dsimp only
  split
  · exact Or.inr (Or.inl rfl)
  · rw [hargs]
    dsimp only
    split
    · exact Or.inr (Or.inr rfl)
    · split
      · exact Or.inr (Or.inr rfl)
      · exact Or.inl ⟨_, rfl⟩

end Target

/-! ## Dispatch by name -/

/-- The handler of an action is called exactly if the names in the message are its name and the one
    of its component, byte for byte; else none is, and the code says what is missing. -/
def DispatchedByName (module : ZIPCModule F E) (ibuf : ZBuf) (compname action : List UInt8) :
    Prop :=
  (∀ comp api fn, Registered module comp api → api.call = some fn →
    ((zipcRequestTarget module ibuf).1 = .ok (comp, api, fn) ↔
      cstring comp.name = compname ∧ cstring api.name = action)) ∧
  ((∀ comp api, Registered module comp api → api.call ≠ none →
      ¬(cstring comp.name = compname ∧ cstring api.name = action)) →
    (zipcRequestTarget module ibuf).1 = .error .ipcNoModule ∨
      (zipcRequestTarget module ibuf).1 = .error .ipcNoAct)

/-- No name has a NUL, or what stands in front of the NULs names nothing that could be called. -/
def NulHarmless (module : ZIPCModule F E) (compname action : List UInt8) : Prop :=
  ((0 : UInt8) ∉ compname ∧ (0 : UInt8) ∉ action) ∨
    ∀ comp api, Registered module comp api → api.call ≠ none →
      ¬(cstring comp.name = cstring compname ∧ cstring api.name = cstring action)

/-- A well-formed request reaches the action it names if and only if no NUL in its names cuts one of
    them down to a registered name. The handler called is the one of the target. -/
theorem dispatchedByName_iff {module : ZIPCModule F E} (hreg : RegistryOk module)
    {ibuf ibuf1 ibuf2 : ZBuf} {compname action : List UInt8}
    (hbody : zipcParseBodyInfo.run ibuf = (.ok (compname, action), ibuf1))
    (hargs : zipcParseArgsType.run ibuf1 = (.ok (), ibuf2)) :
    (∀ call obuf, zipcParseRequest call module ibuf obuf =
      match zipcRequestTarget module ibuf with
      | (.error ret, ibuf) => some (ret, ibuf, obuf)
      | (.ok (comp, _, fn), ibuf) => call fn comp ibuf obuf) ∧
    (DispatchedByName module ibuf compname action ↔ NulHarmless module compname action) := by
  refine ⟨fun call obuf => zipcParseRequest_eq_target call module ibuf obuf, ?_⟩
  have hok := target_eq_ok hreg hbody hargs
  constructor
  · intro hdis
    by_contra hharm
    unfold NulHarmless at hharm
    rw [not_or] at hharm
    obtain ⟨hnul, hcut⟩ := hharm
    refine hcut fun comp api hr hcall hnames => hnul ?_
    -- the action of the cut names is called, so they are the names
    obtain ⟨fn, hfn⟩ := Option.ne_none_iff_exists'.mp hcall
    have htarget := (hok comp api fn).mpr ⟨hr, hfn, hnames⟩
    obtain ⟨hc, ha⟩ := (hdis.1 comp api fn hr hfn).mp htarget
    rw [← hc, ← ha]
    exact ⟨zero_not_mem_cstring _, zero_not_mem_cstring _⟩
  · intro hharm
    have hcut : ∀ comp api, Registered module comp api → api.call ≠ none →
        (cstring comp.name = cstring compname ∧ cstring api.name = cstring action ↔
          cstring comp.name = compname ∧ cstring api.name = action) := fun comp api hr hcall => by
      rcases hharm with ⟨hc, ha⟩ | hno
      · rw [cstring_of_noNul hc, cstring_of_noNul ha]
      · refine ⟨fun hnames => absurd hnames (hno comp api hr hcall), fun hnames => ?_⟩
        rw [← hnames.1, ← hnames.2, cstring_of_noNul (zero_not_mem_cstring _),
          cstring_of_noNul (zero_not_mem_cstring _)]
        exact ⟨rfl, rfl⟩
    constructor
    · intro comp api fn hr hfn
      rw [hok, ← hcut comp api hr (by rw [hfn]; exact Option.some_ne_none fn)]
      exact ⟨fun h => h.2.2, fun h => ⟨hr, hfn, h⟩⟩
    · intro hno
      rcases target_error module hbody hargs with ⟨⟨comp, api, fn⟩, ht⟩ | herr
      · obtain ⟨hr, hfn, hnames⟩ := (hok comp api fn).mp ht
        have hcall : api.call ≠ none := by
          rw [hfn]
          exact Option.some_ne_none fn
        exact absurd ((hcut comp api hr hcall).mp hnames) (hno comp api hr hcall)
      · exact herr

/-! ## One action -/

def actionB : ZIPCComp Unit := zipcComponentNew 2 (cstr "b") (some ())

/-- A component "a" with the action "b". -/
def componentA : ZIPCComp Unit :=
  { zipcComponentNew 1 (cstr "a") none with
    apilist := (zcrtHashNew sizeofNode 32).map fun ht =>
      zcrtHashAdd zipcComponentHashKey ht actionB }

def moduleA : ZIPCModule Unit Unit :=
  { evtEncode := none
    modlist := (zcrtHashNew sizeofNode 128).map fun ht =>
      zcrtHashAdd zipcComponentHashKey ht componentA }

theorem moduleA_ok : RegistryOk moduleA := by
  have hnew : ∀ size : UInt32, size ≤ 128 → zcrtHashNew sizeofNode size =
      some (⟨size, 0, fun _ => []⟩ : ZHash (ZIPCComp Unit)) := fun size h =>
    zcrtHashNew_of_lt (by
      have h128 : size.toNat ≤ 128 := UInt32.le_iff_toNat_le.mp h
      unfold sizeofNode
      omega)
  obtain ⟨hapi, hnoApi⟩ := HashOk.new (hnew 32 (by decide))
  obtain ⟨hmod, hnoMod⟩ := HashOk.new (hnew 128 (by decide))
  have hapis := hapi.add actionB (setlname_nul _) fun c hc => absurd hc (hnoApi c)
  obtain ⟨hok, hhas⟩ := hmod.add componentA (setlname_nul _) fun c hc => absurd hc (hnoMod c)
  refine ⟨_, rfl, hok, fun comp hcomp => ?_⟩
  rcases (hhas comp).mp hcomp with rfl | hold
  · exact ⟨_, rfl, hapis.1⟩
  · exact absurd hold (hnoMod comp)

theorem moduleA_registered : Registered moduleA componentA actionB := by
  refine ⟨_, _, rfl, ?_, rfl, ?_⟩
  · exact Buckets.mem_add.mpr (Or.inl rfl)
  · exact Buckets.mem_add.mpr (Or.inl rfl)

/-- `{1=name, 2="b", 3={}}`. -/
def requestB (name : List UInt8) : ZBuf :=
  recycled ([3, 4, 2, 0x11, UInt8.ofNat name.length] ++ name ++
    [4, 4, 0x11, 1, 0x62, 4, 6, 0x12, 0]) 0

/-- A request for "a" and "b" calls the handler. -/
theorem dispatchedByName_iff_ab :
    DispatchedByName moduleA (requestB (cstr "a")) (cstr "a") (cstr "b") := by
  have hbody : (zipcParseBodyInfo.run (requestB (cstr "a"))).1 = .ok (cstr "a", cstr "b") ∧
      (zipcParseArgsType.run (zipcParseBodyInfo.run (requestB (cstr "a"))).2).1 = .ok () := by
    decide +kernel
  exact (dispatchedByName_iff moduleA_ok (Prod.ext hbody.1 rfl) (Prod.ext hbody.2 rfl)).2.mpr
    (Or.inl (by decide))

/-- A request for "a\0x" and "b" calls the handler of the component "a". -/
theorem nulName_dispatched : RegistryOk moduleA ∧
    (zipcParseBodyInfo.run (requestB [0x61, 0, 0x78])).1 = .ok ([0x61, 0, 0x78], cstr "b") ∧
    (zipcParseArgsType.run (zipcParseBodyInfo.run (requestB [0x61, 0, 0x78])).2).1 = .ok () ∧
    (zipcRequestTarget moduleA (requestB [0x61, 0, 0x78])).1 = .ok (componentA, actionB, ()) ∧
    ¬DispatchedByName moduleA (requestB [0x61, 0, 0x78]) [0x61, 0, 0x78] (cstr "b") := by
  have hbody : (zipcParseBodyInfo.run (requestB [0x61, 0, 0x78])).1 =
        .ok ([0x61, 0, 0x78], cstr "b") ∧
      (zipcParseArgsType.run (zipcParseBodyInfo.run (requestB [0x61, 0, 0x78])).2).1 = .ok () := by
    decide +kernel
  have htarget := (target_eq_ok moduleA_ok (Prod.ext hbody.1 rfl) (Prod.ext hbody.2 rfl) _ _ _).mpr
    ⟨moduleA_registered, rfl, by decide, by decide⟩
  refine ⟨moduleA_ok, hbody.1, hbody.2, htarget, fun hdis => ?_⟩
  have hnames := (hdis.1 componentA actionB () moduleA_registered rfl).mp htarget
  exact absurd hnames.1 (by decide)

end Zcrt
