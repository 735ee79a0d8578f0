/-
  What a link request does to the event lists: it hooks an event, unhooks one, or leaves them.

  * `linkOp`: which of these a message asks for.
  * `LinkOp.on`: what becomes of the list of an event.
  * `zipcParseAppLink_op`: a request does this, if a node can be had.
  * `appParse_op`: so does a message of either application.
  * `filter_insertCb`, `filter_eraseSub`: the subscriptions of one client, before and after.
-/
import Zcrt.Ipc.Link

namespace Zcrt

open Lib

/-- What is asked for. -/
inductive LinkOp
  | hook (evtid : UInt32)
  | unhook (evtid : UInt32)
  | nothing
deriving DecidableEq

/-- The event id of the arguments, 0 where there is none that is accepted. -/
def linkEvtid (args : ZBuf) : UInt32 :=
  match (zipcLinkParaseEventid.run args).1 with
  | .ok evtid => if evtid ≥ ZCRT_MAX_EVT then 0 else evtid
  | .error _ => 0

section Op

variable {F E : Type} (module : ZIPCModule F E)

/-- The action of a body that was accepted. -/
def linkActionOp (action : List UInt8) (args : ZBuf) : LinkOp :=
  if linkEvtid args = 0 then .nothing
  else if zstrBufCmp action (cstr "_hookevt") = 0 then
    if module.evtEncode.isNone then .nothing else .hook (linkEvtid args)
  else if zstrBufCmp action (cstr "_unhookevt") = 0 then .unhook (linkEvtid args)
  else .nothing

/-- The request in `ibuf`. -/
def linkOp (ibuf : ZBuf) : LinkOp :=
  match zipcParseCommonHdr.run ibuf with
  | (none, _) => .nothing
  | (some _, ibuf) =>
      match zipcParseBodyInfo.run ibuf with
      | (.error _, _) => .nothing
      | (.ok (_, action), args) => linkActionOp module action args

end Op

section Lists

variable {G P : Type} [DecidableEq G] [DecidableEq P]

/-- The subscription made for a client. -/
def linkSub (cb : G) (p1 p2 : P) : ZEventCB G P :=
  { fn := some cb, pri := 10, evtType := .evtLocal, p1 := p1, p2 := p2 }

/-- The list of the event `e` after the request. -/
def LinkOp.on (cb : G) (p1 p2 : P) (e : UInt32) (l : List (ZEventCB G P)) :
    LinkOp → List (ZEventCB G P)
  | .hook evtid => if e = evtid then insertCb 10 (linkSub cb p1 p2) l else l
  | .unhook evtid => if e = evtid then l.eraseP (ZEventCB.isSub (some cb) p1 p2) else l
  | .nothing => l

/-- The call made for the request. -/
def LinkOp.exec (evtMng : Option (ZEvent G P)) (heap : Bool) (cb : G) (p1 p2 : P) :
    LinkOp → Option (Option (ZEvent G P))
  | .hook evtid =>
      (zcrtEventRegisterEx evtMng heap 10 evtid .evtLocal (some cb) p1 p2).map Prod.snd
  | .unhook evtid => zcrtEventUnregister evtMng evtid (some cb) p1 p2
  | .nothing => some evtMng

/-- The lists after the request. -/
def LinkOp.Does (op : LinkOp) (cb : G) (p1 p2 : P) (mng mng' : ZEvent G P) : Prop :=
  mng'.lastEvtid = mng.lastEvtid ∧ ∀ e, mng'.evtlist e = op.on cb p1 p2 e (mng.evtlist e)

/-- The event is one that has a list, and not 0. -/
def LinkOp.Valid : LinkOp → Prop
  | .hook evtid => evtid ≠ 0 ∧ evtid < ZCRT_MAX_EVT
  | .unhook evtid => evtid ≠ 0 ∧ evtid < ZCRT_MAX_EVT
  | .nothing => True

theorem LinkOp.does_nothing (cb : G) (p1 p2 : P) (mng : ZEvent G P) :
    LinkOp.nothing.Does cb p1 p2 mng mng := ⟨rfl, fun _ => rfl⟩

/-! ## The request that is made -/

variable {F E : Type} {module : ZIPCModule F E}

theorem linkEvtid_ok {args ibuf : ZBuf} {evtid : UInt32}
    (h : zipcLinkParaseEventid.run args = (.ok evtid, ibuf)) :
    linkEvtid args = if evtid ≥ ZCRT_MAX_EVT then 0 else evtid := by
  unfold linkEvtid
  rw [h]

theorem linkEvtid_error {args ibuf : ZBuf} {ret : EZCRTErr}
    (h : zipcLinkParaseEventid.run args = (.error ret, ibuf)) : linkEvtid args = 0 := by
  unfold linkEvtid
  rw [h]

theorem linkEvtid_lt (args : ZBuf) : linkEvtid args < ZCRT_MAX_EVT := by
  unfold linkEvtid
  split
  · split
    · decide
    · rename_i hlt
      exact UInt32.not_le.mp hlt
  · decide

theorem linkActionOp_zero {action : List UInt8} {args : ZBuf} (h : linkEvtid args = 0) :
    linkActionOp module action args = .nothing := by
  unfold linkActionOp
  rw [if_pos h]

theorem linkActionOp_valid (action : List UInt8) (args : ZBuf) :
    (linkActionOp module action args).Valid := by
  unfold linkActionOp
  split
  · trivial
  · rename_i hzero
    split
    · split
      · trivial
      · exact ⟨hzero, linkEvtid_lt args⟩
    · split
      · exact ⟨hzero, linkEvtid_lt args⟩
      · trivial

theorem linkOp_valid (ibuf : ZBuf) : (linkOp module ibuf).Valid := by
  unfold linkOp
  split
  · trivial
  · split
    · trivial
    · exact linkActionOp_valid _ _

variable (evtMng : Option (ZEvent G P)) (heap : Bool) (cb : G) (p1 p2 : P)

omit [DecidableEq G] [DecidableEq P] in
/-- An event id without a list: the call changes nothing. -/
theorem register_ge {evtid : UInt32} (h : evtid ≥ ZCRT_MAX_EVT) :
    (zcrtEventRegisterEx evtMng heap 10 evtid .evtLocal (some cb) p1 p2).map Prod.snd =
      some evtMng := by
  unfold zcrtEventRegisterEx
  cases evtMng with
  | none => rfl
  | some mng =>
      dsimp only
      rw [if_pos (Or.inl h)]
      rfl

theorem unregister_ge {evtid : UInt32} (h : evtid ≥ ZCRT_MAX_EVT) :
    zcrtEventUnregister evtMng evtid (some cb) p1 p2 = some evtMng := by
  unfold zcrtEventUnregister
  cases evtMng with
  | none => rfl
  | some mng =>
      dsimp only
      rw [if_pos (Or.inl h)]

variable (module) in
/-- What the action comes to, the code and the cursor aside. -/
theorem zipcLinkAction_op (action : List UInt8) (args : ZBuf) :
    ∃ ret ibuf, zipcLinkAction module evtMng heap action args (some cb) p1 p2 =
      ((linkActionOp module action args).exec evtMng heap cb p1 p2).map fun evtMng =>
        (ret, ibuf, evtMng) := by
  unfold zipcLinkAction
  by_cases hhook : zstrBufCmp action (cstr "_hookevt") = 0
  · rw [if_pos hhook]
    by_cases hnone : module.evtEncode.isNone
    · have hop : linkActionOp module action args = .nothing := by
        unfold linkActionOp
        rw [if_pos hhook, if_pos hnone, ite_self]
      rw [if_pos hnone, hop]
      exact ⟨_, _, rfl⟩
    · rw [if_neg hnone]
      rcases hargs : zipcLinkParaseEventid.run args with ⟨ret | evtid, ibuf⟩
      · rw [linkActionOp_zero (linkEvtid_error hargs)]
        exact ⟨_, _, rfl⟩
      · have hid := linkEvtid_ok hargs
        dsimp only
        by_cases hzero : evtid = 0
        · rw [if_pos hzero, linkActionOp_zero (by rw [hid, hzero]; rfl)]
          exact ⟨_, _, rfl⟩
        rw [if_neg hzero]
        by_cases hge : evtid ≥ ZCRT_MAX_EVT
        · rw [linkActionOp_zero (by rw [hid, if_pos hge])]
          refine ⟨.success, ibuf, ?_⟩
          have hreg := register_ge evtMng heap cb p1 p2 hge
          obtain ⟨r, hr, hr2⟩ := Option.map_eq_some_iff.mp hreg
          rw [hr, Option.map_some, hr2]
          rfl
        · have hop : linkActionOp module action args = .hook evtid := by
            unfold linkActionOp
            rw [hid, if_neg hge, if_neg hzero, if_pos hhook, if_neg hnone]
          rw [hop]
          refine ⟨.success, ibuf, ?_⟩
          unfold LinkOp.exec
          rw [Option.map_map]
          rfl
  · rw [if_neg hhook]
    by_cases hunhook : zstrBufCmp action (cstr "_unhookevt") = 0
    · rw [if_pos hunhook]
      rcases hargs : zipcLinkParaseEventid.run args with ⟨ret | evtid, ibuf⟩
      · rw [linkActionOp_zero (linkEvtid_error hargs)]
        exact ⟨_, _, rfl⟩
      · have hid := linkEvtid_ok hargs
        dsimp only
        by_cases hzero : evtid = 0
        · rw [if_pos hzero, linkActionOp_zero (by rw [hid, hzero]; rfl)]
          exact ⟨_, _, rfl⟩
        rw [if_neg hzero]
        by_cases hge : evtid ≥ ZCRT_MAX_EVT
        · rw [linkActionOp_zero (by rw [hid, if_pos hge]), unregister_ge evtMng cb p1 p2 hge]
          exact ⟨.success, ibuf, rfl⟩
        · have hop : linkActionOp module action args = .unhook evtid := by
            unfold linkActionOp
            rw [hid, if_neg hge, if_neg hzero, if_neg hhook, if_pos hunhook]
          rw [hop]
          exact ⟨.success, ibuf, rfl⟩
    · have hop : linkActionOp module action args = .nothing := by
        unfold linkActionOp
        rw [if_neg hhook, if_neg hunhook, ite_self]
      rw [if_neg hunhook, hop]
      exact ⟨_, _, rfl⟩

variable (module) in
/-- A request comes to its call, the reply aside. -/
theorem zipcParseAppLink_op (ibuf obuf : ZBuf) :
    ∃ ret ibuf' obuf',
      zipcParseAppLink module evtMng heap ibuf (zcrtBufClear obuf) (some cb) p1 p2 =
      ((linkOp module ibuf).exec evtMng heap cb p1 p2).map fun evtMng =>
        (ret, ibuf', obuf', evtMng) := by
  unfold linkOp
  rcases hch : zipcParseCommonHdr.run ibuf with ⟨_ | ch, ibuf1⟩
  · exact ⟨_, _, _, zipcParseAppLink_noHdr module evtMng heap ibuf _ _ p1 p2 hch⟩
  · dsimp only
    rcases hbody : zipcParseBodyInfo.run ibuf1 with ⟨ret | ⟨compname, action⟩, ibuf2⟩
    · obtain ⟨v, hv, -⟩ := zipcParseAppLink_noBody module evtMng heap ibuf obuf (some cb) p1 p2
        hch hbody
      exact ⟨_, _, _, hv⟩
    · obtain ⟨reply, -, hlink⟩ := zipcParseAppLink_action module evtMng heap ibuf obuf (some cb)
        p1 p2 hch hbody
      obtain ⟨ret, ibuf', hact⟩ :=
        zipcLinkAction_op module evtMng heap cb p1 p2 action ibuf2
      refine ⟨ret, ibuf', reply ret, ?_⟩
      rw [hlink, hact, Option.map_map]
      rfl

end Lists

/-! ## What it does to the lists -/

section Exec

variable {G P : Type} [DecidableEq G] [DecidableEq P] {mng : ZEvent G P} {heap : Bool} {cb : G}
  {p1 p2 : P} {op : LinkOp}

variable (cb p1 p2) in
theorem hook_does {evtid : UInt32} (hlt : evtid < ZCRT_MAX_EVT) (hheap : mng.hasNode heap) :
    ∃ mng', zcrtEventRegisterEx (some mng) heap 10 evtid .evtLocal (some cb) p1 p2 =
        some (.success, some mng') ∧ (LinkOp.hook evtid).Does cb p1 p2 mng mng' := by
  obtain ⟨mng', hreg, hl, hother, hlast'⟩ :=
    zcrtEventRegisterEx_some hheap hlt (Option.some_ne_none cb) 10 .evtLocal p1 p2
  refine ⟨mng', hreg, hlast', fun e => ?_⟩
  unfold LinkOp.on
  dsimp only
  by_cases he : e = evtid
  · rw [if_pos he, he]
    exact hl
  · rw [if_neg he]
    exact hother e he

variable (cb p1 p2) in
theorem unhook_does {evtid : UInt32} (hlt : evtid < ZCRT_MAX_EVT) (hlast : mng.lastEvtid ≠ evtid) :
    ∃ mng', zcrtEventUnregister (some mng) evtid (some cb) p1 p2 = some (some mng') ∧
      (LinkOp.unhook evtid).Does cb p1 p2 mng mng' := by
  obtain ⟨mng', hun, hl, hother, hlast'⟩ :=
    zcrtEventUnregister_some hlt (Option.some_ne_none cb) hlast p1 p2
  refine ⟨mng', hun, hlast', fun e => ?_⟩
  unfold LinkOp.on
  dsimp only
  by_cases he : e = evtid
  · rw [if_pos he, he]
    exact hl
  · rw [if_neg he]
    exact hother e he

/-- With a node to be had, and outside of any dispatch. -/
theorem LinkOp.exec_does (hop : op.Valid) (hlast : mng.lastEvtid = 0) (hheap : mng.hasNode heap) :
    ∃ mng', op.exec (some mng) heap cb p1 p2 = some (some mng') ∧ op.Does cb p1 p2 mng mng' := by
  cases op with
  | hook evtid =>
      obtain ⟨mng', hreg, hdoes⟩ := hook_does cb p1 p2 hop.2 hheap
      exact ⟨mng', congrArg (Option.map Prod.snd) hreg, hdoes⟩
  | unhook evtid => exact unhook_does cb p1 p2 hop.2 fun he => hop.1 (he.symm.trans hlast)
  | nothing => exact ⟨mng, rfl, LinkOp.does_nothing ..⟩

omit [DecidableEq G] [DecidableEq P] in
/-- A registration without a node that comes back has changed no list. -/
theorem register_noNode (hheap : ¬mng.hasNode heap) {priority : UInt8} {evtid : UInt32}
    {evtType : EZCRTEvtType} {fn : Option G} {ret : EZCRTErr} {evtMng' : Option (ZEvent G P)}
    (h : zcrtEventRegisterEx (some mng) heap priority evtid evtType fn p1 p2 =
      some (ret, evtMng')) :
    ∃ mng', evtMng' = some mng' ∧ mng'.lastEvtid = mng.lastEvtid ∧
      ∀ e, mng'.evtlist e = mng.evtlist e := by
  unfold zcrtEventRegisterEx at h
  dsimp only at h
  split at h
  · obtain ⟨-, rfl⟩ := Prod.mk.inj (Option.some.inj h)
    exact ⟨mng, rfl, rfl, fun _ => rfl⟩
  · rw [zcrtEventMallocCb_of_not_hasNode hheap] at h
    dsimp only at h
    split at h
    · rename_i hlist
      obtain ⟨-, rfl⟩ := Prod.mk.inj (Option.some.inj h)
      refine ⟨_, rfl, rfl, fun e => ?_⟩
      by_cases he : e = evtid
      · rw [he, ZEvent.setList_self]
        exact hlist.symm
      · exact ZEvent.setList_of_ne _ _ he
    · exact nomatch h

omit [DecidableEq G] [DecidableEq P] in
/-- A registration that comes back has put its subscription into the list of the event, or changed
    no list. -/
theorem register_cases {priority : UInt8} {evtid : UInt32} {evtType : EZCRTEvtType} {fn : Option G}
    {ret : EZCRTErr} {evtMng' : Option (ZEvent G P)}
    (h : zcrtEventRegisterEx (some mng) heap priority evtid evtType fn p1 p2 =
      some (ret, evtMng')) :
    ∃ mng', evtMng' = some mng' ∧ mng'.lastEvtid = mng.lastEvtid ∧
      ((∀ e, mng'.evtlist e = mng.evtlist e) ∨
        mng'.evtlist evtid = insertCb priority
          { fn := fn, pri := priority, evtType := evtType, p1 := p1, p2 := p2 }
          (mng.evtlist evtid) ∧
        ∀ e, e ≠ evtid → mng'.evtlist e = mng.evtlist e) := by
  by_cases hguard : evtid ≥ ZCRT_MAX_EVT ∨ fn.isNone
  · unfold zcrtEventRegisterEx at h
    dsimp only at h
    rw [if_pos hguard] at h
    obtain ⟨-, rfl⟩ := Prod.mk.inj (Option.some.inj h)
    exact ⟨mng, rfl, rfl, Or.inl fun _ => rfl⟩
  by_cases hheap : mng.hasNode heap
  · obtain ⟨hlt, hfn⟩ := not_or.mp hguard
    rw [Option.isNone_iff_eq_none] at hfn
    obtain ⟨mng1, hreg, hl, hother, hlast⟩ :=
      zcrtEventRegisterEx_some hheap (UInt32.not_le.mp hlt) hfn priority evtType p1 p2
    obtain ⟨-, rfl⟩ := Prod.mk.inj (Option.some.inj (hreg.symm.trans h))
    exact ⟨mng1, rfl, hlast, Or.inr ⟨hl, hother⟩⟩
  · obtain ⟨mng1, rfl, hlast, hlists⟩ := register_noNode hheap h
    exact ⟨mng1, rfl, hlast, Or.inl hlists⟩

/-- A removal that comes back has taken the first such subscription out of the list of the event, or
    changed no list. -/
theorem unregister_cases {evtid : UInt32} {fn : Option G} {evtMng' : Option (ZEvent G P)}
    (h : zcrtEventUnregister (some mng) evtid fn p1 p2 = some evtMng') :
    ∃ mng', evtMng' = some mng' ∧ mng'.lastEvtid = mng.lastEvtid ∧
      ((∀ e, mng'.evtlist e = mng.evtlist e) ∨
        mng'.evtlist evtid = (mng.evtlist evtid).eraseP (ZEventCB.isSub fn p1 p2) ∧
        ∀ e, e ≠ evtid → mng'.evtlist e = mng.evtlist e) := by
  by_cases hguard : evtid ≥ ZCRT_MAX_EVT ∨ fn.isNone
  · unfold zcrtEventUnregister at h
    dsimp only at h
    rw [if_pos hguard] at h
    exact ⟨mng, (Option.some.inj h).symm, rfl, Or.inl fun _ => rfl⟩
  by_cases hlast : mng.lastEvtid = evtid
  · unfold zcrtEventUnregister at h
    dsimp only at h
    rw [if_neg hguard, if_pos hlast] at h
    exact nomatch h
  obtain ⟨hlt, hfn⟩ := not_or.mp hguard
  rw [Option.isNone_iff_eq_none] at hfn
  obtain ⟨mng1, hun, hl, hother, hlast'⟩ :=
    zcrtEventUnregister_some (UInt32.not_le.mp hlt) hfn hlast p1 p2
  exact ⟨mng1, Option.some.inj (h.symm.trans hun), hlast', Or.inr ⟨hl, hother⟩⟩

/-- A call that comes back did what was asked for, or nothing for lack of a node. -/
theorem LinkOp.exec_cases (hop : op.Valid) {evtMng' : Option (ZEvent G P)}
    (h : op.exec (some mng) heap cb p1 p2 = some evtMng') :
    ∃ mng', evtMng' = some mng' ∧
      (op.Does cb p1 p2 mng mng' ∨ LinkOp.nothing.Does cb p1 p2 mng mng') := by
  cases op with
  | hook evtid =>
      obtain ⟨⟨ret, evtMng1⟩, hreg, rfl⟩ := Option.map_eq_some_iff.mp h
      by_cases hheap : mng.hasNode heap
      · obtain ⟨mng', hreg', hdoes⟩ := hook_does cb p1 p2 hop.2 hheap
        obtain ⟨-, rfl⟩ := Prod.mk.inj (Option.some.inj (hreg.symm.trans hreg'))
        exact ⟨mng', rfl, Or.inl hdoes⟩
      · obtain ⟨mng', rfl, hlast', hlists⟩ := register_noNode hheap hreg
        exact ⟨mng', rfl, Or.inr ⟨hlast', hlists⟩⟩
  | unhook evtid =>
      by_cases hlast : mng.lastEvtid = evtid
      · unfold LinkOp.exec zcrtEventUnregister at h
        dsimp only at h
        rw [if_neg (not_or.mpr ⟨UInt32.not_le.mpr hop.2, by simp⟩), if_pos hlast] at h
        exact nomatch h
      · obtain ⟨mng', hun, hdoes⟩ := unhook_does cb p1 p2 hop.2 hlast
        exact ⟨mng', Option.some.inj (h.symm.trans hun), Or.inl hdoes⟩
  | nothing => exact ⟨mng, (Option.some.inj h).symm, Or.inl (LinkOp.does_nothing ..)⟩

end Exec

/-! ## Either application -/

section App

variable {F E G P : Type} [DecidableEq G] [DecidableEq P]
  (call : F → ZIPCComp F → ZBuf → ZBuf → Option (EZCRTErr × ZBuf × ZBuf)) (module : ZIPCModule F E)

/-- The call made in `_zipc_msg_proc_job`, by the type of the application: both buffers and the
    event manager after it. -/
def appParse (evtMng : Option (ZEvent G P)) (heap : Bool) (appType : UInt16) (ibuf obuf : ZBuf)
    (cb : G) (p1 p2 : P) : Option (ZBuf × ZBuf × Option (ZEvent G P)) :=
  if appType = ZEIPC_TYPE_LINK then do
    let (_, ibuf, obuf, evtMng) ← zipcParseAppLink module evtMng heap ibuf obuf (some cb) p1 p2
    pure (ibuf, obuf, evtMng)
  else do
    let (_, ibuf, obuf) ← zipcParsePayload call module appType ibuf obuf
    pure (ibuf, obuf, evtMng)

variable {call module}

/-- What it does to the lists. -/
theorem appParse_op {mng : ZEvent G P} {heap : Bool} {appType : UInt16} {ibuf obuf iv ov : ZBuf}
    {cb : G} {p1 p2 : P} {evtMng' : Option (ZEvent G P)}
    (h : appParse call module (some mng) heap appType ibuf (zcrtBufClear obuf) cb p1 p2 =
      some (iv, ov, evtMng')) :
    ∃ (mng' : ZEvent G P) (op : LinkOp), evtMng' = some mng' ∧ op.Valid ∧
      op.Does cb p1 p2 mng mng' ∧ (appType ≠ ZEIPC_TYPE_LINK → op = .nothing) := by
  unfold appParse at h
  split at h
  · rename_i hlink
    obtain ⟨⟨ret, iv', ov', evtMng1⟩, happ, h⟩ := Option.bind_eq_some_iff.mp h
    obtain ⟨-, h⟩ := Prod.mk.inj (Option.some.inj h)
    obtain ⟨-, rfl⟩ := Prod.mk.inj h
    obtain ⟨ret1, iv1, ov1, hop⟩ :=
      zipcParseAppLink_op module (some mng) heap cb p1 p2 ibuf obuf
    rw [hop] at happ
    obtain ⟨evtMng2, hexec, happ⟩ := Option.map_eq_some_iff.mp happ
    obtain ⟨-, happ⟩ := Prod.mk.inj happ
    obtain ⟨-, happ⟩ := Prod.mk.inj happ
    obtain ⟨-, rfl⟩ := Prod.mk.inj happ
    obtain ⟨mng', he, hdoes⟩ := LinkOp.exec_cases (linkOp_valid _) hexec
    rcases hdoes with hdoes | hdoes
    · exact ⟨mng', _, he, linkOp_valid _, hdoes, fun hne => absurd hlink hne⟩
    · exact ⟨mng', .nothing, he, trivial, hdoes, fun _ => rfl⟩
  · obtain ⟨⟨ret, iv', ov'⟩, -, h⟩ := Option.bind_eq_some_iff.mp h
    obtain ⟨-, h⟩ := Prod.mk.inj (Option.some.inj h)
    obtain ⟨-, rfl⟩ := Prod.mk.inj h
    exact ⟨mng, .nothing, rfl, trivial, LinkOp.does_nothing .., fun _ => rfl⟩

end App

end Zcrt
