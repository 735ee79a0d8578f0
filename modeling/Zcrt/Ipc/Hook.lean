/-
  Does the reply to `_hookevt` say what happened? The registration's own code is dropped, and an
  event id of 0 leaves the loop with the code still 0.

  * `hookReported_iff`: exactly when success is answered for a subscription added and an error for
    none.
-/
import Zcrt.Ipc.Link

namespace Zcrt

open Lib

section Hook

variable {F E G P : Type} [DecidableEq G] [DecidableEq P]

/-- One subscription of `cb` with `p1` and `p2` more in the list of `evtid`, and no other change. -/
def SubAdded (evtMng evtMng' : Option (ZEvent G P)) (evtid : UInt32) (cb : Option G) (p1 p2 : P) :
    Prop :=
  ∃ mng mng' node, evtMng = some mng ∧ evtMng' = some mng' ∧ evtid < ZCRT_MAX_EVT ∧
    node.fn = cb ∧ node.p1 = p1 ∧ node.p2 = p2 ∧
    InsertedOne node (mng.evtlist evtid) (mng'.evtlist evtid) ∧
    ∀ e, e ≠ evtid → mng'.evtlist e = mng.evtlist e

/-- The request in `ibuf`, with serial number `sn` and its arguments at the cursor of `args`, is
    answered by success exactly when the subscription it asked for was added, and else by an error
    with all event lists as before. -/
def HookReported (module : ZIPCModule F E) (evtMng : Option (ZEvent G P)) (heap : Bool)
    (ibuf obuf : ZBuf) (cb : Option G) (p1 p2 : P) (sn : UInt32) (args : ZBuf) : Prop :=
  ∃ ret ibuf' obuf' evtMng',
    zipcParseAppLink module evtMng heap ibuf (zcrtBufClear obuf) cb p1 p2 =
        some (ret, ibuf', obuf', evtMng') ∧
      obuf'.bytes = linkReply sn ret ∧
      (ret = .success ↔ ∃ evtid, (zipcLinkParaseEventid.run args).1 = .ok evtid ∧
        SubAdded evtMng evtMng' evtid cb p1 p2) ∧
      (ret ≠ .success → evtMng'.map ZEvent.evtlist = evtMng.map ZEvent.evtlist)

/-- Nothing stands in the way of the registration that a well-formed request asks for. -/
def CanHook (module : ZIPCModule F E) (evtMng : Option (ZEvent G P)) (heap : Bool) (cb : Option G)
    (args : ZBuf) : Prop :=
  ∀ evtid, module.evtEncode ≠ none → (zipcLinkParaseEventid.run args).1 = .ok evtid →
    evtid ≠ 0 ∧ evtid < ZCRT_MAX_EVT ∧ cb ≠ none ∧ ∃ mng, evtMng = some mng ∧ mng.hasNode heap

omit [DecidableEq G] [DecidableEq P] in
theorem not_subAdded {evtMng evtMng' : Option (ZEvent G P)} {evtid : UInt32} {cb : Option G}
    {p1 p2 : P} (h : evtMng'.map ZEvent.evtlist = evtMng.map ZEvent.evtlist) :
    ¬SubAdded evtMng evtMng' evtid cb p1 p2 := by
  rintro ⟨mng, mng', node, rfl, rfl, -, -, -, -, ⟨a, b, ha, hb⟩, -⟩
  have hl := congrFun (Option.some.inj h) evtid
  rw [ha, hb] at hl
  have := congrArg List.length hl
  simp at this

/-- The reply follows the action, so it is the action's result that has to tell what happened. -/
theorem hookReported_action {module : ZIPCModule F E} {evtMng : Option (ZEvent G P)} {heap : Bool}
    {ibuf obuf ibuf1 args : ZBuf} {cb : Option G} {p1 p2 : P} {ch : ZIPCMsgCH}
    {compname : List UInt8} (h : zipcParseCommonHdr.run ibuf = (some ch, ibuf1))
    (hb : zipcParseBodyInfo.run ibuf1 = (.ok (compname, cstr "_hookevt"), args)) :
    HookReported module evtMng heap ibuf obuf cb p1 p2 ch.sn args ↔
      ∃ ret ibuf' evtMng',
        zipcLinkAction module evtMng heap (cstr "_hookevt") args cb p1 p2 =
            some (ret, ibuf', evtMng') ∧
          (ret = .success ↔ ∃ evtid, (zipcLinkParaseEventid.run args).1 = .ok evtid ∧
            SubAdded evtMng evtMng' evtid cb p1 p2) ∧
          (ret ≠ .success → evtMng'.map ZEvent.evtlist = evtMng.map ZEvent.evtlist) := by
  obtain ⟨reply, hreply, hlink⟩ :=
    zipcParseAppLink_action module evtMng heap ibuf obuf cb p1 p2 h hb
  have hbytes : ∀ ret, (reply ret).bytes = linkReply ch.sn ret := fun ret => by
    rw [(hreply ret).bytes]
    exact List.nil_append _
  unfold HookReported
  rw [hlink]
  constructor
  · rintro ⟨ret, ibuf', obuf', evtMng', he, -, hiff, hkeep⟩
    obtain ⟨⟨ret1, ibuf1', evtMng1⟩, ha, hr⟩ := Option.map_eq_some_iff.mp he
    obtain ⟨rfl, rfl, -, rfl⟩ := by simpa using hr
    exact ⟨ret1, ibuf1', evtMng1, ha, hiff, hkeep⟩
  · rintro ⟨ret, ibuf', evtMng', ha, hiff, hkeep⟩
    exact ⟨ret, ibuf', reply ret, evtMng', by rw [ha]; rfl, hbytes ret, hiff, hkeep⟩

/-- A hook request, whatever its arguments and the module's state, is answered by what happened
    exactly when `CanHook`. -/
theorem hookReported_iff (module : ZIPCModule F E) (evtMng : Option (ZEvent G P)) (heap : Bool)
    (ibuf obuf ibuf1 args : ZBuf) (cb : Option G) (p1 p2 : P) (ch : ZIPCMsgCH)
    (compname : List UInt8) (h : zipcParseCommonHdr.run ibuf = (some ch, ibuf1))
    (hb : zipcParseBodyInfo.run ibuf1 = (.ok (compname, cstr "_hookevt"), args)) :
    HookReported module evtMng heap ibuf obuf cb p1 p2 ch.sn args ↔
      CanHook module evtMng heap cb args := by
  rw [hookReported_action h hb]
  unfold zipcLinkAction
  rw [if_pos (by decide)]
  by_cases henc : module.evtEncode.isNone
  · -- no encoder: an error, and nothing to be added
    rw [if_pos henc]
    have hno : module.evtEncode = none := Option.isNone_iff_eq_none.mp henc
    refine iff_of_true ⟨_, _, _, rfl, ?_, fun _ => rfl⟩ fun _ hne => absurd hno hne
    exact iff_of_false (by decide) fun ⟨_, _, hadd⟩ => not_subAdded rfl hadd
  rw [if_neg henc]
  have henc' : module.evtEncode ≠ none := fun hno => henc (by rw [hno]; rfl)
  rcases hargs : zipcLinkParaseEventid.run args with ⟨ret | evtid, args1⟩
  · -- malformed arguments: an error, and nothing to be added
    have hret := zipcLinkParaseEventid_error hargs
    refine iff_of_true ⟨_, _, _, rfl, ?_, fun _ => rfl⟩ fun _ _ he => ?_
    · exact iff_of_false hret fun ⟨_, _, hadd⟩ => not_subAdded rfl hadd
    · rw [hargs] at he
      exact nomatch he
  dsimp only
  have hcan : CanHook module evtMng heap cb args ↔ evtid ≠ 0 ∧ evtid < ZCRT_MAX_EVT ∧ cb ≠ none ∧
      ∃ mng, evtMng = some mng ∧ mng.hasNode heap := by
    unfold CanHook
    rw [hargs]
    constructor
    · exact fun hc => hc evtid henc' rfl
    · intro hc e _ he
      rw [← Except.ok.inj he]
      exact hc
  rw [hcan]
  by_cases hzero : evtid = 0
  · rw [if_pos hzero]
    refine iff_of_false ?_ fun hc => hc.1 hzero
    rintro ⟨ret, ibuf', evtMng', hr, hiff, -⟩
    obtain ⟨rfl, rfl, rfl⟩ := by simpa using hr
    obtain ⟨_, _, hadd⟩ := hiff.mp rfl
    exact not_subAdded rfl hadd
  rw [if_neg hzero]
  by_cases hreg : evtid < ZCRT_MAX_EVT ∧ cb ≠ none ∧ ∃ mng, evtMng = some mng ∧ mng.hasNode heap
  · obtain ⟨hlt, hcb, mng, rfl, hnode⟩ := hreg
    obtain ⟨mng', hr, hl, hother, -⟩ := zcrtEventRegisterEx_some hnode hlt hcb 10 .evtLocal p1 p2
    refine iff_of_true ⟨.success, args1, some mng', by rw [hr]; rfl, ?_, ?_⟩
      ⟨hzero, hlt, hcb, mng, rfl, hnode⟩
    · refine iff_of_true rfl ⟨evtid, rfl, mng, mng',
        { fn := cb, pri := 10, evtType := .evtLocal, p1 := p1, p2 := p2 }, rfl, rfl, hlt, rfl, rfl,
        rfl, ?_, hother⟩
      rw [hl]
      exact insertedOne_insertCb _ _ _
    · exact fun hne => absurd rfl hne
  · refine iff_of_false ?_ fun hc => hreg hc.2
    rintro ⟨ret, ibuf', evtMng', hr, hiff, -⟩
    obtain ⟨⟨r, evtMng1⟩, hreg1, he⟩ := Option.map_eq_some_iff.mp hr
    obtain ⟨rfl, rfl, rfl⟩ := by simpa using he
    have hsame := zcrtEventRegisterEx_refused 10 .evtLocal p1 p2
      (fun mng hm hlt hcb hnode => hreg ⟨hlt, hcb, mng, hm, hnode⟩) hreg1
    obtain ⟨_, _, hadd⟩ := hiff.mp rfl
    exact not_subAdded hsame hadd

end Hook

/-- `{sn=5, req=true}{1="z", 2="_hookevt", 3={1=evtid}}`; `evtid` is given as its code. -/
def hookRequest (evtid : List UInt8) : ZBuf :=
  recycled ([2, 0x11, 2, 0x73, 0x6E, 4, 10, 0x11, 3, 0x72, 0x65, 0x71, 3,
    3, 4, 2, 0x11, 1, 0x7A, 4, 4, 0x11, 8, 0x5F, 0x68, 0x6F, 0x6F, 0x6B, 0x65, 0x76, 0x74,
    4, 6, 0x12, 1, 4, 2, 4] ++ evtid) 0

/-- The cursor of a hook request after its common header, and after its body. -/
def hookBody (evtid : List UInt8) : ZBuf := (zipcParseCommonHdr.run (hookRequest evtid)).2

def hookArgs (evtid : List UInt8) : ZBuf := (zipcParseBodyInfo.run (hookBody evtid)).2

/-- Event 7 in a module that has everything. -/
theorem hookReported_iff_seven :
    HookReported (⟨some (), none⟩ : ZIPCModule Unit Unit)
        (some (zcrtEventManageInit : ZEvent Unit Unit)) true (hookRequest [14])
        (recycled [] 0) (some ()) () () 5 (hookArgs [14]) ↔
      CanHook (⟨some (), none⟩ : ZIPCModule Unit Unit)
        (some (zcrtEventManageInit : ZEvent Unit Unit)) true (some ()) (hookArgs [14]) :=
  hookReported_iff ⟨some (), none⟩ (some zcrtEventManageInit) true (hookRequest [14])
    (recycled [] 0) (hookBody [14]) (hookArgs [14]) (some ()) () ()
    { sn := 5, req := true, noti := false } (cstr "z")
    (Prod.ext (by decide +kernel) rfl) (Prod.ext (by decide +kernel) rfl)

/-- Event 300 is beyond the event lists, and the request for it is answered by success. -/
theorem hookEvent300_acknowledged :
    ¬∀ (F E G P : Type) [DecidableEq G] [DecidableEq P] (module : ZIPCModule F E)
      (evtMng : Option (ZEvent G P)) (heap : Bool) (ibuf obuf ibuf1 args : ZBuf) (cb : Option G)
      (p1 p2 : P) (ch : ZIPCMsgCH) (compname : List UInt8),
      zipcParseCommonHdr.run ibuf = (some ch, ibuf1) →
      zipcParseBodyInfo.run ibuf1 = (.ok (compname, cstr "_hookevt"), args) →
      HookReported module evtMng heap ibuf obuf cb p1 p2 ch.sn args := by
  intro hall
  obtain ⟨ret, ibuf', obuf', evtMng', hout, -, hiff, -⟩ :=
    hall Unit Unit Unit Unit ⟨some (), none⟩ (some zcrtEventManageInit) true
      (hookRequest [0xD8, 4]) (recycled [] 0) (hookBody [0xD8, 4]) (hookArgs [0xD8, 4]) (some ()) ()
      () { sn := 5, req := true, noti := false } (cstr "z")
      (Prod.ext (by decide +kernel) rfl) (Prod.ext (by decide +kernel) rfl)
  have hret : (zipcParseAppLink (⟨some (), none⟩ : ZIPCModule Unit Unit)
      (some (zcrtEventManageInit : ZEvent Unit Unit)) true (hookRequest [0xD8, 4])
      (zcrtBufClear (recycled [] 0)) (some ()) () ()).map Prod.fst = some .success := by
    decide +kernel
  rw [hout] at hret
  obtain ⟨evtid, hargs, -, -, -, -, -, hlt, -⟩ := hiff.mp (Option.some.inj hret)
  have h300 : (zipcLinkParaseEventid.run (hookArgs [0xD8, 4])).1 = .ok 300 := by decide +kernel
  rw [Except.ok.inj (hargs.symm.trans h300)] at hlt
  exact absurd hlt (by decide)

end Zcrt
