/-
  What `_zipc_client_thread` does before it frees its client: it takes out the client's
  subscriptions, one for each event id.

  * `CleanState`, `cleanSys`: the requests of all clients, calls of the module's own code,
    dispatches, and the steps of the clean-up.
  * `OnceHooked`: the clean-up starts with at most one subscription of the client for each event,
    and none of its requests comes later.
  * `subsGone_of_onceHooked`: then none is left when the client is freed.
  * `hookedTwice_left`: one that was hooked twice is.
-/
import Zcrt.Ipc.CbSubs

namespace Zcrt

open Lib

/-- Where the thread of a client is: in its loop, in the clean-up before the removal for event `i`,
    or past `zcrt_free`. -/
inductive ClientPos
  | serving
  | cleaning (i : UInt32)
  | freed
deriving DecidableEq

/-- The event manager, `isEventHooked` of each client, and where its thread is. -/
structure CleanState (G P : Type) where
  mng : ZEvent G P
  isEventHooked : P → Bool
  pos : P → ClientPos

inductive CleanAct (G P : Type)
  | request (r : LinkReq P)
  | call (op : EvtOp G P)
  | dispatch (evtid : UInt32)
  | startClean (client : P)
  | unregister (client : P)
  | free (client : P)

section Steps

variable {F E G P : Type} [DecidableEq G] [DecidableEq P] (module : ZIPCModule F E) (cb : G)
  (null : P)

namespace CleanState

variable (st : CleanState G P)

/-- A link request in `_zipc_msg_proc_job`. -/
def requestStep (r : LinkReq P) : Option (CleanState G P) := do
  let some mng ← linkStep module cb null (some st.mng) r | none
  pure { st with mng := mng, isEventHooked := Function.update st.isEventHooked r.client true }

/-- A call of the module's own code, which does not have the callback. -/
def callStep (op : EvtOp G P) : Option (CleanState G P) :=
  if op.registers cb then none
  else do
    let some mng ← op.execList (some st.mng) | none
    pure { st with mng := mng }

/-- After the wait for `jobcnt`. -/
def startClean (client : P) : Option (CleanState G P) :=
  if st.pos client = .serving then
    let i := if st.isEventHooked client then 1 else ZCRT_MAX_EVT
    some { st with pos := Function.update st.pos client (.cleaning i) }
  else none

/-- The body of the loop. -/
def unregisterStep (client : P) : Option (CleanState G P) :=
  match st.pos client with
  | .cleaning i =>
      if i < ZCRT_MAX_EVT then do
        let some mng ← zcrtEventUnregister (some st.mng) i (some cb) client null | none
        pure { st with mng := mng, pos := Function.update st.pos client (.cleaning (i + 1)) }
      else none
  | _ => none

/-- `zcrt_free(client)` -/
def freeStep (client : P) : Option (CleanState G P) :=
  match st.pos client with
  | .cleaning i =>
      if i < ZCRT_MAX_EVT then none
      else some { st with pos := Function.update st.pos client .freed }
  | _ => none

/-- `dispatch` is what a dispatch writes to `lastEvtid`, as it begins and as it ends. -/
def step : CleanAct G P → Option (CleanState G P)
  | .request r => requestStep module cb null st r
  | .call op => callStep cb st op
  | .dispatch evtid => some { st with mng := { st.mng with lastEvtid := evtid } }
  | .startClean client => startClean st client
  | .unregister client => unregisterStep cb null st client
  | .free client => freeStep st client

end CleanState

/-- No client has sent anything yet. -/
def cleanSys : Sys (CleanState G P) (CleanAct G P) where
  init st := (∀ e, ∀ x ∈ st.mng.evtlist e, x.fn ≠ some cb) ∧ (∀ c, st.isEventHooked c = false) ∧
    ∀ c, st.pos c = .serving
  next st act := st.step module cb null act

/-- The clean-up of `c` starts with at most one subscription of `c` for each event; a request of `c`
    comes before that. -/
def OnceHooked (c : P) (st : CleanState G P) : CleanAct G P → Prop
  | .startClean client => client = c → ∀ e, (cbSubs cb c (st.mng.evtlist e)).length ≤ 1
  | .request r => r.client = c → st.pos c = .serving
  | _ => True

/-! ## One step -/

variable {module cb null} {st st' : CleanState G P}

theorem CleanState.request_cases {r : LinkReq P} (h : st.requestStep module cb null r = some st') :
    ∃ (mng' : ZEvent G P) (op : LinkOp), op.Valid ∧ op.Does cb r.client null st.mng mng' ∧
      st' = { st with
        mng := mng', isEventHooked := Function.update st.isEventHooked r.client true } := by
  obtain ⟨evtMng', hstep, h⟩ := Option.bind_eq_some_iff.mp h
  rw [linkStep_op] at hstep
  obtain ⟨mng', rfl, hdoes⟩ := LinkOp.exec_cases (linkOp_valid _) hstep
  obtain rfl := Option.some.inj h
  rcases hdoes with hdoes | hdoes
  · exact ⟨mng', _, linkOp_valid _, hdoes, rfl⟩
  · exact ⟨mng', .nothing, trivial, hdoes, rfl⟩

theorem CleanState.call_cases {op : EvtOp G P} (h : st.callStep cb op = some st') (c : P) :
    ∃ mng', NoNew cb c st.mng mng' ∧ st' = { st with mng := mng' } := by
  unfold callStep at h
  split at h
  · exact nomatch h
  · rename_i hop
    obtain ⟨evtMng', hexec, h⟩ := Option.bind_eq_some_iff.mp h
    obtain ⟨mng', rfl, -, hno⟩ := execList_noNew (c := c) (Bool.eq_false_iff.mpr hop) hexec
    exact ⟨mng', hno, (Option.some.inj h).symm⟩

omit [DecidableEq G] in
theorem CleanState.start_cases {client : P} (h : st.startClean client = some st') :
    st.pos client = .serving ∧ st' = { st with
      pos := Function.update st.pos client
        (.cleaning (if st.isEventHooked client then 1 else ZCRT_MAX_EVT)) } := by
  unfold startClean at h
  split at h
  · rename_i hpos
    exact ⟨hpos, (Option.some.inj h).symm⟩
  · exact nomatch h

theorem CleanState.loop_cases {client : P}
    (h : st.unregisterStep cb null client = some st') :
    ∃ i evtMng' mng', st.pos client = .cleaning i ∧ i < ZCRT_MAX_EVT ∧
      zcrtEventUnregister (some st.mng) i (some cb) client null = some evtMng' ∧
      evtMng' = some mng' ∧
      st' = { st with mng := mng', pos := Function.update st.pos client (.cleaning (i + 1)) } := by
  unfold unregisterStep at h
  split at h
  · rename_i i hpos
    split at h
    · rename_i hi
      obtain ⟨evtMng', hun, h⟩ := Option.bind_eq_some_iff.mp h
      obtain ⟨mng', rfl, -, -⟩ := unregister_cases hun
      exact ⟨i, _, mng', hpos, hi, hun, rfl, (Option.some.inj h).symm⟩
    · exact nomatch h
  · exact nomatch h

omit [DecidableEq G] in
theorem CleanState.free_cases {client : P} (h : st.freeStep client = some st') :
    ∃ i, st.pos client = .cleaning i ∧ ¬i < ZCRT_MAX_EVT ∧
      st' = { st with pos := Function.update st.pos client .freed } := by
  unfold freeStep at h
  split at h
  · rename_i i hpos
    split at h
    · exact nomatch h
    · rename_i hi
      exact ⟨i, hpos, hi, (Option.some.inj h).symm⟩
  · exact nomatch h

end Steps

/-! ## The clean-up of one client -/

section Run

variable {F E G P : Type} [DecidableEq G] [DecidableEq P] {module : ZIPCModule F E} {cb : G}
  {null c : P} {st st' : CleanState G P} {act : CleanAct G P}

/-- The subscriptions of `c` while its thread is at `pos`. -/
def CleanAt (cb : G) (null c : P) (hooked : Bool) (mng : ZEvent G P) : ClientPos → Prop
  | .serving => ∀ e, ∀ x ∈ cbSubs cb c (mng.evtlist e),
      x.p2 = null ∧ e ≠ 0 ∧ e < ZCRT_MAX_EVT ∧ hooked = true
  | .cleaning i => Clearing cb c null i mng
  | .freed => ∀ e, cbSubs cb c (mng.evtlist e) = []

theorem CleanAt.noNew {hooked : Bool} {mng mng' : ZEvent G P} {pos : ClientPos}
    (h : CleanAt cb null c hooked mng pos) (hn : NoNew cb c mng mng') :
    CleanAt cb null c hooked mng' pos := by
  cases pos with
  | serving => exact fun e x hx => h e x ((hn e).subset hx)
  | cleaning i => exact Clearing.noNew h hn
  | freed => exact fun e => List.sublist_nil.mp (h e ▸ hn e)

/-- As the clean-up starts. -/
theorem clearing_start {hooked : Bool} {mng : ZEvent G P}
    (h : CleanAt cb null c hooked mng .serving)
    (hone : ∀ e, (cbSubs cb c (mng.evtlist e)).length ≤ 1) :
    Clearing cb c null (if hooked then 1 else ZCRT_MAX_EVT) mng := by
  intro e
  refine ⟨⟨hone e, fun x hx => (h e x hx).1⟩, fun hout => ?_⟩
  refine List.eq_nil_iff_forall_not_mem.mpr fun x hx => hout ?_
  obtain ⟨-, hzero, hlt, hhooked⟩ := h e x hx
  rw [if_pos hhooked]
  exact ⟨one_le_of_ne_zero hzero, hlt⟩

theorem cleanAt_step (h : CleanAt cb null c (st.isEventHooked c) st.mng (st.pos c))
    (hc : OnceHooked cb c st act) (hn : st.step module cb null act = some st') :
    CleanAt cb null c (st'.isEventHooked c) st'.mng (st'.pos c) := by
  cases act with
  | request r =>
      obtain ⟨mng', op, hop, hdoes, rfl⟩ := CleanState.request_cases hn
      dsimp only
      by_cases hr : r.client = c
      · -- the client's own request: it is not cleaning yet
        rw [hc hr] at h ⊢
        rw [hr, Function.update_self]
        intro e x hx
        rcases op.mem_on_cbSubs (hdoes.2 e ▸ hx) with hx | ⟨rfl, -, hp2⟩
        · obtain ⟨hp2, hzero, hlt, -⟩ := h e x hx
          exact ⟨hp2, hzero, hlt, rfl⟩
        · exact ⟨hp2, hop.1, hop.2, rfl⟩
      · rw [Function.update_of_ne fun he => hr he.symm]
        exact h.noNew (hdoes.noNew hr)
  | call op =>
      obtain ⟨mng', hno, rfl⟩ := CleanState.call_cases hn c
      exact h.noNew hno
  | dispatch evtid =>
      obtain rfl := Option.some.inj hn
      exact h.noNew fun e => List.Sublist.refl _
  | startClean client =>
      obtain ⟨hpos, rfl⟩ := CleanState.start_cases hn
      dsimp only
      by_cases hcl : client = c
      · rw [hcl] at hpos ⊢
        rw [hpos] at h
        rw [Function.update_self]
        exact clearing_start h (hc hcl)
      · rw [Function.update_of_ne fun he => hcl he.symm]
        exact h
  | unregister client =>
      obtain ⟨i, evtMng', mng', hpos, hi, hun, rfl, rfl⟩ := CleanState.loop_cases hn
      dsimp only
      by_cases hcl : client = c
      · rw [hcl] at hpos hun ⊢
        rw [hpos] at h
        rw [Function.update_self]
        obtain ⟨mng1, he, -, hclear⟩ := clearing_unregister h hi hun
        exact Option.some.inj he ▸ hclear
      · rw [Function.update_of_ne fun he => hcl he.symm]
        obtain ⟨mng1, he, -, hlists⟩ := unregister_cases hun
        exact h.noNew (noNew_of_lists (Option.some.inj he ▸ hlists) (cbSubs_eraseP _))
  | free client =>
      obtain ⟨i, hpos, hi, rfl⟩ := CleanState.free_cases hn
      dsimp only
      by_cases hcl : client = c
      · rw [hcl] at hpos ⊢
        rw [hpos] at h
        rw [Function.update_self]
        exact fun e => Clearing.all h hi e
      · rw [Function.update_of_ne fun he => hcl he.symm]
        exact h

theorem cleanAt_of_reach (h : (cleanSys module cb null).Reach (OnceHooked cb c) st) :
    CleanAt cb null c (st.isEventHooked c) st.mng (st.pos c) := by
  refine h.invariant (I := fun st => CleanAt cb null c (st.isEventHooked c) st.mng (st.pos c))
    (fun st hinit => ?_) fun st act st' hinv hc hn => cleanAt_step hinv hc hn
  obtain ⟨hno, -, hpos⟩ := hinit
  rw [hpos c]
  intro e x hx
  exact absurd (mem_cbSubs.mp hx).2.1 (hno e x (mem_cbSubs.mp hx).1)

/-- A client whose clean-up finds at most one of its subscriptions for each event, with no request
    of it to come, leaves none behind. -/
theorem subsGone_of_onceHooked (h : (cleanSys module cb null).Reach (OnceHooked cb c) st)
    (hfreed : st.pos c = .freed) :
    ∀ e, ∀ x ∈ st.mng.evtlist e, ¬(x.fn = some cb ∧ x.p1 = c) := by
  have hinv := cleanAt_of_reach h
  rw [hfreed] at hinv
  exact fun e => cbSubs_eq_nil.mp (hinv e)

end Run

/-! ## One client that hooks an event -/

def noRequests : CleanState Unit Nat :=
  { mng := zcrtEventManageInit, isEventHooked := fun _ => false, pos := fun _ => .serving }

theorem noRequests_init : (cleanSys encodingModule () 0).init noRequests :=
  ⟨fun _ _ hx => absurd hx List.not_mem_nil, fun _ => rfl, fun _ => rfl⟩

/-- Client 1 has hooked event 7. -/
def hookedSeven : CleanState Unit Nat :=
  { mng := zcrtEventManageInit.setList 7 [linkSub () 1 0]
    isEventHooked := Function.update (fun _ => false) 1 true
    pos := fun _ => .serving }

theorem hookedSeven_reached :
    (cleanSys encodingModule () 0).Reach (OnceHooked () 1) hookedSeven := by
  have hop : linkOp encodingModule hookSeven = .hook 7 := by decide +kernel
  have hstep : noRequests.requestStep encodingModule () 0 ⟨1, hookSeven, recycled [] 0, true⟩ =
      some hookedSeven := by
    unfold CleanState.requestStep
    rw [linkStep_op, hop]
    rfl
  have hinit : (cleanSys encodingModule () 0).Reach (OnceHooked () 1) noRequests :=
    Sys.Reach.init noRequests_init
  exact hinit.step (l := .request ⟨1, hookSeven, recycled [] 0, true⟩) (fun _ => rfl) hstep

/-- It goes away having hooked event 7 once. -/
theorem subsGone_of_onceHooked_seven : ∃ st,
    (cleanSys encodingModule () 0).Reach (OnceHooked () 1) st ∧ st.pos 1 = .freed ∧
    ∀ e, ∀ x ∈ st.mng.evtlist e, ¬(x.fn = some () ∧ x.p1 = 1) := by
  have hone : ∀ e, (cbSubs () 1 (hookedSeven.mng.evtlist e)).length ≤ 1 := by
    intro e
    by_cases he : e = 7
    · rw [he]
      decide
    · have hnil : hookedSeven.mng.evtlist e = [] := ZEvent.setList_of_ne _ _ he
      rw [hnil]
      exact Nat.zero_le _
  have hstart : (cleanSys encodingModule () 0).Reach (OnceHooked () 1)
      { hookedSeven with pos := Function.update (fun _ => .serving) 1 (.cleaning 1) } :=
    hookedSeven_reached.step (l := .startClean 1) (fun _ => hone) rfl
  have hloop : ∀ (st : CleanState Unit Nat) act,
      (act matches .unregister _ | .free _) = true → OnceHooked () 1 st act := by
    intro st act hact
    cases act with
    | unregister client => trivial
    | free client => trivial
    | _ => exact nomatch hact
  obtain ⟨st, hreach, hpos⟩ := Sys.reach_of_run (p := fun st => st.pos 1 = .freed) hloop hstart
    (List.replicate 255 (.unregister 1) ++ [.free 1]) (by decide +kernel)
  have hfreed := of_decide_eq_true hpos
  exact ⟨st, hreach, hfreed, subsGone_of_onceHooked hreach hfreed⟩

/-- It goes away having hooked event 7 twice: the second subscription stays. -/
theorem hookedTwice_left : ¬∀ st, (cleanSys encodingModule () 0).Reachable st →
    st.pos 1 = .freed → ∀ e, ∀ x ∈ st.mng.evtlist e, ¬(x.fn = some () ∧ x.p1 = 1) := by
  intro hall
  have hinit : (cleanSys encodingModule () 0).Reachable noRequests := Sys.Reach.init noRequests_init
  obtain ⟨st, hreach, hp⟩ := Sys.reach_of_run (c := fun _ _ => true)
    (p := fun st => st.pos 1 = .freed ∧
      (st.mng.evtlist 7).any fun x => x.fn = some () ∧ x.p1 = 1)
    (fun _ _ _ => trivial) hinit
    (.request ⟨1, hookSeven, recycled [] 0, true⟩ :: .request ⟨1, hookSeven, recycled [] 0, true⟩ ::
      .startClean 1 :: (List.replicate 255 (.unregister 1) ++ [.free 1])) (by decide +kernel)
  obtain ⟨hfreed, hany⟩ := of_decide_eq_true hp
  obtain ⟨x, hx, hq⟩ := List.any_eq_true.mp hany
  exact hall st hreach hfreed 7 x hx (of_decide_eq_true hq)

end Zcrt
