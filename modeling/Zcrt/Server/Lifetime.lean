/-
  Which queued jobs point to a client that `_zipc_client_thread` has freed.

  * `NoWorkForFreed`: none of them does.
  * `Tracked`: what `jobcnt` counts, what `isEventHooked` says, and what is left in the clean-up.
  * `FreedIdle`: a client is freed when nothing to be sent to it is queued, and no subscription of
    it is left.
  * `noWork_of_freedIdle`: runs in which this is so.
  * `replyQueued_freed`: `jobcnt` does not count a queued reply.
-/
import Zcrt.Server.Conserve

namespace Zcrt

open Lib

/-! ## What points to a client -/

/-- The event manager has a subscription of the client. -/
def Subscribed {G : Type} [DecidableEq G] (cb : G) (k : Nat) (mng : ZEvent G (Option Nat)) : Prop :=
  ∃ e, cbSubs cb (some k) (mng.evtlist e) ≠ []

namespace Server

section Defs

variable {D G : Type} (st : Server D G)

/-- The clients of the received messages that are queued or in progress. -/
def msgs : List Nat := st.sch.map MsgJob.client ++ st.msgRun.toList.map MsgPos.client

/-- Those of the buffers to be sent. -/
def sends : List Nat :=
  st.respondSch.map SendJob.client ++ st.evtSch.map SendJob.client ++
    st.sendRun.toList.map SendJob.client

/-- Those of the callbacks in progress. -/
def calls : List Nat := st.cbs.map CbPos.client

/-- No job points to a client that was freed. -/
def NoWorkForFreed : Prop :=
  ∀ k, ∀ c ∈ st.clients[k]?, c.pos = .freed → k ∉ st.msgs ∧ k ∉ st.sends

/-- A client is freed when nothing to be sent to it is queued, and no subscription of it is left. -/
def FreedIdle [DecidableEq G] (cb : G) (st : Server D G) : ServerAct D → Prop
  | .client k .go => ∀ c ∈ st.clients[k]?, c.pos = .closing → k ∉ st.sends ∧ ¬Subscribed cb k st.mng
  | _ => True

/-- The client, or what it will be first. -/
def clientAt (k : Nat) : Client := st.clients[k]?.getD ⟨.start, false, 0⟩

end Defs

end Server

/-! ## The invariant of one client -/

/-- What `zcrt_atom_inc` has counted and is not yet on `sch`. -/
def CliPos.pending : CliPos → Nat
  | .counted .. => 1
  | .refused _ => 1
  | _ => 0

/-- It has left the loop, and waited. -/
def CliPos.ended : CliPos → Bool
  | .cleaning .. => true
  | .closing => true
  | .freed => true
  | _ => false

/-- It has taken out its subscriptions. -/
def CliPos.swept : CliPos → Bool
  | .cleaning _ i => !decide (i < ZCRT_MAX_EVT)
  | .closing => true
  | .freed => true
  | _ => false

theorem CliPos.ended_of_swept {pos : CliPos} (h : pos.swept = true) : pos.ended = true := by
  cases pos with
  | cleaning buf i => rfl
  | closing => rfl
  | freed => rfl
  | _ => exact nomatch h

/-- A client with its messages, and whether there are subscriptions, callbacks and sends of it. -/
structure Tracked (c : Client) (msgs : Nat) (subs calls sends : Prop) : Prop where
  count : c.jobcnt = ((msgs + c.pos.pending : Nat) : Int)
  ended : c.pos.ended = true → msgs = 0
  hooked : c.isEventHooked = false → ¬subs ∧ ¬calls
  swept : c.pos.swept = true → calls → subs
  freed : c.pos = .freed → ¬subs ∧ ¬sends

namespace Tracked

variable {c : Client} {msgs : Nat} {subs calls sends : Prop}

/-- A client with a message is in its loop, or waits. -/
theorem not_ended (h : Tracked c msgs subs calls sends) (hmsgs : msgs ≠ 0) : c.pos.ended = false :=
  Bool.eq_false_iff.mpr fun he => hmsgs (h.ended he)

/-- No callback of a freed client is in progress. -/
theorem not_freed_of_call (h : Tracked c msgs subs calls sends) (hcalls : calls) :
    c.pos ≠ .freed := by
  intro hfreed
  have hswept : c.pos.swept = true := by
    rw [hfreed]
    rfl
  exact (h.freed hfreed).1 (h.swept hswept hcalls)

/-- A client in its loop. -/
theorem busy (hpos : c.pos.ended = false) (count : c.jobcnt = ((msgs + c.pos.pending : Nat) : Int))
    (hooked : c.isEventHooked = false → ¬subs ∧ ¬calls) : Tracked c msgs subs calls sends where
  count := count
  ended he := absurd he (Bool.eq_false_iff.mp hpos)
  hooked := hooked
  swept hs := absurd (CliPos.ended_of_swept hs) (Bool.eq_false_iff.mp hpos)
  freed hf := by
    rw [hf] at hpos
    exact nomatch hpos

/-- A client that has not begun. -/
theorem new (hsubs : ¬subs) (hcalls : ¬calls) : Tracked ⟨.start, false, 0⟩ 0 subs calls sends :=
  busy rfl rfl fun _ => ⟨hsubs, hcalls⟩

/-- Fewer callbacks, and what is sent for a client that was not freed. -/
theorem mono {calls' sends' : Prop} (h : Tracked c msgs subs calls sends) (hcalls : calls' → calls)
    (hsends : sends' → sends ∨ c.pos ≠ .freed) : Tracked c msgs subs calls' sends' where
  count := h.count
  ended := h.ended
  hooked hh := ⟨(h.hooked hh).1, fun hc => (h.hooked hh).2 (hcalls hc)⟩
  swept hs hc := h.swept hs (hcalls hc)
  freed hf := ⟨(h.freed hf).1, fun hs => (hsends hs).elim (h.freed hf).2 fun hne => hne hf⟩

/-- A dispatch comes to a subscription. -/
theorem call (h : Tracked c msgs subs calls sends) (hsubs : subs) :
    Tracked c msgs subs True sends where
  count := h.count
  ended := h.ended
  hooked hh := absurd hsubs (h.hooked hh).1
  swept _ _ := hsubs
  freed := h.freed

end Tracked

/-! ## A step of its thread -/

section Local

variable {F E D G : Type} [DecidableEq G] {cb : G}
  {call : F → ZIPCComp F → ZBuf → ZBuf → Option (EZCRTErr × ZBuf × ZBuf)}
  {encode : E → UInt32 → D → ZBuf → Option (EZCRTErr × ZBuf)} {module : ZIPCModule F E}

theorem Subscribed.of_noNew {k : Nat} {mng mng' : ZEvent G (Option Nat)}
    (hn : NoNew cb (some k) mng mng') (h : Subscribed cb k mng') : Subscribed cb k mng := by
  obtain ⟨e, he⟩ := h
  exact ⟨e, fun hnil => he (List.sublist_nil.mp (hnil ▸ hn e))⟩

theorem subscribed_congr {k : Nat} {mng mng' : ZEvent G (Option Nat)}
    (h : ∀ e, cbSubs cb (some k) (mng'.evtlist e) = cbSubs cb (some k) (mng.evtlist e)) :
    Subscribed cb k mng' ↔ Subscribed cb k mng :=
  exists_congr fun e => by rw [h e]

/-- Its own step, with `run` messages of it in progress. -/
theorem Client.step_tracked {k : Nat} {c : Client} {act : CliAct} {idle : Bool} {pool : BufPool}
    {mng : ZEvent G (Option Nat)} {sch : List MsgJob} {res : CliRes G} {run : Nat}
    {calls sends : Prop}
    (h : c.step (· + 1) (· - 1) cb k act idle pool mng sch = some res)
    (ht : Tracked c ((sch.map MsgJob.client).count k + run) (Subscribed cb k mng) calls sends)
    (hidle : idle = true → ¬calls)
    (hfree : c.pos = .closing → act = .go → ¬sends ∧ ¬Subscribed cb k mng) :
    Tracked res.client ((res.sch.map MsgJob.client).count k + run) (Subscribed cb k res.mng) calls
      sends := by
  have hstep := Client.step_cases h
  have hcount := ht.count
  obtain ⟨pos, isEventHooked, jobcnt⟩ := c
  cases hstep with
  | malloc hpos =>
      rcases hpos with rfl | rfl
      · exact .busy rfl hcount ht.hooked
      · exact .busy rfl hcount ht.hooked
  | recv hpos | leave hpos | refuse hpos | giveBack hpos =>
      obtain rfl := hpos
      exact .busy rfl hcount ht.hooked
  | count hpos =>
      obtain rfl := hpos
      refine .busy rfl ?_ ht.hooked
      dsimp only [CliPos.pending] at hcount ⊢
      omega
  | queue hpos =>
      -- what was counted is on `sch`
      obtain rfl := hpos
      refine .busy rfl ?_ ht.hooked
      rw [List.map_append, List.map_singleton, List.count_append, List.count_singleton_self]
      dsimp only [CliPos.pending] at hcount ⊢
      omega
  | uncount hpos =>
      obtain rfl := hpos
      refine .busy rfl ?_ ht.hooked
      dsimp only [CliPos.pending] at hcount ⊢
      omega
  | startClean hpos hzero =>
      -- nothing is queued or in progress, for it has waited
      obtain rfl := hpos
      dsimp only [CliPos.pending] at hcount hzero
      refine ⟨hcount, fun _ => by dsimp only; omega, ht.hooked, fun hs hc => ?_,
        fun hf => nomatch hf⟩
      dsimp only [CliPos.swept] at hs
      split at hs
      · exact nomatch hs
      · rename_i hh
        exact absurd hc (ht.hooked (Bool.eq_false_iff.mpr hh)).2
  | unregister hpos hi hun =>
      obtain rfl := hpos
      obtain ⟨mng', hmng, -, hlists⟩ := unregister_cases hun
      obtain rfl := Option.some.inj hmng
      have hsubs := Subscribed.of_noNew
        (noNew_of_lists hlists (cbSubs_eraseP _) : NoNew cb (some k) mng _)
      exact ⟨hcount, fun _ => ht.ended rfl, fun hh => ⟨fun hs => (ht.hooked hh).1 (hsubs hs),
        (ht.hooked hh).2⟩, fun _ hc => absurd hc (hidle rfl), fun hf => nomatch hf⟩
  | @close _ _ buf i hpos hi =>
      obtain rfl := hpos
      have hswept : CliPos.swept (.cleaning buf i) = true := by
        dsimp only [CliPos.swept]
        rw [decide_eq_false hi]
        rfl
      exact ⟨hcount, fun _ => ht.ended rfl, ht.hooked, fun _ => ht.swept hswept,
        fun hf => nomatch hf⟩
  | free hpos =>
      obtain rfl := hpos
      exact ⟨hcount, fun _ => ht.ended rfl, ht.hooked, fun _ => ht.swept rfl,
        fun _ => ⟨(hfree rfl rfl).2, (hfree rfl rfl).1⟩⟩

/-- What it does to another client. -/
theorem Client.step_other {j k : Nat} {c : Client} {act : CliAct} {idle : Bool} {pool : BufPool}
    {mng : ZEvent G (Option Nat)} {sch : List MsgJob} {res : CliRes G} {inc dec : Int → Int}
    (h : c.step inc dec cb k act idle pool mng sch = some res) (hne : k ≠ j) :
    (res.sch.map MsgJob.client).count j = (sch.map MsgJob.client).count j ∧
      (Subscribed cb j res.mng ↔ Subscribed cb j mng) := by
  cases Client.step_cases h with
  | queue =>
      refine ⟨?_, Iff.rfl⟩
      rw [List.map_append, List.map_singleton, List.count_append, List.count_singleton,
        if_neg (by simpa using hne)]
      rfl
  | unregister hpos hi hun =>
      obtain ⟨mng', hmng, hlists⟩ := unregister_cbSubs_of_ne cb hun
        (fun he => hne (Option.some.inj he) : (some k : Option Nat) ≠ some j)
      obtain rfl := Option.some.inj hmng
      exact ⟨rfl, subscribed_congr hlists⟩
  | _ => exact ⟨rfl, Iff.rfl⟩

/-! ## A step of a worker, or of a callback -/

/-- What it queues is for its client. -/
theorem MsgPos.step_sends {pos : MsgPos} {act : JobAct} {ipc : Bool} {pool : BufPool}
    {mng : ZEvent G (Option Nat)} {respondSch : List SendJob} {res : MsgRes G} {dec : Int → Int}
    (h : pos.step dec cb call module act ipc pool mng respondSch = some res) :
    ∀ job ∈ res.respondSch, job ∈ respondSch ∨ job.client = pos.client := by
  cases MsgPos.step_cases h with
  | queue =>
      intro job hjob
      refine (List.mem_append.mp hjob).imp_right fun hnew => ?_
      rw [List.mem_singleton.mp hnew]
      rfl
  | _ => exact fun _ => Or.inl

/-- It stays a job of that client. -/
theorem MsgPos.step_next {pos : MsgPos} {act : JobAct} {ipc : Bool} {pool : BufPool}
    {mng : ZEvent G (Option Nat)} {respondSch : List SendJob} {res : MsgRes G} {dec : Int → Int}
    (h : pos.step dec cb call module act ipc pool mng respondSch = some res) (k : Nat) :
    (res.pos.toList.map MsgPos.client).count k =
      if pos.client = k then res.pos.toList.length else 0 := by
  have hsome : ∀ {pos' : MsgPos}, pos'.client = pos.client →
      ((some pos').toList.map MsgPos.client).count k = if pos.client = k then 1 else 0 := by
    intro pos' hclient
    rw [Option.toList_some, List.map_singleton, hclient, List.count_singleton]
    simp only [beq_iff_eq]
  cases MsgPos.step_cases h with
  | malloc | refuse | queue | giveBack | close => exact hsome rfl
  | parse hipc happ hnext => exact hsome (by rcases hnext with ⟨-, rfl, -⟩ | ⟨-, rfl, -⟩ <;> rfl)
  | uncount => exact (ite_self 0).symm

/-- The job of a client that has `msgs` more. -/
theorem MsgPos.step_tracked {pos : MsgPos} {act : JobAct} {ipc : Bool} {pool : BufPool}
    {mng : ZEvent G (Option Nat)} {respondSch : List SendJob} {res : MsgRes G}
    (h : pos.step (· - 1) cb call module act ipc pool mng respondSch = some res) {c : Client}
    {msgs : Nat} {calls sends sends' : Prop}
    (ht : Tracked c (msgs + 1) (Subscribed cb pos.client mng) calls sends) :
    Tracked (res.client c) (msgs + (res.pos.toList.map MsgPos.client).count pos.client)
      (Subscribed cb pos.client res.mng) calls sends' := by
  have hpos := ht.not_ended (Nat.succ_ne_zero msgs)
  have hcount := ht.count
  rw [MsgPos.step_next h, if_pos rfl]
  cases MsgPos.step_cases h with
  | malloc | refuse | queue | giveBack | close => exact .busy hpos hcount ht.hooked
  | @parse job _ _ _ _ _ mng' _ hipc happ hnext =>
      obtain ⟨mng1, op, hmng, -, hdoes, hnone⟩ := appParse_op happ
      obtain rfl := Option.some.inj hmng
      refine .busy hpos hcount fun hh => ?_
      -- without a link request nothing is hooked
      obtain ⟨hwas, hno⟩ := Bool.or_eq_false_iff.mp hh
      obtain rfl := hnone (of_decide_eq_false hno)
      have hsame : NoNew cb (some job.client) mng mng' := fun e => by
        rw [hdoes.2 e]
        exact List.Sublist.refl _
      have hnew := Subscribed.of_noNew hsame
      exact ⟨fun hs => (ht.hooked hwas).1 (hnew hs), (ht.hooked hwas).2⟩
  | uncount =>
      refine .busy hpos ?_ ht.hooked
      dsimp only [Option.toList_none, List.length_nil]
      push_cast at hcount ⊢
      omega

/-- What it does to another client. -/
theorem MsgPos.step_other {pos : MsgPos} {act : JobAct} {ipc : Bool} {pool : BufPool}
    {mng : ZEvent G (Option Nat)} {respondSch : List SendJob} {res : MsgRes G} {j : Nat}
    {dec : Int → Int} (h : pos.step dec cb call module act ipc pool mng respondSch = some res)
    (hne : pos.client ≠ j) :
    (res.pos.toList.map MsgPos.client).count j = 0 ∧
      (Subscribed cb j res.mng ↔ Subscribed cb j mng) := by
  refine ⟨(MsgPos.step_next h j).trans (if_neg hne), ?_⟩
  cases MsgPos.step_cases h with
  | malloc | refuse | queue | giveBack | close | uncount => exact Iff.rfl
  | parse hipc happ hnext =>
      obtain ⟨mng1, op, hmng, -, hdoes, -⟩ := appParse_op happ
      obtain rfl := Option.some.inj hmng
      exact subscribed_congr (hdoes.cbSubs_of_ne fun he => hne (Option.some.inj he))

/-- A callback goes on, or ends; what it queues is for its client. -/
theorem CbPos.step_sends {pos : CbPos D} {act : JobAct} {ipc : Bool} {pool : BufPool}
    {evtSch : List SendJob} {res : CbRes D}
    (h : pos.step encode module act ipc pool evtSch = some res) :
    (∀ pos' ∈ res.pos, pos'.client = pos.client) ∧
      ∀ job ∈ res.evtSch, job ∈ evtSch ∨ job.client = pos.client := by
  cases CbPos.step_cases h with
  | malloc | refuse => exact ⟨fun _ hpos => Option.some.inj hpos ▸ rfl, fun _ => Or.inl⟩
  | encode hnext =>
      refine ⟨fun _ hpos => ?_, fun _ => Or.inl⟩
      rw [← Option.some.inj hpos]
      rcases hnext with rfl | rfl <;> rfl
  | queue =>
      refine ⟨(fun _ hpos => nomatch hpos), fun job hjob => ?_⟩
      refine (List.mem_append.mp hjob).imp_right fun hnew => ?_
      rw [List.mem_singleton.mp hnew]
      rfl
  | giveBack => exact ⟨(fun _ hpos => nomatch hpos), fun _ => Or.inl⟩

end Local

/-! ## All threads -/

namespace Server

section Run

variable {F E D G : Type} [DecidableEq G] {cb : G}
  {call : F → ZIPCComp F → ZBuf → ZBuf → Option (EZCRTErr × ZBuf × ZBuf)}
  {encode : E → UInt32 → D → ZBuf → Option (EZCRTErr × ZBuf)} {module : ZIPCModule F E}
  {st st' : Server D G} {act : ServerAct D}

omit [DecidableEq G] in
theorem msgs_count (st : Server D G) (k : Nat) : st.msgs.count k =
    (st.sch.map MsgJob.client).count k + (st.msgRun.toList.map MsgPos.client).count k :=
  List.count_append

omit [DecidableEq G] in
theorem mem_sends {k : Nat} : k ∈ st.sends ↔
    ∃ job, (job ∈ st.respondSch ∨ job ∈ st.evtSch ∨ job ∈ st.sendRun) ∧ job.client = k := by
  unfold sends
  rw [List.mem_append, List.mem_append, List.mem_map, List.mem_map, List.mem_map]
  simp only [Option.mem_toList, Option.mem_def, or_and_right, exists_or, or_assoc]

/-- The invariant. -/
def TrackedAt (cb : G) (st : Server D G) (k : Nat) : Prop :=
  Tracked (st.clientAt k) (st.msgs.count k) (Subscribed cb k st.mng) (k ∈ st.calls) (k ∈ st.sends)

/-- A client with a message is there. -/
theorem TrackedAt.client_of_msgs {k : Nat} (h : st.TrackedAt cb k) (hmsgs : st.msgs.count k ≠ 0) :
    ∃ c, st.clients[k]? = some c := by
  cases hk : st.clients[k]? with
  | some c => exact ⟨c, rfl⟩
  | none =>
      have hcount := h.count
      have hat : st.clientAt k = ⟨.start, false, 0⟩ := by
        unfold clientAt
        rw [hk]
        rfl
      rw [hat] at hcount
      dsimp only [CliPos.pending] at hcount
      omega

omit [DecidableEq G] in
theorem clientAt_of_some {k : Nat} {c : Client} (h : st.clients[k]? = some c) :
    st.clientAt k = c := by
  unfold clientAt
  rw [h]
  rfl

omit [DecidableEq G] in
/-- No more is to be sent than before. -/
theorem mem_sends_mono {k : Nat}
    (h : ∀ job, job ∈ st'.respondSch ∨ job ∈ st'.evtSch ∨ job ∈ st'.sendRun → job.client = k →
      job ∈ st.respondSch ∨ job ∈ st.evtSch ∨ job ∈ st.sendRun) (hs : k ∈ st'.sends) :
    k ∈ st.sends := by
  obtain ⟨job, hin, hk⟩ := mem_sends.mp hs
  exact mem_sends.mpr ⟨job, h job hin hk, hk⟩

/-- A client's thread. -/
theorem clientStep_tracked {j k : Nat} {act : CliAct} (hj : st.TrackedAt cb j)
    (hc : st.FreedIdle cb (.client k act))
    (hn : st.clientStep (· + 1) (· - 1) cb k act = some st') : st'.TrackedAt cb j := by
  obtain ⟨c, hk, hn⟩ := Option.bind_eq_some_iff.mp hn
  obtain ⟨res, hres, hn⟩ := Option.bind_eq_some_iff.mp hn
  obtain rfl := Option.some.inj hn
  unfold TrackedAt at hj ⊢
  rw [msgs_count] at hj ⊢
  by_cases hkj : k = j
  · obtain rfl := hkj
    rw [clientAt_of_some hk] at hj
    rw [clientAt_of_some (by rw [List.getElem?_set_self', hk]; rfl)]
    refine Client.step_tracked hres hj (fun hidle => ?_) fun hpos hact => ?_
    · unfold calls
      rw [List.isEmpty_iff.mp hidle]
      exact List.not_mem_nil
    · obtain rfl := hact
      exact hc c hk hpos
  · obtain ⟨hcount, hsubs⟩ := Client.step_other hres hkj
    unfold clientAt
    dsimp only
    rw [List.getElem?_set_ne hkj, hcount, hsubs]
    exact hj

/-- The worker of `sch`. -/
theorem msgStep_tracked {j : Nat} {ipc : Bool} {act : JobAct} (hj : st.TrackedAt cb j)
    (hn : st.msgStep (· - 1) cb call module ipc act = some st') : st'.TrackedAt cb j := by
  obtain ⟨pos, hpos, hn⟩ := Option.bind_eq_some_iff.mp hn
  obtain ⟨res, hres, hn⟩ := Option.bind_eq_some_iff.mp hn
  obtain rfl := Option.some.inj hn
  have hcount : st.msgs.count j =
      (st.sch.map MsgJob.client).count j + [pos.client].count j := by
    rw [msgs_count, hpos]
    rfl
  by_cases hkj : pos.client = j
  · obtain rfl := hkj
    rw [List.count_singleton_self] at hcount
    obtain ⟨c, hk⟩ := hj.client_of_msgs (by omega)
    unfold TrackedAt at hj ⊢
    rw [clientAt_of_some hk, hcount] at hj
    rw [clientAt_of_some (by rw [List.getElem?_modify_eq, hk]; rfl), msgs_count]
    exact MsgPos.step_tracked hres hj
  · obtain ⟨hnone, hsubs⟩ := MsgPos.step_other hres hkj
    rw [List.count_singleton, if_neg (by simpa using hkj)] at hcount
    unfold TrackedAt at hj ⊢
    unfold clientAt at hj ⊢
    dsimp only
    rw [hcount] at hj
    rw [List.getElem?_modify_ne res.client st.clients hkj, msgs_count, hnone, hsubs]
    refine hj.mono id fun hs => Or.inl (mem_sends_mono (fun job hin hjob => ?_) hs)
    refine hin.imp_left fun hin => ?_
    exact (MsgPos.step_sends hres job hin).resolve_right fun he => hkj (he.symm.trans hjob)

omit [DecidableEq G] in
/-- The worker of the other two takes a job. -/
theorem takeSendStep_sends {k : Nat} {evt : Bool} (hn : st.takeSendStep evt = some st')
    (hs : k ∈ st'.sends) : k ∈ st.sends := by
  refine mem_sends_mono (fun job hin _ => ?_) hs
  unfold takeSendStep at hn
  split at hn
  · rename_i job' respondSch hrun hsch
    obtain rfl := Option.some.inj hn
    rw [hsch]
    rcases hin with hin | hin | hin
    · exact Or.inl (List.mem_cons_of_mem _ hin)
    · exact Or.inr (Or.inl hin)
    · obtain rfl := Option.some.inj hin
      exact Or.inl List.mem_cons_self
  · rename_i job' evtSch hrun hsch
    obtain rfl := Option.some.inj hn
    rw [hsch]
    rcases hin with hin | hin | hin
    · exact Or.inl hin
    · exact Or.inr (Or.inl (List.mem_cons_of_mem _ hin))
    · obtain rfl := Option.some.inj hin
      exact Or.inr (Or.inl List.mem_cons_self)
  · exact nomatch hn

/-- A dispatch. -/
theorem eventStep_tracked {j k : Nat} {evtid : UInt32} {evtdata : D} (hj : st.TrackedAt cb j)
    (hn : st.eventStep cb k evtid evtdata = some st') : st'.TrackedAt cb j := by
  unfold eventStep at hn
  split at hn
  · exact nomatch hn
  · rename_i hsub
    obtain rfl := Option.some.inj hn
    by_cases hkj : k = j
    · have hsubs : Subscribed cb j st.mng :=
        ⟨evtid, fun hnil => hsub (hkj ▸ List.isEmpty_iff.mpr hnil)⟩
      exact (Tracked.call hj hsubs).mono (fun _ => trivial) Or.inl
    · refine Tracked.mono hj (fun hcall => ?_) Or.inl
      exact (List.mem_cons.mp hcall).resolve_left fun he => hkj he.symm

/-- The innermost callback. -/
theorem callbackStep_tracked {j : Nat} {ipc : Bool} {act : JobAct} (hj : st.TrackedAt cb j)
    (hn : st.callbackStep encode module ipc act = some st') : st'.TrackedAt cb j := by
  unfold callbackStep at hn
  split at hn
  · exact nomatch hn
  · rename_i pos cbs hcbs
    obtain ⟨res, hres, hn⟩ := Option.bind_eq_some_iff.mp hn
    obtain rfl := Option.some.inj hn
    obtain ⟨hclient, hjobs⟩ := CbPos.step_sends hres
    have hcalls : j ∈ st.calls ↔ j = pos.client ∨ j ∈ cbs.map CbPos.client := by
      unfold calls
      rw [hcbs, List.map_cons, List.mem_cons]
    refine Tracked.mono hj (fun hcall => hcalls.mpr ?_) fun hs => ?_
    · obtain ⟨pos', hin, hj'⟩ := List.mem_map.mp hcall
      rcases List.mem_append.mp hin with hin | hin
      · rw [← hj', hclient pos' (Option.mem_toList.mp hin)]
        exact Or.inl rfl
      · exact Or.inr (List.mem_map.mpr ⟨pos', hin, hj'⟩)
    · by_cases hkj : j = pos.client
      · -- it is still subscribed, or in its loop
        exact Or.inr (Tracked.not_freed_of_call hj (hcalls.mpr (Or.inl hkj)))
      · refine Or.inl (mem_sends_mono (fun job hin hjob => ?_) hs)
        refine hin.imp_right fun hin => hin.imp_left fun hin => ?_
        exact (hjobs job hin).resolve_right fun he => hkj (hjob.symm.trans he)

theorem step_tracked {j : Nat} (hj : st.TrackedAt cb j) (hc : st.FreedIdle cb act)
    (hn : st.step (· + 1) (· - 1) cb call encode module act = some st') : st'.TrackedAt cb j := by
  cases act with
  | accept =>
      obtain rfl := Option.some.inj hn
      have hsame : st.acceptStep.clientAt j = st.clientAt j := by
        unfold clientAt acceptStep
        dsimp only
        rw [List.getElem?_append]
        split
        · rfl
        · rename_i hlt
          rw [List.getElem?_eq_none (Nat.le_of_not_lt hlt), List.getElem?_singleton]
          split <;> rfl
      unfold TrackedAt
      rw [hsame]
      exact hj
  | client k act => exact clientStep_tracked hj hc hn
  | lastEvtid evtid =>
      obtain rfl := Option.some.inj hn
      exact hj
  | takeMsg =>
      unfold step takeMsgStep at hn
      dsimp only at hn
      split at hn
      · rename_i job sch hrun hsch
        obtain rfl := Option.some.inj hn
        have hcount : (sch.map MsgJob.client).count j + [job.client].count j = st.msgs.count j := by
          rw [msgs_count, hrun, hsch, List.map_cons, count_cons_eq job.client j (sch.map _)]
          exact Nat.add_comm _ _
        unfold TrackedAt at hj ⊢
        rw [← hcount] at hj
        rw [msgs_count]
        exact hj
      · exact nomatch hn
  | msg ipc act => exact msgStep_tracked hj hn
  | takeSend evt =>
      have hframe : st'.clients = st.clients ∧ st'.msgs = st.msgs ∧ st'.mng = st.mng ∧
          st'.calls = st.calls := by
        unfold step takeSendStep at hn
        dsimp only at hn
        split at hn
        · obtain rfl := Option.some.inj hn
          exact ⟨rfl, rfl, rfl, rfl⟩
        · obtain rfl := Option.some.inj hn
          exact ⟨rfl, rfl, rfl, rfl⟩
        · exact nomatch hn
      obtain ⟨hclients, hmsgs, hmng, hcalls⟩ := hframe
      have hs : j ∈ st'.sends → j ∈ st.sends := takeSendStep_sends hn
      unfold TrackedAt clientAt at hj ⊢
      rw [hclients, hmsgs, hmng, hcalls]
      exact hj.mono id fun hs' => Or.inl (hs hs')
  | send ipc =>
      obtain ⟨job, -, hn⟩ := Option.bind_eq_some_iff.mp hn
      obtain rfl := Option.some.inj hn
      refine Tracked.mono hj id fun hs => Or.inl (mem_sends_mono (fun job hin _ => ?_) hs)
      exact hin.imp_right fun hin => hin.imp_right fun hin => nomatch hin
  | event k evtid evtdata => exact eventStep_tracked hj hn
  | callback ipc act => exact callbackStep_tracked hj hn

theorem tracked_of_reach
    (h : (serverSys (· + 1) (· - 1) cb call encode module).Reach (Server.FreedIdle cb) st)
    (k : Nat) : st.TrackedAt cb k := by
  refine h.invariant (I := fun st => st.TrackedAt cb k) (fun st hinit => ?_)
    fun st act st' hinv hc hn => step_tracked hinv hc hn
  obtain ⟨hno, -, -, hclients, hsch, hrespond, hevt, hmsg, hsend, hcbs⟩ := hinit
  have hsubs : ¬Subscribed cb k st.mng := fun ⟨e, he⟩ =>
    he (cbSubs_eq_nil.mpr fun x hx hq => hno e x hx hq.1)
  unfold TrackedAt clientAt msgs calls sends
  rw [hclients, hsch, hrespond, hevt, hmsg, hsend, hcbs]
  exact Tracked.new hsubs List.not_mem_nil

/-- If nothing to be sent to a client is queued when it is freed, and no subscription of it is left,
    no job ever points to a client that was freed. -/
theorem noWork_of_freedIdle
    (h : (serverSys (· + 1) (· - 1) cb call encode module).Reach (Server.FreedIdle cb) st) :
    st.NoWorkForFreed := by
  intro k c hk hfreed
  have hinv := tracked_of_reach h k
  unfold TrackedAt at hinv
  rw [clientAt_of_some hk] at hinv
  have hended : c.pos.ended = true := by rw [hfreed]; rfl
  exact ⟨List.count_eq_zero.mp (hinv.ended hended), (hinv.freed hfreed).2⟩

end Run

end Server

/-! ## A client that was answered, and one that was not -/

/-- No client is freed by the step. -/
def closesNone (st : Server UInt8 Unit) : ServerAct UInt8 → Bool
  | .client k .go => st.clients[k]?.map Client.pos ≠ some .closing
  | _ => true

theorem closesNone_freedIdle (st : Server UInt8 Unit) (act : ServerAct UInt8)
    (h : closesNone st act = true) : st.FreedIdle () act := by
  cases act with
  | client k act =>
      cases act with
      | go =>
          intro c hc hpos
          refine absurd ?_ (of_decide_eq_true h)
          rw [hc, Option.map_some, hpos]
      | _ => trivial
  | _ => trivial

/-- `zcrt_free(client)` -/
theorem closing_next {st : Server UInt8 Unit} {c : Client} (hc : st.clients[0]? = some c)
    (hpos : c.pos = .closing) : ∃ st', byteServer.next st (.client 0 .go) = some st' ∧
      st'.clients[0]? = some { c with pos := .freed } := by
  obtain ⟨pos, isEventHooked, jobcnt⟩ := c
  obtain rfl := hpos
  refine ⟨{ st with clients := st.clients.set 0 ⟨.freed, isEventHooked, jobcnt⟩ }, ?_, ?_⟩
  · change (st.clients[0]?).bind _ = _
    rw [hc]
    rfl
  · rw [List.getElem?_set_self', hc]
    rfl

/-- The reply is sent, and then the connection ends. -/
theorem noWork_of_freedIdle_answered : ∃ st : Server UInt8 Unit,
    byteServer.Reach (Server.FreedIdle ()) st ∧ (∃ c, st.clients[0]? = some c ∧ c.pos = .freed) ∧
    st.NoWorkForFreed := by
  have hinit : byteServer.Reach (Server.FreedIdle ()) newServer := Sys.Reach.init newServer_init
  obtain ⟨st, hreach, hp⟩ := Sys.reach_of_run (c := closesNone)
    (p := fun st => decide (st.clients[0]?.map Client.pos = some .closing ∧
      st.clients[0]?.map Client.isEventHooked = some false ∧ st.sends = []))
    closesNone_freedIdle hinit
    (requested ++ [.takeSend false, .send false] ++ disconnected.dropLast) (by decide +kernel)
  obtain ⟨hpos, hhooked, hsends⟩ := of_decide_eq_true hp
  obtain ⟨c, hc, hpos⟩ := Option.map_eq_some_iff.mp hpos
  rw [hc] at hhooked
  -- it never hooked an event
  have hinv := Server.tracked_of_reach hreach 0
  unfold Server.TrackedAt at hinv
  rw [Server.clientAt_of_some hc] at hinv
  have hsubs := (hinv.hooked (Option.some.inj hhooked)).1
  have hidle : st.FreedIdle () (.client 0 .go) := fun _ _ _ =>
    ⟨hsends ▸ List.not_mem_nil, hsubs⟩
  obtain ⟨st', hn, hfreed⟩ := closing_next hc hpos
  have hreach' := hreach.step hidle hn
  exact ⟨st', hreach', ⟨_, hfreed, rfl⟩, Server.noWork_of_freedIdle hreach'⟩

/-- The connection ends, and the reply is still queued. -/
theorem replyQueued_freed : ¬∀ st, byteServer.Reachable st → st.NoWorkForFreed := by
  intro hall
  have hinit : byteServer.Reachable newServer := Sys.Reach.init newServer_init
  obtain ⟨st, hreach, hp⟩ := Sys.reach_of_run (c := fun _ _ => true)
    (p := fun st => decide (st.clients[0]?.map Client.pos = some .freed ∧ 0 ∈ st.sends))
    (fun _ _ _ => trivial) hinit (requested ++ disconnected) (by decide +kernel)
  obtain ⟨hfreed, hsend⟩ := of_decide_eq_true hp
  obtain ⟨c, hc, hpos⟩ := Option.map_eq_some_iff.mp hfreed
  exact (hall st hreach 0 c hc hpos).2 hsend

end Zcrt
