/-
  What the user-space server carries from its clients to its handlers and back, whatever the order
  of its threads' steps.

  * `Exchange.Answers`, `Letter.Tells`: the reply to a message, and the letter about an event.
  * `Carried`: the record fits what is on the way.
  * `carried_of_reach`: so it does in each run.
-/
import Zcrt.Ipc.Clients
import Zcrt.Server.Exchange

namespace Zcrt

open Lib

section Local

variable {F E D G : Type} [DecidableEq G] {inc dec : Int → Int} {cb : G}
  {call : F → ZIPCComp F → ZBuf → ZBuf → Option (EZCRTErr × ZBuf × ZBuf)}
  {encode : E → UInt32 → D → ZBuf → Option (EZCRTErr × ZBuf)} {module : ZIPCModule F E}

/-! ## The steps by their labels -/

/-- What a client's step does to the message in its hands. -/
inductive Client.Hands (k : Nat) (c : Client) (pool : BufPool) (sch : List MsgJob) :
    CliAct → CliRes G → Prop
  | recv {appType : UInt16} {payload : List UInt8} {buf : Nat} {v : ZBuf} {res : CliRes G}
      (hpos : res.client.pos = .received buf appType)
      (hpool : res.pool = pool.store buf { v with
        buf := v.buf.copy 0 payload, len := UInt32.ofNat payload.length, offset := 0 })
      (hsch : res.sch = sch) : Hands k c pool sch (.recv appType payload) res
  | queue {buf : Nat} {appType : UInt16} {res : CliRes G}
      (hpos : c.pos.hand = some (buf, appType)) (hpos' : res.client.pos.hand = none)
      (hsch : res.sch = sch ++ [⟨k, buf, appType⟩]) (hpool : res.pool = pool) :
      Hands k c pool sch (.sendjob false) res
  | keep {act : CliAct} {res : CliRes G} (hrecv : ∀ appType payload, act ≠ .recv appType payload)
      (hqueue : act ≠ .sendjob false) (hsch : res.sch = sch)
      (hhand : ∀ x, res.client.pos.hand = some x → c.pos.hand = some x ∧ res.pool = pool) :
      Hands k c pool sch act res

theorem Client.step_hands {k : Nat} {c : Client} {act : CliAct} {idle : Bool} {pool : BufPool}
    {mng : ZEvent G (Option Nat)} {sch : List MsgJob} {res : CliRes G}
    (h : c.step inc dec cb k act idle pool mng sch = some res) :
    Client.Hands k c pool sch act res := by
  unfold step at h
  split at h
  · obtain rfl := Option.some.inj h
    exact .keep nofun nofun rfl nofun
  · obtain ⟨v, -, rfl⟩ := Option.map_eq_some_iff.mp h
    exact .recv rfl rfl rfl
  · obtain rfl := Option.some.inj h
    exact .keep nofun nofun rfl nofun
  · rename_i hpos
    obtain rfl := Option.some.inj h
    exact .keep nofun nofun rfl fun x hx => ⟨by rw [hpos]; exact hx, rfl⟩
  · rename_i full hpos
    cases full with
    | true =>
        obtain rfl := Option.some.inj h
        exact .keep nofun nofun rfl nofun
    | false =>
        obtain rfl := Option.some.inj h
        exact .queue (by rw [hpos]; rfl) rfl rfl rfl
  · obtain rfl := Option.some.inj h
    exact .keep nofun nofun rfl nofun
  · obtain rfl := Option.some.inj h
    exact .keep nofun nofun rfl nofun
  · obtain rfl := Option.some.inj h
    exact .keep nofun nofun rfl nofun
  · split at h
    · obtain rfl := Option.some.inj h
      exact .keep nofun nofun rfl nofun
    · exact nomatch h
  · split at h
    · split at h
      · obtain ⟨evtMng, -, h⟩ := Option.bind_eq_some_iff.mp h
        obtain ⟨mng', -, h⟩ := Option.bind_eq_some_iff.mp h
        obtain rfl := Option.some.inj h
        exact .keep nofun nofun rfl nofun
      · exact nomatch h
    · obtain rfl := Option.some.inj h
      exact .keep nofun nofun rfl nofun
  · obtain rfl := Option.some.inj h
    exact .keep nofun nofun rfl nofun
  · exact nomatch h

variable (call module cb) in
/-- The parser had the message before it, and the reply is what it wrote to the empty buffer; there
    is none where it wrote nothing. -/
def Exchange.Answers (x : Exchange G) : Prop :=
  x.ibuf.rest = x.request.bytes ∧
  ∃ (iv ov : ZBuf) (mng' : ZEvent G (Option Nat)),
    appParse call module (some x.mng) x.heap x.request.appType x.ibuf (zcrtBufClear x.obuf) cb
      (some x.request.client) none = some (iv, ov, some mng') ∧
    x.reply = if ov.len ≠ 0 then some (patchPayloadSize ov).bytes else none

/-- What a step of a message job does with the message and the reply. -/
inductive MsgPos.Does (call : F → ZIPCComp F → ZBuf → ZBuf → Option (EZCRTErr × ZBuf × ZBuf))
    (module : ZIPCModule F E) (cb : G) (pos : MsgPos) (pool : BufPool)
    (mng : ZEvent G (Option Nat)) (respondSch : List SendJob) : JobAct → MsgRes G → Prop
  | parse {heap : Bool} {job : MsgJob} {obuf : Nat} {reply : Option (List UInt8)} {res : MsgRes G}
      (hpos : pos.parsing = some (job, obuf))
      (hwaiting : res.pos.elim [] MsgPos.waiting = [])
      (hreply : (res.pos.elim [] MsgPos.answer).map res.pool.letter =
        (reply.map (Letter.mk job.client)).toList)
      (hanswers : Exchange.Answers cb call module
        ⟨pool.request job, mng, heap, pool.bufs job.ibuf, pool.bufs obuf, reply⟩)
      (hsch : res.respondSch = respondSch) :
      Does call module cb pos pool mng respondSch (.parse heap) res
  | queue {res : MsgRes G} (hpos : pos.waiting = [])
      (hwaiting : res.pos.elim [] MsgPos.waiting = [])
      (hanswer : res.pos.elim [] MsgPos.answer = [])
      (hsch : res.respondSch = respondSch ++ pos.answer) (hpool : res.pool = pool) :
      Does call module cb pos pool mng respondSch (.sendjob false) res
  | keep {act : JobAct} {res : MsgRes G} (hparse : ∀ heap, act ≠ .parse heap)
      (hqueue : act ≠ .sendjob false) (hwaiting : res.pos.elim [] MsgPos.waiting = pos.waiting)
      (hanswer : res.pos.elim [] MsgPos.answer = []) (hsch : res.respondSch = respondSch)
      (hkeep : ∀ b, b ≠ pool.malloc.1 → res.pool.bufs b = pool.bufs b) :
      Does call module cb pos pool mng respondSch act res

theorem MsgPos.parsing_waiting {pos : MsgPos} {job : MsgJob} {obuf : Nat}
    (h : pos.parsing = some (job, obuf)) : pos.waiting = [job] ∧ pos.answer = [] := by
  cases pos with
  | got =>
      obtain ⟨rfl, -⟩ := Prod.mk.inj (Option.some.inj h)
      exact ⟨rfl, rfl⟩
  | _ => exact nomatch h

theorem MsgPos.step_does {pos : MsgPos} {act : JobAct} {ipc : Bool} {pool : BufPool}
    {mng : ZEvent G (Option Nat)} {respondSch : List SendJob} {res : MsgRes G}
    (h : pos.step dec cb call module act ipc pool mng respondSch = some res) :
    MsgPos.Does call module cb pos pool mng respondSch act res := by
  unfold step at h
  split at h
  · split at h
    · obtain rfl := Option.some.inj h
      exact .keep nofun nofun rfl rfl rfl fun b hb => pool.malloc_of_ne hb
    · exact nomatch h
  · rename_i job obuf heap
    split at h
    · obtain ⟨⟨iv, ov, evtMng⟩, happ, h⟩ := Option.bind_eq_some_iff.mp h
      obtain ⟨mng', rfl, h⟩ := Option.bind_eq_some_iff.mp h
      dsimp only at h
      split at h
      · rename_i hlen
        obtain rfl := Option.some.inj h
        have hanswers : Exchange.Answers cb call module ⟨pool.request job, mng, heap,
            pool.bufs job.ibuf, pool.bufs obuf, some (patchPayloadSize ov).bytes⟩ :=
          ⟨rfl, iv, ov, mng', happ, by rw [if_pos hlen]⟩
        refine .parse rfl rfl ?_ hanswers rfl
        change [BufPool.letter _ _] = [_]
        unfold BufPool.letter
        rw [BufPool.store_self]
      · rename_i hlen
        obtain rfl := Option.some.inj h
        have hanswers : Exchange.Answers cb call module
            ⟨pool.request job, mng, heap, pool.bufs job.ibuf, pool.bufs obuf, none⟩ :=
          ⟨rfl, iv, ov, mng', happ, by rw [if_neg hlen]⟩
        exact .parse rfl rfl rfl hanswers rfl
    · exact nomatch h
  · split at h
    · split at h
      · rename_i full hfull
        obtain rfl := Option.some.inj h
        subst hfull
        exact .keep nofun nofun rfl rfl rfl fun b _ => rfl
      · rename_i full hfull
        obtain rfl := Option.some.inj h
        obtain rfl := Bool.eq_false_of_not_eq_true hfull
        exact .queue rfl rfl rfl rfl rfl
    · exact nomatch h
  · obtain rfl := Option.some.inj h
    exact .keep nofun nofun rfl rfl rfl fun b _ => congrFun (pool.freeFor_bufs _ _) b
  · obtain rfl := Option.some.inj h
    exact .keep nofun nofun rfl rfl rfl fun b _ => congrFun (pool.freeFor_bufs _ _) b
  · obtain rfl := Option.some.inj h
    exact .keep nofun nofun rfl rfl rfl fun b _ => rfl
  · exact nomatch h

variable (encode module) in
/-- The letter is about one of the events, which was dispatched to a subscription of its client. -/
def Letter.Tells (events : List (Nat × UInt32 × D)) (x : Letter) : Prop :=
  ∃ (sn evtid : UInt32) (evtdata : D) (w v : ZBuf), (x.client, evtid, evtdata) ∈ events ∧
    zipcEncodeEvent encode (some module) sn evtid evtdata (zcrtBufClear w) = some (.success, v) ∧
    x.bytes = v.bytes

variable (encode module) in
/-- A callback has an event, and a buffer for it that is empty or tells of it. -/
def CbPos.Has (events : List (Nat × UInt32 × D)) (pool : BufPool) : CbPos D → Prop
  | .begun k evtid evtdata => (k, evtid, evtdata) ∈ events
  | .got k evtid evtdata buf =>
      (k, evtid, evtdata) ∈ events ∧ ∃ w, pool.bufs buf = zcrtBufClear w
  | .sending k buf => (pool.letter ⟨k, buf⟩).Tells encode module events
  | .giving .. => True

/-- What a callback's step does with the letter. -/
inductive CbPos.Does (encode : E → UInt32 → D → ZBuf → Option (EZCRTErr × ZBuf))
    (module : ZIPCModule F E) (events : List (Nat × UInt32 × D)) (pos : CbPos D) (pool : BufPool)
    (evtSch : List SendJob) : JobAct → CbRes D → Prop
  | queue {res : CbRes D} (hpos : res.pos = none) (hsch : res.evtSch = evtSch ++ pos.notice)
      (hpool : res.pool = pool)
      (htells : ∀ job ∈ pos.notice, (pool.letter job).Tells encode module events) :
      Does encode module events pos pool evtSch (.sendjob false) res
  | keep {act : JobAct} {res : CbRes D} (hqueue : act ≠ .sendjob false)
      (hsch : res.evtSch = evtSch)
      (hhas : ∀ pos ∈ res.pos, pos.Has encode module events res.pool) :
      Does encode module events pos pool evtSch act res

theorem CbPos.step_does {pos : CbPos D} {act : JobAct} {ipc : Bool} {pool : BufPool}
    {evtSch : List SendJob} {res : CbRes D} {events : List (Nat × UInt32 × D)}
    (h : pos.step encode module act ipc pool evtSch = some res)
    (hhas : pos.Has encode module events pool) :
    CbPos.Does encode module events pos pool evtSch act res := by
  unfold step at h
  split at h
  · split at h
    · obtain rfl := Option.some.inj h
      refine .keep nofun rfl fun pos hpos => ?_
      obtain rfl := Option.some.inj hpos
      exact ⟨hhas, pool.malloc_cleared⟩
    · exact nomatch h
  · split at h
    · obtain ⟨⟨ret, v⟩, henc, h⟩ := Option.bind_eq_some_iff.mp h
      dsimp only at h
      split at h
      · rename_i hret
        obtain rfl := Option.some.inj h
        refine .keep nofun rfl fun pos hpos => ?_
        obtain rfl := Option.some.inj hpos
        obtain ⟨hin, w, hw⟩ := hhas
        rw [hret, hw] at henc
        refine ⟨_, _, _, w, v, hin, henc, ?_⟩
        unfold BufPool.letter
        rw [BufPool.store_self]
      · obtain rfl := Option.some.inj h
        refine .keep nofun rfl fun pos hpos => ?_
        obtain rfl := Option.some.inj hpos
        trivial
    · exact nomatch h
  · split at h
    · split at h
      · rename_i full hfull
        obtain rfl := Option.some.inj h
        subst hfull
        refine .keep nofun rfl fun pos hpos => ?_
        obtain rfl := Option.some.inj hpos
        trivial
      · rename_i full hfull
        obtain rfl := Option.some.inj h
        obtain rfl := Bool.eq_false_of_not_eq_true hfull
        refine .queue rfl rfl rfl fun job hjob => ?_
        rw [List.mem_singleton.mp hjob]
        exact hhas
    · exact nomatch h
  · obtain rfl := Option.some.inj h
    exact .keep nofun rfl nofun
  · exact nomatch h

/-! ## The record and the server -/

variable (cb call module) in
/-- The messages: what a client has in its hands was received last, and is not among those
    accepted; what was accepted was received in this order, and was parsed or waits. -/
structure Asked (st : Server D G) (received : Nat → List Request) (accepted : List Request)
    (parsed : List (Exchange G)) : Prop where
  hands : ∀ k c buf appType, st.clients[k]? = some c → c.pos.hand = some (buf, appType) →
    (received k).getLast? = some ⟨k, appType, (st.pool.bufs buf).rest⟩ ∧
    (accepted.filter (·.client = k)).Sublist (received k).dropLast
  order : ∀ k, (accepted.filter (·.client = k)).Sublist (received k)
  requests : accepted = parsed.map Exchange.request ++ st.waiting.map st.pool.request
  answers : ∀ x ∈ parsed, x.Answers cb call module

/-- The replies: what was queued was written by the parser, in this order; it was taken or
    waits. -/
structure Replied (st : Server D G) (parsed : List (Exchange G)) (replied : List Letter)
    (taken : List (Bool × Letter)) : Prop where
  replies : (replied ++ st.answering.map st.pool.letter).Sublist (parsed.filterMap Exchange.letter)
  responds : replied = takenOff taken false ++ st.respondSch.map st.pool.letter

variable (encode module) in
/-- The events: likewise. -/
structure Told (st : Server D G) (events : List (Nat × UInt32 × D)) (told : List Letter)
    (taken : List (Bool × Letter)) : Prop where
  has : ∀ pos ∈ st.cbs, pos.Has encode module events st.pool
  tells : ∀ x ∈ told, x.Tells encode module events
  notices : told = takenOff taken true ++ st.evtSch.map st.pool.letter

/-- What was taken was sent, or is being sent. -/
def Sent (st : Server D G) (taken : List (Bool × Letter)) (out : List Letter) : Prop :=
  taken.map Prod.snd = out ++ st.sendRun.toList.map st.pool.letter

variable (cb call encode module) in
/-- The record fits what is on the way. -/
structure Carried (log : ServerLog D G) : Prop where
  bal : ∀ b, log.st.pool.bal b + ((log.st.held.count b : Nat) : Int) = 0
  asked : Asked cb call module log.st log.received log.accepted log.parsed
  replied : Replied log.st log.parsed log.replied log.taken
  told : Told encode module log.st log.events log.told log.taken
  sent : Sent log.st log.taken log.out

/-- A buffer that is the same before and after. -/
theorem BufPool.request_congr {pool pool' : BufPool} {jobs : List MsgJob}
    (h : ∀ job ∈ jobs, pool'.bufs job.ibuf = pool.bufs job.ibuf) :
    jobs.map pool'.request = jobs.map pool.request :=
  List.map_congr_left fun job hjob => by
    unfold request
    rw [h job hjob]

theorem BufPool.letter_congr {pool pool' : BufPool} {jobs : List SendJob}
    (h : ∀ job ∈ jobs, pool'.bufs job.buf = pool.bufs job.buf) :
    jobs.map pool'.letter = jobs.map pool.letter :=
  List.map_congr_left fun job hjob => by
    unfold letter
    rw [h job hjob]

omit [DecidableEq G] in
theorem CbPos.Has.congr {pos : CbPos D} {pool pool' : BufPool} {events : List (Nat × UInt32 × D)}
    (h : pos.Has encode module events pool) (hb : ∀ b ∈ pos.bufs, pool'.bufs b = pool.bufs b) :
    pos.Has encode module events pool' := by
  cases pos with
  | begun | giving => exact h
  | got k evtid evtdata buf =>
      obtain ⟨hin, w, hw⟩ := h
      exact ⟨hin, w, (hb buf List.mem_cons_self).trans hw⟩
  | sending k buf =>
      have hsame : pool'.letter ⟨k, buf⟩ = pool.letter ⟨k, buf⟩ := by
        unfold BufPool.letter
        rw [hb buf List.mem_cons_self]
      change (pool'.letter ⟨k, buf⟩).Tells encode module events
      rw [hsame]
      exact h

omit [DecidableEq G] in
theorem Letter.Tells.mono {x : Letter} {events : List (Nat × UInt32 × D)}
    (h : x.Tells encode module events) (more : List (Nat × UInt32 × D)) :
    x.Tells encode module (events ++ more) := by
  obtain ⟨sn, evtid, evtdata, w, v, hin, henc⟩ := h
  exact ⟨sn, evtid, evtdata, w, v, List.mem_append_left _ hin, henc⟩

omit [DecidableEq G] in
theorem CbPos.Has.mono {pos : CbPos D} {pool : BufPool} {events : List (Nat × UInt32 × D)}
    (h : pos.Has encode module events pool) (more : List (Nat × UInt32 × D)) :
    pos.Has encode module (events ++ more) pool := by
  cases pos with
  | begun => exact List.mem_append_left _ h
  | got => exact ⟨List.mem_append_left _ h.1, h.2⟩
  | sending => exact Letter.Tells.mono h more
  | giving => trivial

theorem CliPos.hand_bufs {pos : CliPos} {buf : Nat} {appType : UInt16}
    (h : pos.hand = some (buf, appType)) : buf ∈ pos.bufs := by
  cases pos with
  | received | counted =>
      obtain ⟨rfl, -⟩ := Prod.mk.inj (Option.some.inj h)
      exact List.mem_cons_self
  | _ => exact nomatch h

theorem MsgPos.waiting_bufs {pos : MsgPos} {job : MsgJob} (h : job ∈ pos.waiting) :
    job.ibuf ∈ pos.bufs := by
  cases pos with
  | begun | got =>
      rw [List.mem_singleton.mp h]
      exact List.mem_cons_self
  | _ => exact nomatch h

theorem MsgPos.answer_bufs {pos : MsgPos} {job : SendJob} (h : job ∈ pos.answer) :
    job.buf ∈ pos.bufs := by
  cases pos with
  | replying =>
      rw [List.mem_singleton.mp h]
      exact List.mem_cons_of_mem _ List.mem_cons_self
  | _ => exact nomatch h

/-- The contents that a step leaves. -/
structure Kept (st st' : Server D G) (act : ServerAct D) : Prop where
  sch : st.sch.map st'.pool.request = st.sch.map st.pool.request
  respondSch : st.respondSch.map st'.pool.letter = st.respondSch.map st.pool.letter
  evtSch : st.evtSch.map st'.pool.letter = st.evtSch.map st.pool.letter
  sendRun : st.sendRun.toList.map st'.pool.letter = st.sendRun.toList.map st.pool.letter
  msgRun : (∀ ipc jobAct, act ≠ .msg ipc jobAct) → ∀ pos ∈ st.msgRun,
    pos.waiting.map st'.pool.request = pos.waiting.map st.pool.request ∧
    pos.answer.map st'.pool.letter = pos.answer.map st.pool.letter
  hands : ∀ i c, (∀ cliAct, act ≠ .client i cliAct) → st.clients[i]? = some c →
    ∀ buf appType, c.pos.hand = some (buf, appType) →
    (st'.pool.bufs buf).rest = (st.pool.bufs buf).rest
  cbs : ∀ pos ∈ (st.quiet act).cbs, ∀ b ∈ pos.bufs, st'.pool.bufs b = st.pool.bufs b

theorem Server.step_kept {st st' : Server D G} {act : ServerAct D}
    (h : ∀ b, st.pool.bal b + ((st.held.count b : Nat) : Int) = 0)
    (hn : st.step inc dec cb call encode module act = some st') : Kept st st' act := by
  have hkeep : ∀ {b}, b ∈ (st.quiet act).held → st'.pool.bufs b = st.pool.bufs b := fun hb =>
    st.step_keeps h hn hb
  constructor
  · exact BufPool.request_congr fun job hjob => hkeep (quiet_sch hjob)
  · exact BufPool.letter_congr fun job hjob => hkeep (quiet_respondSch hjob)
  · exact BufPool.letter_congr fun job hjob => hkeep (quiet_evtSch hjob)
  · exact BufPool.letter_congr fun job hjob => hkeep (quiet_sendRun (Option.mem_toList.mp hjob))
  · intro hact pos hpos
    exact ⟨BufPool.request_congr fun job hjob =>
        hkeep (quiet_msgRun hact hpos (MsgPos.waiting_bufs hjob)),
      BufPool.letter_congr fun job hjob =>
        hkeep (quiet_msgRun hact hpos (MsgPos.answer_bufs hjob))⟩
  · intro i c hact hc buf appType hhand
    rw [hkeep (quiet_clients hact hc (CliPos.hand_bufs hhand))]
  · exact fun pos hpos b hb => hkeep (quiet_cbs hpos hb)

end Local

/-! ## Steps of others -/

section Frame

variable {F E D G : Type} {cb : G}
  {call : F → ZIPCComp F → ZBuf → ZBuf → Option (EZCRTErr × ZBuf × ZBuf)}
  {encode : E → UInt32 → D → ZBuf → Option (EZCRTErr × ZBuf)} {module : ZIPCModule F E}
  {st st' : Server D G} {act : ServerAct D} {parsed : List (Exchange G)}
  {replied told : List Letter} {taken : List (Bool × Letter)} {events : List (Nat × UInt32 × D)}
  {out : List Letter}

/-- The messages that wait, where this is not the step of their job. -/
theorem Kept.waiting (h : Kept st st' act) (hact : ∀ ipc jobAct, act ≠ .msg ipc jobAct) :
    st.waiting.map st'.pool.request = st.waiting.map st.pool.request := by
  unfold Server.waiting
  rw [List.map_append, List.map_append, h.sch]
  cases hrun : st.msgRun with
  | none => rfl
  | some pos => exact congrArg (· ++ _) (h.msgRun hact pos hrun).1

theorem Kept.answering (h : Kept st st' act) (hact : ∀ ipc jobAct, act ≠ .msg ipc jobAct) :
    st.answering.map st'.pool.letter = st.answering.map st.pool.letter := by
  unfold Server.answering
  cases hrun : st.msgRun with
  | none => rfl
  | some pos => exact (h.msgRun hact pos hrun).2

theorem Asked.frame [DecidableEq G] {received : Nat → List Request} {accepted : List Request}
    (h : Asked cb call module st received accepted parsed) (hkept : Kept st st' act)
    (hmsg : ∀ ipc jobAct, act ≠ .msg ipc jobAct) (hcli : ∀ i cliAct, act ≠ .client i cliAct)
    (hclients : st'.clients = st.clients) (hwaiting : st'.waiting = st.waiting) :
    Asked cb call module st' received accepted parsed := by
  refine ⟨fun k c buf appType hk hhand => ?_, h.order, ?_, h.answers⟩
  · rw [hclients] at hk
    rw [hkept.hands k c (hcli k) hk buf appType hhand]
    exact h.hands k c buf appType hk hhand
  · rw [hwaiting, hkept.waiting hmsg]
    exact h.requests

theorem Replied.frame (h : Replied st parsed replied taken) (hkept : Kept st st' act)
    (hmsg : ∀ ipc jobAct, act ≠ .msg ipc jobAct) (hanswering : st'.answering = st.answering)
    (hsch : st'.respondSch = st.respondSch) : Replied st' parsed replied taken := by
  refine ⟨?_, ?_⟩
  · rw [hanswering, hkept.answering hmsg]
    exact h.replies
  · rw [hsch, hkept.respondSch]
    exact h.responds

theorem Told.frame (h : Told encode module st events told taken) (hkept : Kept st st' act)
    (hquiet : (st.quiet act).cbs = st.cbs) (hcbs : st'.cbs = st.cbs)
    (hsch : st'.evtSch = st.evtSch) : Told encode module st' events told taken := by
  refine ⟨fun pos hpos => ?_, h.tells, ?_⟩
  · rw [hcbs] at hpos
    exact (h.has pos hpos).congr (hkept.cbs pos (hquiet ▸ hpos))
  · rw [hsch, hkept.evtSch]
    exact h.notices

theorem Sent.frame (h : Sent st taken out) (hkept : Kept st st' act)
    (hrun : st'.sendRun = st.sendRun) : Sent st' taken out := by
  unfold Sent
  rw [hrun, hkept.sendRun]
  exact h

end Frame

/-! ## A step of a client -/

section Client

variable {F E D G : Type} [DecidableEq G] {cb : G}
  {call : F → ZIPCComp F → ZBuf → ZBuf → Option (EZCRTErr × ZBuf × ZBuf)} {module : ZIPCModule F E}
  {st st' : Server D G} {received : Nat → List Request} {accepted : List Request}
  {parsed : List (Exchange G)} {k : Nat} {c c' : Client} {act : CliAct}

/-- The message in the hands of another client. -/
theorem Asked.others (h : Asked cb call module st received accepted parsed)
    (hkept : Kept st st' (.client k act)) (hclients : st'.clients = st.clients.set k c') {i : Nat}
    (hi : i ≠ k) {d : Client} {buf : Nat} {appType : UInt16} (hd : st'.clients[i]? = some d)
    (hhand : d.pos.hand = some (buf, appType)) :
    (received i).getLast? = some ⟨i, appType, (st'.pool.bufs buf).rest⟩ ∧
      (accepted.filter (·.client = i)).Sublist (received i).dropLast := by
  rw [hclients, List.getElem?_set_ne (Ne.symm hi)] at hd
  have hact : ∀ cliAct, (ServerAct.client k act : ServerAct D) ≠ .client i cliAct :=
    fun _ he => hi (ServerAct.client.inj he).1.symm
  rw [hkept.hands i d hact hd buf appType hhand]
  exact h.hands i d buf appType hd hhand

omit [DecidableEq G] in
theorem clients_self (hk : st.clients[k]? = some c) (hclients : st'.clients = st.clients.set k c')
    {d : Client} (hd : st'.clients[k]? = some d) : d = c' := by
  rw [hclients, List.getElem?_set_self (List.getElem?_eq_some_iff.mp hk).1] at hd
  exact (Option.some.inj hd).symm

/-- The requests, where nothing is queued. -/
theorem Asked.requests_kept (h : Asked cb call module st received accepted parsed)
    (hkept : Kept st st' (.client k act)) (hwaiting : st'.waiting = st.waiting) :
    accepted = parsed.map Exchange.request ++ st'.waiting.map st'.pool.request := by
  rw [hwaiting, hkept.waiting nofun]
  exact h.requests

/-- A message is received. -/
theorem Asked.recv (h : Asked cb call module st received accepted parsed)
    (hkept : Kept st st' (.client k act)) (hk : st.clients[k]? = some c)
    (hclients : st'.clients = st.clients.set k c') (hwaiting : st'.waiting = st.waiting)
    {buf : Nat} {appType : UInt16} (hpos : c'.pos = .received buf appType) :
    Asked cb call module st' (Function.update received k
      (received k ++ [⟨k, appType, (st'.pool.bufs buf).rest⟩])) accepted parsed := by
  refine ⟨fun i d buf' appType' hd hhand => ?_, fun i => ?_, h.requests_kept hkept hwaiting,
    h.answers⟩
  · by_cases hi : i = k
    · subst hi
      obtain rfl := clients_self hk hclients hd
      rw [hpos] at hhand
      obtain ⟨rfl, rfl⟩ := Prod.mk.inj (Option.some.inj hhand)
      rw [Function.update_self, List.getLast?_concat, List.dropLast_concat]
      exact ⟨rfl, h.order i⟩
    · rw [Function.update_of_ne hi]
      exact h.others hkept hclients hi hd hhand
  · by_cases hi : i = k
    · subst hi
      rw [Function.update_self]
      exact (h.order i).trans (List.sublist_append_left _ _)
    · rw [Function.update_of_ne hi]
      exact h.order i

/-- The message is queued. -/
theorem Asked.queue (h : Asked cb call module st received accepted parsed)
    (hkept : Kept st st' (.client k act)) (hk : st.clients[k]? = some c)
    (hclients : st'.clients = st.clients.set k c') (hpool : st'.pool = st.pool) {buf : Nat}
    {appType : UInt16} (hpos : c.pos.hand = some (buf, appType)) (hpos' : c'.pos.hand = none)
    (hwaiting : st'.waiting = st.waiting ++ [⟨k, buf, appType⟩]) :
    Asked cb call module st' received (accepted ++ (received k).getLast?.toList) parsed := by
  obtain ⟨hlast, hsub⟩ := h.hands k c buf appType hk hpos
  have hne : ∀ i, i ≠ k →
      [(⟨k, appType, (st.pool.bufs buf).rest⟩ : Request)].filter (·.client = i) = [] := by
    intro i hi
    refine List.filter_eq_nil_iff.mpr fun x hx => ?_
    rw [List.mem_singleton.mp hx]
    simpa using Ne.symm hi
  rw [hlast]
  change Asked cb call module st' received (accepted ++ [_]) parsed
  refine ⟨fun i d buf' appType' hd hhand => ?_, fun i => ?_, ?_, h.answers⟩
  · by_cases hi : i = k
    · subst hi
      obtain rfl := clients_self hk hclients hd
      exact nomatch hpos'.symm.trans hhand
    · rw [List.filter_append, hne i hi, List.append_nil]
      exact h.others hkept hclients hi hd hhand
  · rw [List.filter_append]
    by_cases hi : i = k
    · subst hi
      rw [← List.dropLast_append_getLast? _ hlast]
      exact hsub.append List.filter_sublist
    · rw [hne i hi, List.append_nil]
      exact h.order i
  · rw [hwaiting, List.map_append, hpool, h.requests, List.append_assoc]
    rfl

/-- The message stays where it is, if there is one. -/
theorem Asked.keepHand (h : Asked cb call module st received accepted parsed)
    (hkept : Kept st st' (.client k act)) (hk : st.clients[k]? = some c)
    (hclients : st'.clients = st.clients.set k c') (hwaiting : st'.waiting = st.waiting)
    (hhand : ∀ x, c'.pos.hand = some x → c.pos.hand = some x ∧ st'.pool = st.pool) :
    Asked cb call module st' received accepted parsed := by
  refine ⟨fun i d buf appType hd hd' => ?_, h.order, h.requests_kept hkept hwaiting, h.answers⟩
  by_cases hi : i = k
  · subst hi
    obtain rfl := clients_self hk hclients hd
    obtain ⟨hold, hpool⟩ := hhand _ hd'
    rw [hpool]
    exact h.hands i c buf appType hk hold
  · exact h.others hkept hclients hi hd hd'

end Client

/-! ## A step of the message job -/

section Msg

variable {F E D G : Type} [DecidableEq G] {cb : G}
  {call : F → ZIPCComp F → ZBuf → ZBuf → Option (EZCRTErr × ZBuf × ZBuf)} {module : ZIPCModule F E}
  {st st' : Server D G} {received : Nat → List Request} {accepted : List Request}
  {parsed : List (Exchange G)} {replied : List Letter} {taken : List (Bool × Letter)} {ipc : Bool}
  {act : JobAct} {pos : MsgPos} {pos' : Option MsgPos}

omit [DecidableEq G] in
theorem waiting_of_run (h : st.msgRun = some pos) : st.waiting = pos.waiting ++ st.sch := by
  unfold Server.waiting
  rw [h]
  rfl

omit [DecidableEq G] in
theorem answering_of_run (h : st.msgRun = some pos) : st.answering = pos.answer := by
  unfold Server.answering
  rw [h]
  rfl

/-- The messages in the hands of the clients, of which the job changes one, but not its place. -/
theorem Asked.hands_msg (h : Asked cb call module st received accepted parsed)
    (hkept : Kept st st' (.msg ipc act)) {g : Client → Client} (hg : ∀ c, (g c).pos = c.pos)
    {j : Nat} (hclients : st'.clients = st.clients.modify j g) {k : Nat} {c : Client} {buf : Nat}
    {appType : UInt16} (hk : st'.clients[k]? = some c) (hhand : c.pos.hand = some (buf, appType)) :
    (received k).getLast? = some ⟨k, appType, (st'.pool.bufs buf).rest⟩ ∧
      (accepted.filter (·.client = k)).Sublist (received k).dropLast := by
  rw [hclients, List.getElem?_modify] at hk
  obtain ⟨d, hd, rfl⟩ := Option.map_eq_some_iff.mp hk
  have hsame : (if j = k then g d else d).pos = d.pos := by
    split
    · exact hg d
    · rfl
  change (ite _ (g d) d).pos.hand = _ at hhand
  rw [hsame] at hhand
  rw [hkept.hands k d nofun hd buf appType hhand]
  exact h.hands k d buf appType hd hhand

/-- The message of the job goes to the parser. -/
theorem Asked.parse (h : Asked cb call module st received accepted parsed)
    (hkept : Kept st st' (.msg ipc act)) {g : Client → Client} (hg : ∀ c, (g c).pos = c.pos)
    {j : Nat} (hclients : st'.clients = st.clients.modify j g) (hrun : st.msgRun = some pos)
    {x : Exchange G} (hpos : pos.waiting.map st.pool.request = [x.request])
    (hwaiting : st'.waiting = st.sch) (hanswers : x.Answers cb call module) :
    Asked cb call module st' received accepted (parsed ++ [x]) := by
  refine ⟨fun k c buf appType hk hhand => h.hands_msg hkept hg hclients hk hhand, h.order, ?_,
    fun x hx => ?_⟩
  · rw [hwaiting, hkept.sch, h.requests, waiting_of_run hrun, List.map_append, List.map_append,
      hpos, List.append_assoc]
    rfl
  · rcases List.mem_append.mp hx with hx | hx
    · exact h.answers x hx
    · rw [List.mem_singleton.mp hx]
      exact hanswers

/-- The message of the job stays before the parser, or behind it. -/
theorem Asked.job (h : Asked cb call module st received accepted parsed)
    (hkept : Kept st st' (.msg ipc act)) {g : Client → Client} (hg : ∀ c, (g c).pos = c.pos)
    {j : Nat} (hclients : st'.clients = st.clients.modify j g) (hrun : st.msgRun = some pos)
    (hwaiting : st'.waiting = pos.waiting ++ st.sch)
    (hsame : pos.waiting.map st'.pool.request = pos.waiting.map st.pool.request) :
    Asked cb call module st' received accepted parsed := by
  refine ⟨fun k c buf appType hk hhand => h.hands_msg hkept hg hclients hk hhand, h.order, ?_,
    h.answers⟩
  rw [hwaiting, List.map_append, hkept.sch, hsame, h.requests, waiting_of_run hrun,
    List.map_append]

omit [DecidableEq G] in
/-- The reply is written. -/
theorem Replied.parse (h : Replied st parsed replied taken) (hkept : Kept st st' (.msg ipc act))
    (hrun : st.msgRun = some pos) (hnone : pos.answer = []) {x : Exchange G}
    (hanswering : st'.answering.map st'.pool.letter = x.letter.toList)
    (hsch : st'.respondSch = st.respondSch) : Replied st' (parsed ++ [x]) replied taken := by
  have hrep := h.replies
  rw [answering_of_run hrun, hnone, List.map_nil, List.append_nil] at hrep
  refine ⟨?_, ?_⟩
  · rw [hanswering, List.filterMap_append]
    refine hrep.append ?_
    rw [List.filterMap_cons, List.filterMap_nil]
    cases x.letter <;> exact List.Sublist.refl _
  · rw [hsch, hkept.respondSch]
    exact h.responds

omit [DecidableEq G] in
/-- The reply is queued. -/
theorem Replied.queue (h : Replied st parsed replied taken) (hanswering : st'.answering = [])
    (hsch : st'.respondSch = st.respondSch ++ st.answering) (hpool : st'.pool = st.pool) :
    Replied st' parsed (replied ++ st.answering.map st.pool.letter) taken := by
  refine ⟨?_, ?_⟩
  · rw [hanswering, List.map_nil, List.append_nil]
    exact h.replies
  · rw [hsch, hpool, List.map_append, ← List.append_assoc, ← h.responds]

omit [DecidableEq G] in
/-- The reply is dropped, if there was one. -/
theorem Replied.drop (h : Replied st parsed replied taken) (hkept : Kept st st' (.msg ipc act))
    (hanswering : st'.answering = []) (hsch : st'.respondSch = st.respondSch) :
    Replied st' parsed replied taken := by
  refine ⟨?_, ?_⟩
  · rw [hanswering, List.map_nil, List.append_nil]
    exact (List.sublist_append_left _ _).trans h.replies
  · rw [hsch, hkept.respondSch]
    exact h.responds

end Msg

/-! ## A step of the sender -/

section Send

variable {F E D G : Type} {encode : E → UInt32 → D → ZBuf → Option (EZCRTErr × ZBuf)}
  {module : ZIPCModule F E} {st st' : Server D G} {parsed : List (Exchange G)}
  {replied told : List Letter} {taken : List (Bool × Letter)} {events : List (Nat × UInt32 × D)}
  {out : List Letter} {job : SendJob} {evt : Bool}

theorem takenOff_snoc (taken : List (Bool × Letter)) (evt which : Bool) (x : Letter) :
    takenOff (taken ++ [(evt, x)]) which =
      takenOff taken which ++ if evt = which then [x] else [] := by
  unfold takenOff
  rw [List.filter_append, List.map_append]
  cases evt <;> cases which <;> rfl

/-- A letter is taken off its schedule. -/
theorem Replied.take (h : Replied st parsed replied taken) (hpool : st'.pool = st.pool)
    (hanswering : st'.answering = st.answering)
    (hsch : st.respondSch = (if evt = false then [job] else []) ++ st'.respondSch) :
    Replied st' parsed replied (taken ++ [(evt, st.pool.letter job)]) := by
  refine ⟨by rw [hanswering, hpool]; exact h.replies, ?_⟩
  rw [takenOff_snoc, hpool, h.responds, hsch, List.map_append, List.append_assoc]
  cases evt <;> rfl

theorem Told.take (h : Told encode module st events told taken) (hpool : st'.pool = st.pool)
    (hcbs : st'.cbs = st.cbs)
    (hsch : st.evtSch = (if evt = true then [job] else []) ++ st'.evtSch) :
    Told encode module st' events told (taken ++ [(evt, st.pool.letter job)]) := by
  refine ⟨by rw [hcbs, hpool]; exact h.has, h.tells, ?_⟩
  rw [takenOff_snoc, hpool, h.notices, hsch, List.map_append, List.append_assoc]
  cases evt <;> rfl

theorem Sent.take (h : Sent st taken out) (hpool : st'.pool = st.pool) (hrun : st.sendRun = none)
    (hrun' : st'.sendRun = some job) : Sent st' (taken ++ [(evt, st.pool.letter job)]) out := by
  unfold Sent at h ⊢
  rw [List.map_append, h, hrun, hrun', hpool, List.append_assoc]
  rfl

end Send

/-! ## One step -/

section Step

variable {F E D G : Type} [DecidableEq G] {inc dec : Int → Int} {cb : G}
  {call : F → ZIPCComp F → ZBuf → ZBuf → Option (EZCRTErr × ZBuf × ZBuf)}
  {encode : E → UInt32 → D → ZBuf → Option (EZCRTErr × ZBuf)} {module : ZIPCModule F E}
  {log : ServerLog D G} {st' : Server D G}

theorem Carried.client (h : Carried cb call encode module log) {k : Nat} {act : CliAct}
    (hlen : ∀ appType payload, act = .recv appType payload → payload.length < 2 ^ 32)
    (hbal : ∀ b, st'.pool.bal b + ((st'.held.count b : Nat) : Int) = 0)
    (hn : log.st.step inc dec cb call encode module (.client k act) = some st') :
    Carried cb call encode module { log.note st' (.client k act) with st := st' } := by
  have hkept := Server.step_kept h.bal hn
  obtain ⟨c, hk, hn⟩ := Option.bind_eq_some_iff.mp hn
  obtain ⟨res, hres, hn⟩ := Option.bind_eq_some_iff.mp hn
  obtain rfl := Option.some.inj hn
  have hrest : ∀ {received accepted}, Asked cb call module _ received accepted log.parsed →
      Carried cb call encode module { log with
        st := _, received := received, accepted := accepted } := fun hasked =>
    ⟨hbal, hasked, h.replied.frame hkept nofun rfl rfl, h.told.frame hkept rfl rfl rfl,
      h.sent.frame hkept rfl⟩
  cases c.step_hands hres with
  | @recv appType payload buf v _ hpos hpool hsch =>
      have hnat : (UInt32.ofNat payload.length).toNat = payload.length :=
        UInt32.toNat_ofNat_of_lt' (hlen _ _ rfl)
      have hbytes : (res.pool.bufs buf).rest = payload := by
        rw [hpool, BufPool.store_self]
        unfold ZBuf.rest
        dsimp only
        rw [hnat]
        exact Mem.slice_copy_self _ 0 payload
      have hasked := h.asked.recv hkept hk rfl (congrArg (_ ++ ·) hsch) hpos
      dsimp only at hasked
      rw [hbytes] at hasked
      exact hrest hasked
  | @queue buf appType _ hpos hpos' hsch hpool =>
      refine hrest (h.asked.queue hkept hk rfl hpool hpos hpos' ?_)
      unfold Server.waiting
      rw [List.append_assoc, ← hsch]
  | keep hrecv hqueue hsch hhand =>
      rw [ServerLog.note_client hrecv hqueue]
      exact hrest (h.asked.keepHand hkept hk rfl (congrArg (_ ++ ·) hsch) hhand)

theorem Carried.msg (h : Carried cb call encode module log) {ipc : Bool} {act : JobAct}
    (hbal : ∀ b, st'.pool.bal b + ((st'.held.count b : Nat) : Int) = 0)
    (hn : log.st.step inc dec cb call encode module (.msg ipc act) = some st') :
    Carried cb call encode module { log.note st' (.msg ipc act) with st := st' } := by
  have hkept := Server.step_kept h.bal hn
  have hmalloc := Server.malloc_not_held h.bal
  obtain ⟨pos, hpos, hn⟩ := Option.bind_eq_some_iff.mp hn
  obtain ⟨res, hres, hn⟩ := Option.bind_eq_some_iff.mp hn
  obtain rfl := Option.some.inj hn
  have hrest : ∀ {parsed replied}, Asked cb call module _ log.received log.accepted parsed →
      Replied _ parsed replied log.taken → Carried cb call encode module { log with
        st := _, parsed := parsed, replied := replied } := fun hasked hreplied =>
    ⟨hbal, hasked, hreplied, h.told.frame hkept rfl rfl rfl, h.sent.frame hkept rfl⟩
  have hg := MsgPos.step_client hres
  cases pos.step_does hres with
  | @parse heap job obuf reply _ hparsing hwaiting' hreply hanswers hsch =>
      obtain ⟨hwaiting, hnone⟩ := MsgPos.parsing_waiting hparsing
      have hhead : (res.pos.elim [] MsgPos.answer).head?.map (fun job =>
          (res.pool.bufs job.buf).bytes) = reply := by
        have hbytes := congrArg (fun l => l.head?.map Letter.bytes) hreply
        rw [List.head?_map, Option.map_map] at hbytes
        refine hbytes.trans ?_
        cases reply <;> rfl
      have hnote : ∀ {st' : Server D G}, st'.msgRun = res.pos → st'.pool = res.pool →
          log.note st' (.msg ipc (.parse heap)) = { log with
            parsed := log.parsed ++ [log.st.exchange heap reply (job, obuf)] } := by
        intro st' hrun hpool
        unfold ServerLog.note Server.answering
        rw [hpos, Option.bind_some, hparsing, hrun, hpool, ← hhead]
        rfl
      rw [hnote rfl rfl]
      exact hrest (h.asked.parse hkept hg rfl hpos (congrArg (List.map _) hwaiting)
          (congrArg (· ++ _) hwaiting') hanswers)
        (h.replied.parse hkept hpos hnone hreply hsch)
  | queue hwaiting hwaiting' hanswer hsch hpool =>
      rw [← answering_of_run hpos] at hsch
      refine hrest (h.asked.job hkept hg rfl hpos ?_ ?_) (h.replied.queue hanswer hsch hpool)
      · rw [hwaiting]
        exact congrArg (· ++ _) hwaiting'
      · rw [hwaiting]
        rfl
  | keep hparse hqueue hwaiting hanswer hsch hkeep =>
      have hsame : pos.waiting.map res.pool.request = pos.waiting.map log.st.pool.request :=
        BufPool.request_congr fun job hjob => hkeep _ fun he => hmalloc <| by
          have hin : job.ibuf ∈ log.st.msgRun.elim [] MsgPos.bufs := by
            rw [hpos]
            exact MsgPos.waiting_bufs hjob
          rw [← he]
          unfold Server.held
          simp only [List.mem_append, hin, true_or, or_true]
      rw [ServerLog.note_msg hparse hqueue]
      exact hrest (h.asked.job hkept hg rfl hpos (congrArg (· ++ _) hwaiting) hsame)
        (h.replied.drop hkept hanswer hsch)

/-- A step of the innermost callback. -/
theorem Carried.callback (h : Carried cb call encode module log) {ipc : Bool} {act : JobAct}
    (hbal : ∀ b, st'.pool.bal b + ((st'.held.count b : Nat) : Int) = 0)
    (hn : log.st.step inc dec cb call encode module (.callback ipc act) = some st') :
    Carried cb call encode module { log.note st' (.callback ipc act) with st := st' } := by
  have hkept := Server.step_kept h.bal hn
  unfold Server.step Server.callbackStep at hn
  dsimp only at hn
  split at hn
  · exact nomatch hn
  · rename_i pos cbs hcbs
    obtain ⟨res, hres, hn⟩ := Option.bind_eq_some_iff.mp hn
    obtain rfl := Option.some.inj hn
    have hrest : ∀ {told}, Told encode module _ log.events told log.taken →
        Carried cb call encode module { log with st := _, told := told } := fun htold =>
      ⟨hbal, h.asked.frame hkept nofun nofun rfl rfl, h.replied.frame hkept nofun rfl rfl, htold,
        h.sent.frame hkept rfl⟩
    have hcons : ∀ p ∈ cbs, p.Has encode module log.events res.pool := fun p hp => by
      have hin : p ∈ (log.st.quiet (.callback ipc act)).cbs := by
        unfold Server.quiet
        rw [hcbs]
        exact hp
      exact (h.told.has p (by rw [hcbs]; exact List.mem_cons_of_mem _ hp)).congr
        (hkept.cbs p hin)
    have hnot := h.told.notices
    rw [← hkept.evtSch] at hnot
    cases pos.step_does hres (h.told.has pos (by rw [hcbs]; exact List.mem_cons_self)) with
    | queue hpos hsch hpool htells =>
        have hnotice : log.st.notifying = pos.notice := by
          unfold Server.notifying
          rw [hcbs]
          rfl
        change Carried cb call encode module { log with
          st := _, told := log.told ++ log.st.notifying.map log.st.pool.letter }
        rw [hnotice]
        refine hrest ⟨fun p hp => ?_, fun x hx => ?_, ?_⟩
        · dsimp only at hp
          rw [hpos] at hp
          exact hcons p hp
        · rcases List.mem_append.mp hx with hx | hx
          · exact h.told.tells x hx
          · obtain ⟨job, hjob, rfl⟩ := List.mem_map.mp hx
            exact htells job hjob
        · dsimp only
          rw [hsch, List.map_append, ← List.append_assoc, ← hnot, hpool]
    | keep hqueue hsch hhas =>
        rw [ServerLog.note_callback hqueue]
        refine hrest ⟨fun p hp => ?_, h.told.tells, ?_⟩
        · rcases List.mem_append.mp hp with hp | hp
          · exact hhas p (Option.mem_toList.mp hp)
          · exact hcons p hp
        · dsimp only
          rw [hsch]
          exact hnot

/-- The sender takes a letter. -/
theorem Carried.takeSend (h : Carried cb call encode module log) {evt : Bool}
    (hbal : ∀ b, st'.pool.bal b + ((st'.held.count b : Nat) : Int) = 0)
    (hn : log.st.step inc dec cb call encode module (.takeSend evt) = some st') :
    Carried cb call encode module { log.note st' (.takeSend evt) with st := st' } := by
  have hkept := Server.step_kept h.bal hn
  unfold Server.step Server.takeSendStep at hn
  dsimp only at hn
  split at hn
  · rename_i job respondSch hrun hsch
    obtain rfl := Option.some.inj hn
    exact ⟨hbal, h.asked.frame hkept nofun nofun rfl rfl, h.replied.take rfl rfl hsch,
      h.told.take rfl rfl rfl, h.sent.take rfl hrun rfl⟩
  · rename_i job evtSch hrun hsch
    obtain rfl := Option.some.inj hn
    exact ⟨hbal, h.asked.frame hkept nofun nofun rfl rfl, h.replied.take rfl rfl rfl,
      h.told.take rfl rfl hsch, h.sent.take rfl hrun rfl⟩
  · exact nomatch hn

/-- The other steps move a job, or add a client or a callback. -/
theorem Carried.other (h : Carried cb call encode module log) {act : ServerAct D}
    (hact : act = .accept ∨ (∃ evtid, act = .lastEvtid evtid) ∨ act = .takeMsg ∨
      (∃ ipc, act = .send ipc) ∨ ∃ k evtid evtdata, act = .event k evtid evtdata)
    (hbal : ∀ b, st'.pool.bal b + ((st'.held.count b : Nat) : Int) = 0)
    (hn : log.st.step inc dec cb call encode module act = some st') :
    Carried cb call encode module { log.note st' act with st := st' } := by
  have hkept := Server.step_kept h.bal hn
  rcases hact with rfl | ⟨evtid, rfl⟩ | rfl | ⟨ipc, rfl⟩ | ⟨k, evtid, evtdata, rfl⟩
  · obtain rfl := Option.some.inj hn
    refine ⟨hbal, ⟨fun k c buf appType hk hhand => ?_, h.asked.order, h.asked.requests,
      h.asked.answers⟩, ⟨h.replied.replies, h.replied.responds⟩,
      ⟨h.told.has, h.told.tells, h.told.notices⟩, h.sent⟩
    unfold Server.acceptStep at hk
    dsimp only at hk
    rw [List.getElem?_append] at hk
    split at hk
    · exact h.asked.hands k c buf appType hk hhand
    · -- the new client has nothing in its hands
      rw [List.getElem?_singleton] at hk
      split at hk
      · obtain rfl := Option.some.inj hk
        exact nomatch hhand
      · exact nomatch hk
  · obtain rfl := Option.some.inj hn
    exact ⟨hbal, h.asked.frame hkept nofun nofun rfl rfl, h.replied.frame hkept nofun rfl rfl,
      h.told.frame hkept rfl rfl rfl, h.sent.frame hkept rfl⟩
  · unfold Server.step Server.takeMsgStep at hn
    dsimp only at hn
    split at hn
    · rename_i job sch hrun hsch
      obtain rfl := Option.some.inj hn
      have hwaiting : job :: sch = log.st.waiting := by
        unfold Server.waiting
        rw [hrun, hsch]
        rfl
      have hanswering : [] = log.st.answering := by
        unfold Server.answering
        rw [hrun]
        rfl
      exact ⟨hbal, h.asked.frame hkept nofun nofun rfl hwaiting,
        h.replied.frame hkept nofun hanswering rfl, h.told.frame hkept rfl rfl rfl,
        h.sent.frame hkept rfl⟩
    · exact nomatch hn
  · obtain ⟨job, -, hn⟩ := Option.bind_eq_some_iff.mp hn
    obtain rfl := Option.some.inj hn
    refine ⟨hbal, h.asked.frame hkept nofun nofun rfl rfl, h.replied.frame hkept nofun rfl rfl,
      h.told.frame hkept rfl rfl rfl, ?_⟩
    change log.taken.map Prod.snd = log.out ++ log.st.sendRun.toList.map log.st.pool.letter ++ []
    rw [List.append_nil]
    exact h.sent
  · unfold Server.step Server.eventStep at hn
    dsimp only at hn
    split at hn
    · exact nomatch hn
    · obtain rfl := Option.some.inj hn
      refine ⟨hbal, h.asked.frame hkept nofun nofun rfl rfl, h.replied.frame hkept nofun rfl rfl,
        ⟨fun pos hpos => ?_, fun x hx => (h.told.tells x hx).mono _, h.told.notices⟩,
        h.sent.frame hkept rfl⟩
      rcases List.mem_cons.mp hpos with rfl | hpos
      · exact List.mem_append_right _ List.mem_cons_self
      · exact (h.told.has pos hpos).mono _

end Step

/-! ## Along a run -/

/-- A message is as short as `_zipc_client_recv_hdr` has it. -/
def ServerAct.short {D : Type} : ServerAct D → Bool
  | .client _ (.recv _ payload) => payload.length < ZIPC_BUF_LEN.toNat
  | _ => true

/-- No step reads a client that was freed, and no message is too long. -/
def ServerLog.Fits {D G : Type} (log : ServerLog D G) (act : ServerAct D) : Prop :=
  log.st.ReadsLive act ∧ act.short = true

instance {D G : Type} (log : ServerLog D G) (act : ServerAct D) : Decidable (log.Fits act) :=
  inferInstanceAs (Decidable (_ ∧ _))

section Run

variable {F E D G : Type} [DecidableEq G] {inc dec : Int → Int} {cb : G}
  {call : F → ZIPCComp F → ZBuf → ZBuf → Option (EZCRTErr × ZBuf × ZBuf)}
  {encode : E → UInt32 → D → ZBuf → Option (EZCRTErr × ZBuf)} {module : ZIPCModule F E}
  {log : ServerLog D G}

theorem carried_init (h : (serverLogSys inc dec cb call encode module).init log) :
    Carried cb call encode module log := by
  obtain ⟨⟨-, hfree, hfresh, hclients, hsch, hrespond, hevt, hmsg, hsend, hcbs⟩, -, hacc, hparsed,
    hreplied, hevents, htold, htaken, hout⟩ := h
  refine ⟨fun b => ?_, ⟨fun k c buf appType hk => ?_, fun k => ?_, ?_, fun x hx => ?_⟩,
    ⟨?_, ?_⟩,
    ⟨fun pos hpos => ?_, fun x hx => ?_, ?_⟩, ?_⟩
  · unfold BufPool.bal Server.held
    rw [hfree, hfresh, hclients, hsch, hrespond, hevt, hmsg, hsend, hcbs]
    rfl
  · rw [hclients] at hk
    exact nomatch hk
  · rw [hacc]
    exact List.nil_sublist _
  · unfold Server.waiting
    rw [hacc, hparsed, hmsg, hsch]
    rfl
  · rw [hparsed] at hx
    exact nomatch hx
  · unfold Server.answering
    rw [hreplied, hparsed, hmsg]
    exact List.Sublist.refl _
  · rw [hreplied, htaken, hrespond]
    rfl
  · rw [hcbs] at hpos
    exact nomatch hpos
  · rw [htold] at hx
    exact nomatch hx
  · rw [htold, htaken, hevt]
    rfl
  · unfold Sent
    rw [htaken, hout, hsend]
    rfl

theorem carried_of_reach
    (h : (serverLogSys inc dec cb call encode module).Reach ServerLog.Fits log) :
    Carried cb call encode module log := by
  refine h.invariant (I := Carried cb call encode module) (fun log hinit => carried_init hinit)
    fun log act log' hinv hc hn => ?_
  obtain ⟨st', hstep, rfl⟩ := Option.map_eq_some_iff.mp hn
  obtain ⟨hlive, hshort⟩ := hc
  have hbal := fun b => (Server.step_conserves hlive hstep b).trans (hinv.bal b)
  cases act with
  | client k act =>
      refine hinv.client (fun appType payload hact => ?_) hbal hstep
      subst hact
      exact Nat.lt_trans (of_decide_eq_true hshort) (by decide)
  | msg => exact hinv.msg hbal hstep
  | callback => exact hinv.callback hbal hstep
  | takeSend => exact hinv.takeSend hbal hstep
  | accept => exact hinv.other (Or.inl rfl) hbal hstep
  | lastEvtid evtid => exact hinv.other (Or.inr (Or.inl ⟨evtid, rfl⟩)) hbal hstep
  | takeMsg => exact hinv.other (Or.inr (Or.inr (Or.inl rfl))) hbal hstep
  | send ipc => exact hinv.other (Or.inr (Or.inr (Or.inr (Or.inl ⟨ipc, rfl⟩)))) hbal hstep
  | event k evtid evtdata =>
      exact hinv.other (Or.inr (Or.inr (Or.inr (Or.inr ⟨k, evtid, evtdata, rfl⟩)))) hbal hstep

/-- What is sent from `respondSch` are the replies as they were written, each to the client of its
    message, no one twice, and in the order of the messages. -/
theorem replies_inOrder
    (h : (serverLogSys inc dec cb call encode module).Reach ServerLog.Fits log) :
    log.out <+: log.taken.map Prod.snd ∧ takenOff log.taken false <+: log.replied ∧
      log.replied.Sublist (log.parsed.filterMap Exchange.letter) := by
  have hinv := carried_of_reach h
  refine ⟨⟨_, hinv.sent.symm⟩, ⟨_, hinv.replied.responds.symm⟩, ?_⟩
  exact (List.sublist_append_left _ _).trans hinv.replied.replies

/-- What is sent from `evtSch` are the letters that the callbacks queued, in that order, and each
    tells its client of an event it had subscribed to. -/
theorem events_inOrder
    (h : (serverLogSys inc dec cb call encode module).Reach ServerLog.Fits log) :
    log.out <+: log.taken.map Prod.snd ∧ takenOff log.taken true <+: log.told ∧
      ∀ x ∈ log.told, x.Tells encode module log.events := by
  have hinv := carried_of_reach h
  exact ⟨⟨_, hinv.sent.symm⟩, ⟨_, hinv.told.notices.symm⟩, hinv.told.tells⟩

end Run

/-! ## A client that asks, and is told -/

abbrev byteLog : Sys (ServerLog UInt8 Unit) (ServerAct UInt8) :=
  serverLogSys (· + 1) (· - 1) () nilHandler encodeByte byteModule

def newLog : ServerLog UInt8 Unit :=
  { st := newServer, received := fun _ => [], accepted := [], parsed := [], replied := [],
    events := [], told := [], taken := [], out := [] }

/-- After its first request the client hooks event 7, which is then sent. The letter about it goes
    out before the replies. -/
def askedAndTold : List (ServerAct UInt8) :=
  requested ++ [.client 0 (.recv ZEIPC_TYPE_LINK hookSeven.bytes), .client 0 .go,
    .client 0 (.sendjob false), .takeMsg, .msg false .go, .msg false (.parse true),
    .msg false (.sendjob false), .msg false .go, .event 0 7 9, .callback false .go,
    .callback false (.encode 5), .callback false (.sendjob false), .takeSend true, .send false,
    .takeSend false, .send false]

theorem askedAndTold_reached : ∃ log : ServerLog UInt8 Unit, byteLog.Reach ServerLog.Fits log ∧
    log.accepted.length = 2 ∧ log.parsed.length = 2 ∧ log.replied.length = 2 ∧
    log.told.length = 1 ∧ log.out.length = 2 := by
  have hinit : byteLog.Reach ServerLog.Fits newLog :=
    Sys.Reach.init ⟨newServer_init, rfl, rfl, rfl, rfl, rfl, rfl, rfl, rfl⟩
  obtain ⟨log, hreach, hp⟩ := Sys.reach_of_run (c := fun log act => decide (log.Fits act))
    (p := fun log => decide (log.accepted.length = 2 ∧ log.parsed.length = 2 ∧
      log.replied.length = 2 ∧ log.told.length = 1 ∧ log.out.length = 2))
    (fun _ _ => of_decide_eq_true) hinit askedAndTold (by decide +kernel)
  exact ⟨log, hreach, of_decide_eq_true hp⟩

theorem replies_inOrder_two : ∃ log : ServerLog UInt8 Unit, log.replied.length = 2 ∧
    log.out.length = 2 ∧ log.out <+: log.taken.map Prod.snd ∧
    takenOff log.taken false <+: log.replied ∧
    log.replied.Sublist (log.parsed.filterMap Exchange.letter) := by
  obtain ⟨log, hreach, -, -, hreplied, -, hout⟩ := askedAndTold_reached
  exact ⟨log, hreplied, hout, replies_inOrder hreach⟩

theorem events_inOrder_one : ∃ log : ServerLog UInt8 Unit, log.told.length = 1 ∧
    log.out.length = 2 ∧ log.out <+: log.taken.map Prod.snd ∧ takenOff log.taken true <+: log.told ∧
    ∀ x ∈ log.told, x.Tells encodeByte byteModule log.events := by
  obtain ⟨log, hreach, -, -, -, htold, hout⟩ := askedAndTold_reached
  exact ⟨log, htold, hout, events_inOrder hreach⟩

end Zcrt
