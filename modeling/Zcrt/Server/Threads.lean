/-
  The user-space server (`zipc/zipc_server_os.c`) as a system of threads: one for each client, one
  that takes the received messages off `sch`, one that sends what is on `respondSch` and `evtSch`,
  and the event callbacks of whatever thread sends an event.

  * `Client`, `MsgPos`, `SendJob`, `CbPos`: where each of them is, and the buffers it has.
  * `Server.step`: a step is a call of the buffer pool, of a schedule, of the event manager or of a
    counter, or the code between two of these.
  * `serverSys`: the steps in any order.

  A client that was freed is read from all the same: `client->ipc` is then what the memory holds.
  Callbacks run under the mutex of the event manager, so that those in progress are of one thread
  and nested. A handler's own events are callbacks before or after its step.
-/
import Zcrt.Lib.Steps
import Zcrt.Ipc.BufPool
import Zcrt.Ipc.CbSubs
import Zcrt.Server.EvtMsg

namespace Zcrt

open Lib

/-! ## The threads -/

/-- Where `_zipc_client_thread` is, with its `buf` while that is its own. -/
inductive CliPos
  | start
  | top (buf : Nat)
  | received (buf : Nat) (appType : UInt16)
  | counted (buf : Nat) (appType : UInt16)
  | refused (buf : Nat)
  | uncounted (buf : Nat)
  | handed
  | left (buf : Nat)
  | cleaning (buf : Nat) (i : UInt32)
  | closing
  | freed
deriving DecidableEq

/-- `_zstZIPCClient`. -/
structure Client where
  pos : CliPos
  isEventHooked : Bool
  jobcnt : Int

/-- The arguments of a queued `_zipc_msg_proc_job`; a client is named by its number. -/
structure MsgJob where
  client : Nat
  ibuf : Nat
  appType : UInt16

/-- The arguments of a queued `_zipc_buf_send_job`. -/
structure SendJob where
  client : Nat
  buf : Nat

/-- Where `_zipc_msg_proc_job` is: before `zipc_buf_malloc`, the parser, `zcrt_schedule_sendjob`,
    the release of `obuf`, that of `ibuf`, and `zcrt_atom_dec`. -/
inductive MsgPos
  | begun (job : MsgJob)
  | got (job : MsgJob) (obuf : Nat)
  | replying (job : MsgJob) (obuf : Nat)
  | giving (job : MsgJob) (obuf : Nat)
  | closing (job : MsgJob)
  | counting (client : Nat)

/-- Where `_zipc_hookevent_cb` is: before `zipc_buf_malloc`, the encoder, `zcrt_schedule_sendjob`,
    and the release of `buf`. -/
inductive CbPos (D : Type)
  | begun (client : Nat) (evtid : UInt32) (evtdata : D)
  | got (client : Nat) (evtid : UInt32) (evtdata : D) (buf : Nat)
  | sending (client : Nat) (buf : Nat)
  | giving (client : Nat) (buf : Nat)

def MsgPos.client : MsgPos → Nat
  | .begun job => job.client
  | .got job _ => job.client
  | .replying job _ => job.client
  | .giving job _ => job.client
  | .closing job => job.client
  | .counting client => client

def CbPos.client {D : Type} : CbPos D → Nat
  | .begun client _ _ => client
  | .got client _ _ _ => client
  | .sending client _ => client
  | .giving client _ => client

/-- The server: buffers, subscriptions, clients, the three schedules, the job each worker runs, and
    the callbacks in progress, the innermost first. -/
structure Server (D G : Type) where
  pool : BufPool
  mng : ZEvent G (Option Nat)
  clients : List Client
  sch : List MsgJob
  respondSch : List SendJob
  evtSch : List SendJob
  msgRun : Option MsgPos
  sendRun : Option SendJob
  cbs : List (CbPos D)

/-- What a client's thread does next, where that is not determined: it receives a message, or leaves
    the loop; the schedule is full or not. -/
inductive CliAct
  | go
  | recv (appType : UInt16) (payload : List UInt8)
  | leave
  | sendjob (full : Bool)

/-- Likewise of the workers and the callbacks: the memory for a node of the event manager, the
    serial number of an event. -/
inductive JobAct
  | go
  | parse (heap : Bool)
  | encode (sn : UInt32)
  | sendjob (full : Bool)

/-- The steps. `ipc` is whether a freed client's memory still holds the address of the server. -/
inductive ServerAct (D : Type)
  | accept
  | client (k : Nat) (act : CliAct)
  | lastEvtid (evtid : UInt32)
  | takeMsg
  | msg (ipc : Bool) (act : JobAct)
  | takeSend (evt : Bool)
  | send (ipc : Bool)
  | event (k : Nat) (evtid : UInt32) (evtdata : D)
  | callback (ipc : Bool) (act : JobAct)

section Steps

variable {F E D G : Type} [DecidableEq G]

/-! ## The clients -/

/-- What a client's thread leaves: the client, the buffers, the event manager and `sch`. -/
structure CliRes (G : Type) where
  client : Client
  pool : BufPool
  mng : ZEvent G (Option Nat)
  sch : List MsgJob

/-- `_zipc_client_thread` of client `k`. `inc` and `dec` are `zcrt_atom_inc` and `zcrt_atom_dec`;
    `idle` is that no callback runs, for which the mutex of the event manager is another
    thread's. -/
def Client.step (inc dec : Int → Int) (cb : G) (k : Nat) (c : Client) (act : CliAct) (idle : Bool)
    (pool : BufPool) (mng : ZEvent G (Option Nat)) (sch : List MsgJob) : Option (CliRes G) :=
  match c.pos, act with
  | .start, .go => some ⟨{ c with pos := .top pool.malloc.1 }, pool.malloc.2, mng, sch⟩
  | .top buf, .recv appType payload =>
      (zcrtBufRealloc (pool.bufs buf) (UInt32.ofNat payload.length)).map fun v =>
        ⟨{ c with pos := .received buf appType },
          pool.store buf { v with
            buf := v.buf.copy 0 payload, len := UInt32.ofNat payload.length, offset := 0 },
          mng, sch⟩
  | .top buf, .leave => some ⟨{ c with pos := .left buf }, pool, mng, sch⟩
  | .received buf appType, .go =>
      some ⟨{ c with pos := .counted buf appType, jobcnt := inc c.jobcnt }, pool, mng, sch⟩
  | .counted buf appType, .sendjob full =>
      if full then some ⟨{ c with pos := .refused buf }, pool, mng, sch⟩
      else some ⟨{ c with pos := .handed }, pool, mng, sch ++ [⟨k, buf, appType⟩]⟩
  | .refused buf, .go =>
      some ⟨{ c with pos := .uncounted buf, jobcnt := dec c.jobcnt }, pool, mng, sch⟩
  | .uncounted buf, .go => some ⟨{ c with pos := .handed }, pool.free buf, mng, sch⟩
  | .handed, .go => some ⟨{ c with pos := .top pool.malloc.1 }, pool.malloc.2, mng, sch⟩
  | .left buf, .go =>
      if c.jobcnt = 0 then
        some ⟨{ c with pos := .cleaning buf (if c.isEventHooked then 1 else ZCRT_MAX_EVT) }, pool,
          mng, sch⟩
      else none
  | .cleaning buf i, .go =>
      if i < ZCRT_MAX_EVT then
        if idle then do
          let mng ← (← zcrtEventUnregister (some mng) i (some cb) (some k) none)
          some ⟨{ c with pos := .cleaning buf (i + 1) }, pool, mng, sch⟩
        else none
      else some ⟨{ c with pos := .closing }, pool.free buf, mng, sch⟩
  | .closing, .go => some ⟨{ c with pos := .freed }, pool, mng, sch⟩
  | _, _ => none

/-- The steps of a client's thread. -/
inductive Client.Step (inc dec : Int → Int) (cb : G) (k : Nat) (c : Client) (pool : BufPool)
    (mng : ZEvent G (Option Nat)) (sch : List MsgJob) : CliAct → Bool → CliRes G → Prop
  | malloc {act : CliAct} {idle : Bool} (hpos : c.pos = .start ∨ c.pos = .handed) :
      Step inc dec cb k c pool mng sch act idle
        ⟨{ c with pos := .top pool.malloc.1 }, pool.malloc.2, mng, sch⟩
  | recv {act : CliAct} {idle : Bool} {buf : Nat} {appType : UInt16} {v : ZBuf}
      (hpos : c.pos = .top buf) :
      Step inc dec cb k c pool mng sch act idle
        ⟨{ c with pos := .received buf appType }, pool.store buf v, mng, sch⟩
  | leave {act : CliAct} {idle : Bool} {buf : Nat} (hpos : c.pos = .top buf) :
      Step inc dec cb k c pool mng sch act idle ⟨{ c with pos := .left buf }, pool, mng, sch⟩
  | count {act : CliAct} {idle : Bool} {buf : Nat} {appType : UInt16}
      (hpos : c.pos = .received buf appType) :
      Step inc dec cb k c pool mng sch act idle
        ⟨{ c with pos := .counted buf appType, jobcnt := inc c.jobcnt }, pool, mng, sch⟩
  | refuse {act : CliAct} {idle : Bool} {buf : Nat} {appType : UInt16}
      (hpos : c.pos = .counted buf appType) :
      Step inc dec cb k c pool mng sch act idle ⟨{ c with pos := .refused buf }, pool, mng, sch⟩
  | queue {act : CliAct} {idle : Bool} {buf : Nat} {appType : UInt16}
      (hpos : c.pos = .counted buf appType) :
      Step inc dec cb k c pool mng sch act idle
        ⟨{ c with pos := .handed }, pool, mng, sch ++ [⟨k, buf, appType⟩]⟩
  | uncount {act : CliAct} {idle : Bool} {buf : Nat} (hpos : c.pos = .refused buf) :
      Step inc dec cb k c pool mng sch act idle
        ⟨{ c with pos := .uncounted buf, jobcnt := dec c.jobcnt }, pool, mng, sch⟩
  | giveBack {act : CliAct} {idle : Bool} {buf : Nat} (hpos : c.pos = .uncounted buf) :
      Step inc dec cb k c pool mng sch act idle
        ⟨{ c with pos := .handed }, pool.free buf, mng, sch⟩
  | startClean {act : CliAct} {idle : Bool} {buf : Nat} (hpos : c.pos = .left buf)
      (hzero : c.jobcnt = 0) :
      Step inc dec cb k c pool mng sch act idle
        ⟨{ c with pos := .cleaning buf (if c.isEventHooked then 1 else ZCRT_MAX_EVT) }, pool, mng,
          sch⟩
  | unregister {act : CliAct} {buf : Nat} {i : UInt32} {mng' : ZEvent G (Option Nat)}
      (hpos : c.pos = .cleaning buf i) (hi : i < ZCRT_MAX_EVT)
      (hun : zcrtEventUnregister (some mng) i (some cb) (some k) none = some (some mng')) :
      Step inc dec cb k c pool mng sch act true
        ⟨{ c with pos := .cleaning buf (i + 1) }, pool, mng', sch⟩
  | close {act : CliAct} {idle : Bool} {buf : Nat} {i : UInt32} (hpos : c.pos = .cleaning buf i)
      (hi : ¬i < ZCRT_MAX_EVT) :
      Step inc dec cb k c pool mng sch act idle
        ⟨{ c with pos := .closing }, pool.free buf, mng, sch⟩
  | free {idle : Bool} (hpos : c.pos = .closing) :
      Step inc dec cb k c pool mng sch .go idle ⟨{ c with pos := .freed }, pool, mng, sch⟩

theorem Client.step_cases {inc dec : Int → Int} {cb : G} {k : Nat} {c : Client} {act : CliAct}
    {idle : Bool} {pool : BufPool} {mng : ZEvent G (Option Nat)} {sch : List MsgJob}
    {res : CliRes G} (h : c.step inc dec cb k act idle pool mng sch = some res) :
    Client.Step inc dec cb k c pool mng sch act idle res := by
  unfold step at h
  split at h
  · rename_i hpos
    obtain rfl := Option.some.inj h
    exact .malloc (Or.inl hpos)
  · rename_i hpos
    obtain ⟨v, -, rfl⟩ := Option.map_eq_some_iff.mp h
    exact .recv hpos
  · rename_i hpos
    obtain rfl := Option.some.inj h
    exact .leave hpos
  · rename_i hpos
    obtain rfl := Option.some.inj h
    exact .count hpos
  · rename_i hpos
    split at h
    · obtain rfl := Option.some.inj h
      exact .refuse hpos
    · obtain rfl := Option.some.inj h
      exact .queue hpos
  · rename_i hpos
    obtain rfl := Option.some.inj h
    exact .uncount hpos
  · rename_i hpos
    obtain rfl := Option.some.inj h
    exact .giveBack hpos
  · rename_i hpos
    obtain rfl := Option.some.inj h
    exact .malloc (Or.inr hpos)
  · rename_i hpos
    split at h
    · rename_i hzero
      obtain rfl := Option.some.inj h
      exact .startClean hpos hzero
    · exact nomatch h
  · rename_i hpos
    split at h
    · rename_i hi
      split at h
      · rename_i hidle
        obtain ⟨evtMng, hun, h⟩ := Option.bind_eq_some_iff.mp h
        obtain ⟨mng', rfl, h⟩ := Option.bind_eq_some_iff.mp h
        obtain rfl := Option.some.inj h
        rw [hidle]
        exact .unregister hpos hi hun
      · exact nomatch h
    · rename_i hi
      obtain rfl := Option.some.inj h
      exact .close hpos hi
  · rename_i hpos
    obtain rfl := Option.some.inj h
    exact .free hpos
  · exact nomatch h

/-! ## The messages -/

/-- `zipc_buf_free(client->ipc, buf)`, `ipc` whether what is read there is the server: the buffer
    goes wherever it points. -/
def BufPool.freeFor (pool : BufPool) (ipc : Bool) (buf : Nat) : BufPool :=
  if ipc then pool.free buf else pool

/-- What a step of `_zipc_msg_proc_job` leaves: where it is, the buffers, the event manager and
    `respondSch`; and what it did to its client. -/
structure MsgRes (G : Type) where
  pos : Option MsgPos
  pool : BufPool
  mng : ZEvent G (Option Nat)
  respondSch : List SendJob
  client : Client → Client

/-- `_zipc_msg_proc_job`. What an address that is not the server's does to `zipc_buf_malloc`, the
    parser and the schedule is not followed. -/
def MsgPos.step (dec : Int → Int) (cb : G)
    (call : F → ZIPCComp F → ZBuf → ZBuf → Option (EZCRTErr × ZBuf × ZBuf))
    (module : ZIPCModule F E)
    (pos : MsgPos) (act : JobAct) (ipc : Bool) (pool : BufPool) (mng : ZEvent G (Option Nat))
    (respondSch : List SendJob) : Option (MsgRes G) :=
  match pos, act with
  | .begun job, .go =>
      if ipc then some ⟨some (.got job pool.malloc.1), pool.malloc.2, mng, respondSch, id⟩ else none
  | .got job obuf, .parse heap =>
      if ipc then do
        -- `obuf` has been cleared by `zipc_buf_malloc`
        let (iv, ov, evtMng) ← appParse call module (some mng) heap job.appType
          (pool.bufs job.ibuf) (zcrtBufClear (pool.bufs obuf)) cb (some job.client) none
        let mng ← evtMng
        let pool := pool.store job.ibuf iv
        let hook := fun c : Client => { c with
          isEventHooked := c.isEventHooked || decide (job.appType = ZEIPC_TYPE_LINK) }
        if ov.len ≠ 0 then
          some ⟨some (.replying job obuf), pool.store obuf (patchPayloadSize ov), mng, respondSch,
            hook⟩
        else some ⟨some (.giving job obuf), pool.store obuf ov, mng, respondSch, hook⟩
      else none
  | .replying job obuf, .sendjob full =>
      if ipc then
        if full then some ⟨some (.giving job obuf), pool, mng, respondSch, id⟩
        else some ⟨some (.closing job), pool, mng, respondSch ++ [⟨job.client, obuf⟩], id⟩
      else none
  | .giving job obuf, .go => some ⟨some (.closing job), pool.freeFor ipc obuf, mng, respondSch, id⟩
  | .closing job, .go =>
      some ⟨some (.counting job.client), pool.freeFor ipc job.ibuf, mng, respondSch, id⟩
  | .counting _, .go =>
      some ⟨none, pool, mng, respondSch, fun c => { c with jobcnt := dec c.jobcnt }⟩
  | _, _ => none

/-- The steps of a message job. -/
inductive MsgPos.Step (dec : Int → Int) (cb : G)
    (call : F → ZIPCComp F → ZBuf → ZBuf → Option (EZCRTErr × ZBuf × ZBuf))
    (module : ZIPCModule F E) (ipc : Bool) (pool : BufPool) (mng : ZEvent G (Option Nat))
    (respondSch : List SendJob) : MsgPos → MsgRes G → Prop
  | malloc {job : MsgJob} (hipc : ipc = true) :
      Step dec cb call module ipc pool mng respondSch (.begun job)
        ⟨some (.got job pool.malloc.1), pool.malloc.2, mng, respondSch, id⟩
  | parse {job : MsgJob} {obuf : Nat} {heap : Bool} {iv ov v : ZBuf}
      {mng' : ZEvent G (Option Nat)} {pos' : MsgPos} (hipc : ipc = true)
      (happ : appParse call module (some mng) heap job.appType (pool.bufs job.ibuf)
        (zcrtBufClear (pool.bufs obuf)) cb (some job.client) none = some (iv, ov, some mng'))
      (hpos : ov.len ≠ 0 ∧ pos' = .replying job obuf ∧ v = patchPayloadSize ov ∨
        ov.len = 0 ∧ pos' = .giving job obuf ∧ v = ov) :
      Step dec cb call module ipc pool mng respondSch (.got job obuf)
        ⟨some pos', (pool.store job.ibuf iv).store obuf v, mng', respondSch, fun c => { c with
          isEventHooked := c.isEventHooked || decide (job.appType = ZEIPC_TYPE_LINK) }⟩
  | refuse {job : MsgJob} {obuf : Nat} :
      Step dec cb call module ipc pool mng respondSch (.replying job obuf)
        ⟨some (.giving job obuf), pool, mng, respondSch, id⟩
  | queue {job : MsgJob} {obuf : Nat} :
      Step dec cb call module ipc pool mng respondSch (.replying job obuf)
        ⟨some (.closing job), pool, mng, respondSch ++ [⟨job.client, obuf⟩], id⟩
  | giveBack {job : MsgJob} {obuf : Nat} :
      Step dec cb call module ipc pool mng respondSch (.giving job obuf)
        ⟨some (.closing job), pool.freeFor ipc obuf, mng, respondSch, id⟩
  | close {job : MsgJob} :
      Step dec cb call module ipc pool mng respondSch (.closing job)
        ⟨some (.counting job.client), pool.freeFor ipc job.ibuf, mng, respondSch, id⟩
  | uncount {client : Nat} :
      Step dec cb call module ipc pool mng respondSch (.counting client)
        ⟨none, pool, mng, respondSch, fun c => { c with jobcnt := dec c.jobcnt }⟩

theorem MsgPos.step_cases {dec : Int → Int} {cb : G}
    {call : F → ZIPCComp F → ZBuf → ZBuf → Option (EZCRTErr × ZBuf × ZBuf)}
    {module : ZIPCModule F E} {pos : MsgPos} {act : JobAct} {ipc : Bool} {pool : BufPool}
    {mng : ZEvent G (Option Nat)} {respondSch : List SendJob} {res : MsgRes G}
    (h : pos.step dec cb call module act ipc pool mng respondSch = some res) :
    MsgPos.Step dec cb call module ipc pool mng respondSch pos res := by
  unfold step at h
  split at h
  · split at h
    · rename_i hipc
      obtain rfl := Option.some.inj h
      exact .malloc hipc
    · exact nomatch h
  · split at h
    · rename_i hipc
      obtain ⟨⟨iv, ov, evtMng⟩, happ, h⟩ := Option.bind_eq_some_iff.mp h
      obtain ⟨mng', rfl, h⟩ := Option.bind_eq_some_iff.mp h
      dsimp only at h
      split at h
      · rename_i hlen
        obtain rfl := Option.some.inj h
        exact .parse hipc happ (Or.inl ⟨hlen, rfl, rfl⟩)
      · rename_i hlen
        obtain rfl := Option.some.inj h
        exact .parse hipc happ (Or.inr ⟨not_not.mp hlen, rfl, rfl⟩)
    · exact nomatch h
  · split at h
    · split at h
      · obtain rfl := Option.some.inj h
        exact .refuse
      · obtain rfl := Option.some.inj h
        exact .queue
    · exact nomatch h
  · obtain rfl := Option.some.inj h
    exact .giveBack
  · obtain rfl := Option.some.inj h
    exact .close
  · obtain rfl := Option.some.inj h
    exact .uncount
  · exact nomatch h

/-! ## Replies and events -/

/-- What a step of `_zipc_hookevent_cb` leaves: where it is, the buffers and `evtSch`. -/
structure CbRes (D : Type) where
  pos : Option (CbPos D)
  pool : BufPool
  evtSch : List SendJob

/-- `_zipc_hookevent_cb`. -/
def CbPos.step (encode : E → UInt32 → D → ZBuf → Option (EZCRTErr × ZBuf)) (module : ZIPCModule F E)
    (pos : CbPos D) (act : JobAct) (ipc : Bool) (pool : BufPool) (evtSch : List SendJob) :
    Option (CbRes D) :=
  match pos, act with
  | .begun k evtid evtdata, .go =>
      if ipc then some ⟨some (.got k evtid evtdata pool.malloc.1), pool.malloc.2, evtSch⟩ else none
  | .got k evtid evtdata buf, .encode sn =>
      if ipc then do
        let (ret, v) ← zipcEncodeEvent encode (some module) sn evtid evtdata (pool.bufs buf)
        if ret = .success then some ⟨some (.sending k buf), pool.store buf v, evtSch⟩
        else some ⟨some (.giving k buf), pool.store buf v, evtSch⟩
      else none
  | .sending k buf, .sendjob full =>
      if ipc then
        if full then some ⟨some (.giving k buf), pool, evtSch⟩
        else some ⟨none, pool, evtSch ++ [⟨k, buf⟩]⟩
      else none
  | .giving _ buf, .go => some ⟨none, pool.freeFor ipc buf, evtSch⟩
  | _, _ => none

/-- The steps of a callback. -/
inductive CbPos.Step (ipc : Bool) (pool : BufPool) (evtSch : List SendJob) :
    CbPos D → CbRes D → Prop
  | malloc {k : Nat} {evtid : UInt32} {evtdata : D} :
      Step ipc pool evtSch (.begun k evtid evtdata)
        ⟨some (.got k evtid evtdata pool.malloc.1), pool.malloc.2, evtSch⟩
  | encode {k : Nat} {evtid : UInt32} {evtdata : D} {buf : Nat} {v : ZBuf} {pos' : CbPos D}
      (hpos : pos' = .sending k buf ∨ pos' = .giving k buf) :
      Step ipc pool evtSch (.got k evtid evtdata buf) ⟨some pos', pool.store buf v, evtSch⟩
  | refuse {k : Nat} {buf : Nat} :
      Step ipc pool evtSch (.sending k buf) ⟨some (.giving k buf), pool, evtSch⟩
  | queue {k : Nat} {buf : Nat} :
      Step ipc pool evtSch (.sending k buf) ⟨none, pool, evtSch ++ [⟨k, buf⟩]⟩
  | giveBack {k : Nat} {buf : Nat} :
      Step ipc pool evtSch (.giving k buf) ⟨none, pool.freeFor ipc buf, evtSch⟩

theorem CbPos.step_cases {encode : E → UInt32 → D → ZBuf → Option (EZCRTErr × ZBuf)}
    {module : ZIPCModule F E} {pos : CbPos D} {act : JobAct} {ipc : Bool} {pool : BufPool}
    {evtSch : List SendJob} {res : CbRes D}
    (h : pos.step encode module act ipc pool evtSch = some res) :
    CbPos.Step ipc pool evtSch pos res := by
  unfold step at h
  split at h
  · split at h
    · obtain rfl := Option.some.inj h
      exact .malloc
    · exact nomatch h
  · split at h
    · obtain ⟨⟨ret, v⟩, -, h⟩ := Option.bind_eq_some_iff.mp h
      dsimp only at h
      split at h
      · obtain rfl := Option.some.inj h
        exact .encode (Or.inl rfl)
      · obtain rfl := Option.some.inj h
        exact .encode (Or.inr rfl)
    · exact nomatch h
  · split at h
    · split at h
      · obtain rfl := Option.some.inj h
        exact .refuse
      · obtain rfl := Option.some.inj h
        exact .queue
    · exact nomatch h
  · obtain rfl := Option.some.inj h
    exact .giveBack
  · exact nomatch h

/-! ## The whole -/

namespace Server

variable (inc dec : Int → Int) (cb : G)
  (call : F → ZIPCComp F → ZBuf → ZBuf → Option (EZCRTErr × ZBuf × ZBuf))
  (encode : E → UInt32 → D → ZBuf → Option (EZCRTErr × ZBuf)) (module : ZIPCModule F E)
  (st : Server D G)

/-- The client has not been freed. -/
def live (k : Nat) : Bool :=
  match st.clients[k]? with
  | some c => c.pos ≠ .freed
  | none => false

/-- What is read at `client->ipc` is the server. -/
def reads (k : Nat) (ipc : Bool) : Bool := st.live k || ipc

/-- A new connection, in `_zipc_server_thread`. -/
def acceptStep : Server D G :=
  { st with clients := st.clients ++ [{ pos := .start, isEventHooked := false, jobcnt := 0 }] }

def clientStep (k : Nat) (act : CliAct) : Option (Server D G) := do
  let c ← st.clients[k]?
  let res ← c.step inc dec cb k act st.cbs.isEmpty st.pool st.mng st.sch
  some { st with clients := st.clients.set k res.client, pool := res.pool, mng := res.mng,
                 sch := res.sch }

/-- The worker of `sch` takes the next job. -/
def takeMsgStep : Option (Server D G) :=
  match st.msgRun, st.sch with
  | none, job :: sch => some { st with sch := sch, msgRun := some (.begun job) }
  | _, _ => none

def msgStep (ipc : Bool) (act : JobAct) : Option (Server D G) := do
  let pos ← st.msgRun
  let res ← pos.step dec cb call module act (st.reads pos.client ipc) st.pool st.mng st.respondSch
  some { st with msgRun := res.pos, pool := res.pool, mng := res.mng, respondSch := res.respondSch,
                 clients := st.clients.modify pos.client res.client }

/-- The worker of `respondSch` and `evtSch` takes the next job of one of them. -/
def takeSendStep (evt : Bool) : Option (Server D G) :=
  match st.sendRun, evt, st.respondSch, st.evtSch with
  | none, false, job :: respondSch, _ =>
      some { st with respondSch := respondSch, sendRun := some job }
  | none, true, _, job :: evtSch =>
      some { st with evtSch := evtSch, sendRun := some job }
  | _, _, _, _ => none

/-- `_zipc_buf_send_job`. -/
def sendStep (ipc : Bool) : Option (Server D G) := do
  let job ← st.sendRun
  some { st with pool := st.pool.freeFor (st.reads job.client ipc) job.buf, sendRun := none }

/-- A dispatch comes to a subscription of client `k`. -/
def eventStep (k : Nat) (evtid : UInt32) (evtdata : D) : Option (Server D G) :=
  if (cbSubs cb (some k) (st.mng.evtlist evtid)).isEmpty then none
  else some { st with cbs := .begun k evtid evtdata :: st.cbs }

/-- The innermost callback. -/
def callbackStep (ipc : Bool) (act : JobAct) : Option (Server D G) :=
  match st.cbs with
  | [] => none
  | pos :: cbs => do
      let res ← pos.step encode module act (st.reads pos.client ipc) st.pool st.evtSch
      some { st with cbs := res.pos.toList ++ cbs, pool := res.pool, evtSch := res.evtSch }

def step : ServerAct D → Option (Server D G)
  | .accept => some st.acceptStep
  | .client k act => st.clientStep inc dec cb k act
  | .lastEvtid evtid => some { st with mng := { st.mng with lastEvtid := evtid } }
  | .takeMsg => st.takeMsgStep
  | .msg ipc act => st.msgStep dec cb call module ipc act
  | .takeSend evt => st.takeSendStep evt
  | .send ipc => st.sendStep ipc
  | .event k evtid evtdata => st.eventStep cb k evtid evtdata
  | .callback ipc act => st.callbackStep encode module ipc act

end Server

end Steps

/-- A server that was just created. -/
def serverSys {F E D G : Type} [DecidableEq G] (inc dec : Int → Int) (cb : G)
    (call : F → ZIPCComp F → ZBuf → ZBuf → Option (EZCRTErr × ZBuf × ZBuf))
    (encode : E → UInt32 → D → ZBuf → Option (EZCRTErr × ZBuf)) (module : ZIPCModule F E) :
    Sys (Server D G) (ServerAct D) where
  init st := (∀ e, ∀ x ∈ st.mng.evtlist e, x.fn ≠ some cb) ∧ st.pool.freebuf = [] ∧
    st.pool.fresh = 0 ∧ st.clients = [] ∧ st.sch = [] ∧ st.respondSch = [] ∧ st.evtSch = [] ∧
    st.msgRun = none ∧ st.sendRun = none ∧ st.cbs = []
  next st act := st.step inc dec cb call encode module act

end Zcrt
