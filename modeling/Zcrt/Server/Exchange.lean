/-
  What goes through the user-space server: the messages of its clients, what is written for them,
  and what is sent.

  * `ServerLog`: the server with a record of this; `serverLogSys`: its steps.
  * `Server.quiet`: the server without what the next step works on.
  * `step_keeps`: a step leaves the buffers of the others as they are.
-/
import Zcrt.Server.Conserve

namespace Zcrt

open Lib

/-! ## The record -/

/-- A message, with the number of its client. -/
structure Request where
  client : Nat
  appType : UInt16
  bytes : List UInt8

/-- What is sent to a client. -/
structure Letter where
  client : Nat
  bytes : List UInt8

/-- A message that was parsed, what the parser found with it (the subscriptions at that moment, the
    heap's answer and the two buffers), and the reply it led to. -/
structure Exchange (G : Type) where
  request : Request
  mng : ZEvent G (Option Nat)
  heap : Bool
  ibuf : ZBuf
  obuf : ZBuf
  reply : Option (List UInt8)

def Exchange.letter {G : Type} (x : Exchange G) : Option Letter :=
  x.reply.map fun bytes => { client := x.request.client, bytes := bytes }

namespace BufPool

/-- The message a job is about, as the parser finds it. -/
def request (pool : BufPool) (job : MsgJob) : Request :=
  { client := job.client, appType := job.appType, bytes := (pool.bufs job.ibuf).rest }

def letter (pool : BufPool) (job : SendJob) : Letter :=
  { client := job.client, bytes := (pool.bufs job.buf).bytes }

end BufPool

/-- The buffer of a message that a client has received, and not given to the schedule. -/
def CliPos.hand : CliPos → Option (Nat × UInt16)
  | .received buf appType => some (buf, appType)
  | .counted buf appType => some (buf, appType)
  | _ => none

/-- The job, before the parser. -/
def MsgPos.waiting : MsgPos → List MsgJob
  | .begun job => [job]
  | .got job _ => [job]
  | _ => []

/-- The job at the parser, and the buffer for its reply. -/
def MsgPos.parsing : MsgPos → Option (MsgJob × Nat)
  | .got job obuf => some (job, obuf)
  | _ => none

/-- The reply, before the schedule. -/
def MsgPos.answer : MsgPos → List SendJob
  | .replying job obuf => [⟨job.client, obuf⟩]
  | _ => []

/-- The event, before the schedule. -/
def CbPos.notice {D : Type} : CbPos D → List SendJob
  | .sending k buf => [⟨k, buf⟩]
  | _ => []

namespace Server

variable {D G : Type} (st : Server D G)

/-- The messages that wait for the parser. -/
def waiting : List MsgJob := st.msgRun.elim [] MsgPos.waiting ++ st.sch

def answering : List SendJob := st.msgRun.elim [] MsgPos.answer

def notifying : List SendJob := st.cbs.head?.elim [] CbPos.notice

/-- What the parser finds, and the reply. -/
def exchange (heap : Bool) (reply : Option (List UInt8)) (p : MsgJob × Nat) : Exchange G :=
  { request := st.pool.request p.1, mng := st.mng, heap := heap, ibuf := st.pool.bufs p.1.ibuf,
    obuf := st.pool.bufs p.2, reply := reply }

end Server

/-- The server, the messages received from each client, those queued on `sch`, those parsed, the
    letters queued on `respondSch`, the events dispatched to subscriptions of clients, the letters
    queued on `evtSch`, those taken off the one (`false`) or the other, and those sent. -/
structure ServerLog (D G : Type) where
  st : Server D G
  received : Nat → List Request
  accepted : List Request
  parsed : List (Exchange G)
  replied : List Letter
  events : List (Nat × UInt32 × D)
  told : List Letter
  taken : List (Bool × Letter)
  out : List Letter

/-- The letters taken off one of the two schedules. -/
def takenOff (taken : List (Bool × Letter)) (evt : Bool) : List Letter :=
  (taken.filter (·.1 == evt)).map Prod.snd

namespace ServerLog

variable {D G : Type}

/-- What is noted of a step to `st'`. -/
def note (log : ServerLog D G) (st' : Server D G) : ServerAct D → ServerLog D G
  | .client k (.recv appType payload) =>
      { log with received := Function.update log.received k (log.received k ++
                   [{ client := k, appType := appType, bytes := payload }]) }
  | .client k (.sendjob false) =>
      { log with accepted := log.accepted ++ (log.received k).getLast?.toList }
  | .msg _ (.parse heap) =>
      let reply := st'.answering.head?.map fun job => (st'.pool.bufs job.buf).bytes
      { log with parsed := log.parsed ++
                   (log.st.msgRun.bind MsgPos.parsing).toList.map (log.st.exchange heap reply) }
  | .msg _ (.sendjob false) =>
      { log with replied := log.replied ++ log.st.answering.map log.st.pool.letter }
  | .takeSend evt =>
      { log with taken := log.taken ++
                   st'.sendRun.toList.map fun job => (evt, st'.pool.letter job) }
  | .send _ => { log with out := log.out ++ log.st.sendRun.toList.map log.st.pool.letter }
  | .event k evtid evtdata => { log with events := log.events ++ [(k, evtid, evtdata)] }
  | .callback _ (.sendjob false) =>
      { log with told := log.told ++ log.st.notifying.map log.st.pool.letter }
  | _ => log

variable {log : ServerLog D G} {st' : Server D G}

/-- Steps of which nothing is noted. -/
theorem note_client {k : Nat} {act : CliAct}
    (hrecv : ∀ appType payload, act ≠ .recv appType payload) (hqueue : act ≠ .sendjob false) :
    log.note st' (.client k act) = log := by
  cases act with
  | recv appType payload => exact absurd rfl (hrecv appType payload)
  | sendjob full =>
      cases full with
      | true => rfl
      | false => exact absurd rfl hqueue
  | go | leave => rfl

theorem note_msg {ipc : Bool} {act : JobAct} (hparse : ∀ heap, act ≠ .parse heap)
    (hqueue : act ≠ .sendjob false) : log.note st' (.msg ipc act) = log := by
  cases act with
  | parse heap => exact absurd rfl (hparse heap)
  | sendjob full =>
      cases full with
      | true => rfl
      | false => exact absurd rfl hqueue
  | go | encode => rfl

theorem note_callback {ipc : Bool} {act : JobAct} (hqueue : act ≠ .sendjob false) :
    log.note st' (.callback ipc act) = log := by
  cases act with
  | sendjob full =>
      cases full with
      | true => rfl
      | false => exact absurd rfl hqueue
  | go | encode | parse => rfl

end ServerLog

section Sys

variable {F E D G : Type} [DecidableEq G] (inc dec : Int → Int) (cb : G)
  (call : F → ZIPCComp F → ZBuf → ZBuf → Option (EZCRTErr × ZBuf × ZBuf))
  (encode : E → UInt32 → D → ZBuf → Option (EZCRTErr × ZBuf)) (module : ZIPCModule F E)

/-- The server with its record. -/
def serverLogSys : Sys (ServerLog D G) (ServerAct D) where
  init log := (serverSys inc dec cb call encode module).init log.st ∧
    log.received = (fun _ => []) ∧ log.accepted = [] ∧ log.parsed = [] ∧ log.replied = [] ∧
    log.events = [] ∧ log.told = [] ∧ log.taken = [] ∧ log.out = []
  next log act := (log.st.step inc dec cb call encode module act).map fun st' =>
    { log.note st' act with st := st' }

end Sys

/-! ## What a step leaves alone -/

theorem BufPool.store_of_ne (pool : BufPool) {b i : Nat} (h : b ≠ i) (v : ZBuf) :
    (pool.store i v).bufs b = pool.bufs b :=
  Function.update_of_ne h ..

theorem BufPool.malloc_of_ne (pool : BufPool) {b : Nat} (h : b ≠ pool.malloc.1) :
    pool.malloc.2.bufs b = pool.bufs b := by
  unfold malloc at h ⊢
  cases hf : pool.freebuf with
  | cons buf next =>
      rw [hf] at h
      exact store_of_ne _ h _
  | nil =>
      rw [hf] at h
      exact store_of_ne _ h _

theorem BufPool.freeFor_bufs (pool : BufPool) (ipc : Bool) (i : Nat) :
    (pool.freeFor ipc i).bufs = pool.bufs := by
  unfold freeFor
  split <;> rfl

section Local

variable {F E D G : Type} [DecidableEq G] {inc dec : Int → Int} {cb : G}
  {call : F → ZIPCComp F → ZBuf → ZBuf → Option (EZCRTErr × ZBuf × ZBuf)}
  {encode : E → UInt32 → D → ZBuf → Option (EZCRTErr × ZBuf)} {module : ZIPCModule F E}

theorem Client.step_keeps {k : Nat} {c : Client} {act : CliAct} {idle : Bool} {pool : BufPool}
    {mng : ZEvent G (Option Nat)} {sch : List MsgJob} {res : CliRes G}
    (h : c.step inc dec cb k act idle pool mng sch = some res) {b : Nat} (hb : b ∉ c.pos.bufs)
    (hm : b ≠ pool.malloc.1) : res.pool.bufs b = pool.bufs b := by
  cases Client.step_cases h with
  | malloc => exact pool.malloc_of_ne hm
  | recv hpos =>
      rw [hpos] at hb
      exact pool.store_of_ne (List.ne_of_not_mem_cons hb) _
  | leave | count | refuse | queue | uncount | giveBack | startClean | unregister | close | free =>
      rfl

theorem MsgPos.step_keeps {pos : MsgPos} {act : JobAct} {ipc : Bool} {pool : BufPool}
    {mng : ZEvent G (Option Nat)} {respondSch : List SendJob} {res : MsgRes G}
    (h : pos.step dec cb call module act ipc pool mng respondSch = some res) {b : Nat}
    (hb : b ∉ pos.bufs) (hm : b ≠ pool.malloc.1) : res.pool.bufs b = pool.bufs b := by
  cases MsgPos.step_cases h with
  | malloc => exact pool.malloc_of_ne hm
  | parse =>
      have hne := List.ne_and_not_mem_of_not_mem_cons hb
      exact (BufPool.store_of_ne _ (List.ne_of_not_mem_cons hne.2) _).trans
        (pool.store_of_ne hne.1 _)
  | refuse | queue | uncount => rfl
  | giveBack | close => exact congrFun (pool.freeFor_bufs _ _) b

theorem CbPos.step_keeps {pos : CbPos D} {act : JobAct} {ipc : Bool} {pool : BufPool}
    {evtSch : List SendJob} {res : CbRes D}
    (h : pos.step encode module act ipc pool evtSch = some res) {b : Nat} (hb : b ∉ pos.bufs)
    (hm : b ≠ pool.malloc.1) : res.pool.bufs b = pool.bufs b := by
  cases CbPos.step_cases h with
  | malloc => exact pool.malloc_of_ne hm
  | encode => exact pool.store_of_ne (List.ne_of_not_mem_cons hb) _
  | refuse | queue => rfl
  | giveBack => exact congrFun (pool.freeFor_bufs _ _) b

end Local

theorem count_flatMap_eraseIdx {α : Type} (f : α → List Nat) {l : List α} {k : Nat} {c : α}
    (h : l[k]? = some c) (b : Nat) :
    (l.flatMap f).count b = (f c).count b + ((l.eraseIdx k).flatMap f).count b := by
  obtain ⟨hlt, rfl⟩ := List.getElem?_eq_some_iff.mp h
  rw [← ((List.getElem_cons_eraseIdx_perm hlt).flatMap_right f).count_eq b, List.flatMap_cons,
    List.count_append]

namespace Server

section Quiet

variable {D G : Type} {st : Server D G}

/-- The server without the thread or the job whose step it is. -/
def quiet (st : Server D G) : ServerAct D → Server D G
  | .client k _ => { st with clients := st.clients.eraseIdx k }
  | .msg .. => { st with msgRun := none }
  | .callback .. => { st with cbs := st.cbs.tail }
  | _ => st

/-- What is held is not handed out. -/
theorem malloc_not_held (h : ∀ b, st.pool.bal b + ((st.held.count b : Nat) : Int) = 0) :
    st.pool.malloc.1 ∉ st.held := by
  intro hin
  have hpos := List.count_pos_iff.mpr hin
  have hbal := h st.pool.malloc.1
  have hge : 0 ≤ st.pool.bal st.pool.malloc.1 := by
    unfold BufPool.bal BufPool.malloc
    cases hf : st.pool.freebuf with
    | cons buf next =>
        dsimp only
        rw [List.count_cons_self]
        split <;> omega
    | nil =>
        dsimp only
        rw [if_neg (Nat.lt_irrefl _)]
        omega
  omega

/-- What others hold is not its own, and not handed out. -/
theorem apart_of_quiet (h : ∀ b, st.pool.bal b + ((st.held.count b : Nat) : Int) = 0)
    {act : ServerAct D} {own : List Nat}
    (hown : ∀ b, st.held.count b = own.count b + (st.quiet act).held.count b) {b : Nat}
    (hb : b ∈ (st.quiet act).held) : b ∉ own ∧ b ≠ st.pool.malloc.1 := by
  have hpos := List.count_pos_iff.mpr hb
  have hsum := hown b
  have hbal := h b
  constructor
  · intro hin
    have hpos' := List.count_pos_iff.mpr hin
    unfold BufPool.bal at hbal
    split at hbal <;> omega
  · rintro rfl
    exact malloc_not_held h (List.count_pos_iff.mp (by omega))

theorem quiet_client {k : Nat} {c : Client} (hk : st.clients[k]? = some c) (act : CliAct)
    (b : Nat) :
    st.held.count b = c.pos.bufs.count b + (st.quiet (.client k act)).held.count b := by
  rw [held_count, held_count, count_flatMap_eraseIdx _ hk]
  unfold quiet
  dsimp only
  omega

theorem quiet_msg {pos : MsgPos} (hpos : st.msgRun = some pos) (ipc : Bool) (act : JobAct)
    (b : Nat) :
    st.held.count b = pos.bufs.count b + (st.quiet (.msg ipc act)).held.count b := by
  rw [held_count, held_count, hpos]
  unfold quiet
  dsimp only [Option.elim]
  rw [List.count_nil]
  omega

theorem quiet_callback {pos : CbPos D} {cbs : List (CbPos D)} (hcbs : st.cbs = pos :: cbs)
    (ipc : Bool) (act : JobAct) (b : Nat) :
    st.held.count b = pos.bufs.count b + (st.quiet (.callback ipc act)).held.count b := by
  rw [held_count, held_count, hcbs, List.flatMap_cons, List.count_append]
  unfold quiet
  rw [hcbs]
  dsimp only [List.tail]
  omega

section Mem

variable {act : ServerAct D}

theorem quiet_sch {job : MsgJob} (h : job ∈ st.sch) : job.ibuf ∈ (st.quiet act).held := by
  have hin := List.mem_map_of_mem (f := MsgJob.ibuf) h
  unfold held
  cases act <;> simp only [quiet, List.mem_append, hin, true_or, or_true]

theorem quiet_respondSch {job : SendJob} (h : job ∈ st.respondSch) :
    job.buf ∈ (st.quiet act).held := by
  have hin := List.mem_map_of_mem (f := SendJob.buf) h
  unfold held
  cases act <;> simp only [quiet, List.mem_append, hin, true_or, or_true]

theorem quiet_evtSch {job : SendJob} (h : job ∈ st.evtSch) : job.buf ∈ (st.quiet act).held := by
  have hin := List.mem_map_of_mem (f := SendJob.buf) h
  unfold held
  cases act <;> simp only [quiet, List.mem_append, hin, true_or, or_true]

theorem quiet_sendRun {job : SendJob} (h : st.sendRun = some job) :
    job.buf ∈ (st.quiet act).held := by
  have hin : job.buf ∈ st.sendRun.elim [] fun job => [job.buf] := by
    rw [h]
    exact List.mem_cons_self
  unfold held
  cases act <;> simp only [quiet, List.mem_append, hin, true_or, or_true]

/-- The message job, if it is not its step. -/
theorem quiet_msgRun (hact : ∀ ipc jobAct, act ≠ .msg ipc jobAct) {pos : MsgPos}
    (h : st.msgRun = some pos) {b : Nat} (hb : b ∈ pos.bufs) : b ∈ (st.quiet act).held := by
  have hin : b ∈ st.msgRun.elim [] MsgPos.bufs := by
    rw [h]
    exact hb
  unfold held
  cases act with
  | msg ipc jobAct => exact absurd rfl (hact ipc jobAct)
  | accept | client | lastEvtid | takeMsg | takeSend | send | event | callback =>
      simp only [quiet, List.mem_append, hin, true_or, or_true]

/-- A client, if it is not its step. -/
theorem quiet_clients {i : Nat} (hact : ∀ cliAct, act ≠ .client i cliAct) {c : Client}
    (h : st.clients[i]? = some c) {b : Nat} (hb : b ∈ c.pos.bufs) : b ∈ (st.quiet act).held := by
  have hin : b ∈ (st.quiet act).clients.flatMap fun c => c.pos.bufs := by
    refine List.mem_flatMap.mpr ⟨c, ?_, hb⟩
    cases act with
    | client k cliAct =>
        refine List.mem_eraseIdx_iff_getElem?.mpr ⟨i, ?_, h⟩
        rintro rfl
        exact hact cliAct rfl
    | accept | msg | lastEvtid | takeMsg | takeSend | send | event | callback =>
        exact List.mem_of_getElem? h
  unfold held
  simp only [List.mem_append, hin, true_or]

/-- The callbacks, but for the innermost if it is its step. -/
theorem quiet_cbs {pos : CbPos D} (h : pos ∈ (st.quiet act).cbs) {b : Nat} (hb : b ∈ pos.bufs) :
    b ∈ (st.quiet act).held := by
  unfold held
  exact List.mem_append_right _ (List.mem_flatMap.mpr ⟨pos, h, hb⟩)

end Mem

end Quiet

variable {F E D G : Type} [DecidableEq G] {inc dec : Int → Int} {cb : G}
  {call : F → ZIPCComp F → ZBuf → ZBuf → Option (EZCRTErr × ZBuf × ZBuf)}
  {encode : E → UInt32 → D → ZBuf → Option (EZCRTErr × ZBuf)} {module : ZIPCModule F E}
  {st st' : Server D G} {act : ServerAct D}

theorem step_keeps (h : ∀ b, st.pool.bal b + ((st.held.count b : Nat) : Int) = 0)
    (hn : st.step inc dec cb call encode module act = some st') {b : Nat}
    (hb : b ∈ (st.quiet act).held) : st'.pool.bufs b = st.pool.bufs b := by
  cases act with
  | accept | lastEvtid =>
      obtain rfl := Option.some.inj hn
      rfl
  | client k act =>
      obtain ⟨c, hk, hn⟩ := Option.bind_eq_some_iff.mp hn
      obtain ⟨res, hres, hn⟩ := Option.bind_eq_some_iff.mp hn
      obtain rfl := Option.some.inj hn
      obtain ⟨hown, hmalloc⟩ := apart_of_quiet h (quiet_client hk act) hb
      exact c.step_keeps hres hown hmalloc
  | takeMsg =>
      unfold step takeMsgStep at hn
      dsimp only at hn
      split at hn
      · obtain rfl := Option.some.inj hn
        rfl
      · exact nomatch hn
  | msg ipc act =>
      obtain ⟨pos, hpos, hn⟩ := Option.bind_eq_some_iff.mp hn
      obtain ⟨res, hres, hn⟩ := Option.bind_eq_some_iff.mp hn
      obtain rfl := Option.some.inj hn
      obtain ⟨hown, hmalloc⟩ := apart_of_quiet h (quiet_msg hpos ipc act) hb
      exact pos.step_keeps hres hown hmalloc
  | takeSend evt =>
      unfold step takeSendStep at hn
      dsimp only at hn
      split at hn
      · obtain rfl := Option.some.inj hn
        rfl
      · obtain rfl := Option.some.inj hn
        rfl
      · exact nomatch hn
  | send ipc =>
      obtain ⟨job, -, hn⟩ := Option.bind_eq_some_iff.mp hn
      obtain rfl := Option.some.inj hn
      exact congrFun (st.pool.freeFor_bufs _ _) b
  | event k evtid evtdata =>
      unfold step eventStep at hn
      dsimp only at hn
      split at hn
      · exact nomatch hn
      · obtain rfl := Option.some.inj hn
        rfl
  | callback ipc act =>
      unfold step callbackStep at hn
      dsimp only at hn
      split at hn
      · exact nomatch hn
      · rename_i pos cbs hcbs
        obtain ⟨res, hres, hn⟩ := Option.bind_eq_some_iff.mp hn
        obtain rfl := Option.some.inj hn
        obtain ⟨hown, hmalloc⟩ := apart_of_quiet h (quiet_callback hcbs ipc act) hb
        exact pos.step_keeps hres hown hmalloc

end Server

end Zcrt
