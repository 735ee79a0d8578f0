/-
  Where the buffers of the user-space server are.

  * `Server.places`: the free list, and what threads and queued jobs hold.
  * `Conserved`: each buffer got so far is in one of them, once.
  * `ReadsLive`: the step does not read a client that was freed.
  * `conserved_of_readsLive`: runs of such steps keep every buffer.
  * `replyAfterFree_lost`: a reply that is sent after its client was freed does not.
-/
import Zcrt.Server.DefaultReply
import Zcrt.Server.Threads

namespace Zcrt

open Lib

/-! ## Counts -/

namespace BufPool

/-- How often the buffer is free, less 1 if it was got at all. -/
def bal (pool : BufPool) (b : Nat) : Int :=
  pool.freebuf.count b - (if b < pool.fresh then 1 else 0)

@[simp] theorem bal_store (pool : BufPool) (i : Nat) (v : ZBuf) (b : Nat) :
    (pool.store i v).bal b = pool.bal b := rfl

theorem bal_malloc (pool : BufPool) (b : Nat) :
    pool.malloc.2.bal b = pool.bal b - ([pool.malloc.1].count b : Nat) := by
  unfold malloc
  cases hf : pool.freebuf with
  | cons buf next =>
      unfold bal
      rw [hf, List.count_cons, List.count_singleton]
      change ((next.count b : Nat) : Int) - (if b < pool.fresh then 1 else 0) = _
      push_cast
      omega
  | nil =>
      unfold bal
      rw [hf, List.count_singleton]
      change (([].count b : Nat) : Int) - (if b < pool.fresh + 1 then 1 else 0) = _
      by_cases hb : pool.fresh = b
      · simp [hb]
      · have hlt : b < pool.fresh + 1 ↔ b < pool.fresh := by omega
        simp [hb, hlt]

theorem bal_free (pool : BufPool) (i b : Nat) :
    (pool.free i).bal b = pool.bal b + ([i].count b : Nat) := by
  unfold bal free
  dsimp only
  rw [List.count_cons, List.count_singleton]
  push_cast
  omega

end BufPool

/-- A list in which one element is another one, taken apart. -/
theorem count_flatMap_set {α : Type} (f : α → List Nat) {l : List α} {k : Nat} {c : α}
    (h : l[k]? = some c) (c' : α) (b : Nat) :
    ((l.set k c').flatMap f).count b + (f c).count b =
      (l.flatMap f).count b + (f c').count b := by
  induction l generalizing k with
  | nil => exact nomatch h
  | cons x l ih =>
      cases k with
      | zero =>
          obtain rfl := Option.some.inj h
          rw [List.set_cons_zero, List.flatMap_cons, List.flatMap_cons, List.count_append,
            List.count_append]
          omega
      | succ k =>
          have hrec := ih (k := k) h
          rw [List.set_cons_succ, List.flatMap_cons, List.flatMap_cons, List.count_append,
            List.count_append]
          omega

theorem flatMap_modify {α β : Type} (f : α → List β) (g : α → α) (hg : ∀ c, f (g c) = f c)
    (l : List α) (k : Nat) : (l.modify k g).flatMap f = l.flatMap f := by
  induction l generalizing k with
  | nil => cases k <;> rfl
  | cons x l ih =>
      cases k with
      | zero => rw [List.modify_zero_cons, List.flatMap_cons, List.flatMap_cons, hg]
      | succ k => rw [List.modify_succ_cons, List.flatMap_cons, List.flatMap_cons, ih]

/-! ## Places -/

def CliPos.bufs : CliPos → List Nat
  | .top buf => [buf]
  | .received buf _ => [buf]
  | .counted buf _ => [buf]
  | .refused buf => [buf]
  | .uncounted buf => [buf]
  | .left buf => [buf]
  | .cleaning buf _ => [buf]
  | _ => []

def MsgPos.bufs : MsgPos → List Nat
  | .begun job => [job.ibuf]
  | .got job obuf => [job.ibuf, obuf]
  | .replying job obuf => [job.ibuf, obuf]
  | .giving job obuf => [job.ibuf, obuf]
  | .closing job => [job.ibuf]
  | .counting _ => []

def CbPos.bufs {D : Type} : CbPos D → List Nat
  | .begun .. => []
  | .got _ _ _ buf => [buf]
  | .sending _ buf => [buf]
  | .giving _ buf => [buf]

namespace Server

variable {D G : Type} (st : Server D G)

/-- The buffers of threads and queued jobs. -/
def held : List Nat :=
  st.clients.flatMap (fun c => c.pos.bufs) ++ st.sch.map MsgJob.ibuf ++
    st.respondSch.map SendJob.buf ++ st.evtSch.map SendJob.buf ++
    st.msgRun.elim [] MsgPos.bufs ++ st.sendRun.elim [] (fun job => [job.buf]) ++
    st.cbs.flatMap CbPos.bufs

/-- The buffers, as often as there is a place for them. -/
def places : List Nat := st.pool.freebuf ++ st.held

theorem held_count (b : Nat) : st.held.count b =
    (st.clients.flatMap fun c => c.pos.bufs).count b + (st.sch.map MsgJob.ibuf).count b +
    (st.respondSch.map SendJob.buf).count b + (st.evtSch.map SendJob.buf).count b +
    (st.msgRun.elim [] MsgPos.bufs).count b + (st.sendRun.elim [] fun job => [job.buf]).count b +
    (st.cbs.flatMap CbPos.bufs).count b := by
  unfold held
  simp only [List.count_append]

/-- Each buffer that was got is in one place, and no other one in any. -/
def Conserved : Prop := ∀ b, st.places.count b = if b < st.pool.fresh then 1 else 0

theorem conserved_iff : st.Conserved ↔ ∀ b, st.pool.bal b + (st.held.count b : Nat) = 0 := by
  refine forall_congr' fun b => ?_
  unfold places BufPool.bal
  rw [List.count_append]
  split <;> omega

/-- The step does not read a client that was freed. -/
def ReadsLive : ServerAct D → Prop
  | .msg .. => ∀ pos ∈ st.msgRun, st.live pos.client = true
  | .send _ => ∀ job ∈ st.sendRun, st.live job.client = true
  | .callback .. => ∀ pos ∈ st.cbs.head?, st.live pos.client = true
  | _ => True

instance (act : ServerAct D) : Decidable (st.ReadsLive act) :=
  match act with
  | .msg .. => inferInstanceAs (Decidable (∀ pos ∈ st.msgRun, _))
  | .send _ => inferInstanceAs (Decidable (∀ job ∈ st.sendRun, _))
  | .callback .. => inferInstanceAs (Decidable (∀ pos ∈ st.cbs.head?, _))
  | .accept => isTrue trivial
  | .client .. => isTrue trivial
  | .lastEvtid _ => isTrue trivial
  | .takeMsg => isTrue trivial
  | .takeSend _ => isTrue trivial
  | .event .. => isTrue trivial

end Server

/-! ## One thread -/

section Local
variable {F E D G : Type} [DecidableEq G] {inc dec : Int → Int} {cb : G}
  {call : F → ZIPCComp F → ZBuf → ZBuf → Option (EZCRTErr × ZBuf × ZBuf)}
  {encode : E → UInt32 → D → ZBuf → Option (EZCRTErr × ZBuf)} {module : ZIPCModule F E}

theorem Client.step_bufs {k : Nat} {c : Client} {act : CliAct} {idle : Bool} {pool : BufPool}
    {mng : ZEvent G (Option Nat)} {sch : List MsgJob} {res : CliRes G}
    (h : c.step inc dec cb k act idle pool mng sch = some res) (b : Nat) :
    res.pool.bal b + (res.client.pos.bufs.count b : Nat) +
        ((res.sch.map MsgJob.ibuf).count b : Nat) =
      pool.bal b + (c.pos.bufs.count b : Nat) + ((sch.map MsgJob.ibuf).count b : Nat) := by
  cases Client.step_cases h with
  | malloc hpos =>
      have hnone : c.pos.bufs = [] := by rcases hpos with hpos | hpos <;> rw [hpos] <;> rfl
      rw [hnone, BufPool.bal_malloc, List.count_nil]
      dsimp only [CliPos.bufs]
      omega
  | recv hpos => rw [hpos]; rfl
  | leave hpos => rw [hpos]; rfl
  | count hpos => rw [hpos]; rfl
  | refuse hpos => rw [hpos]; rfl
  | queue hpos =>
      rw [hpos, List.map_append, List.map_singleton, List.count_append]
      dsimp only [CliPos.bufs]
      rw [List.count_nil]
      omega
  | uncount hpos => rw [hpos]; rfl
  | giveBack hpos =>
      rw [hpos, BufPool.bal_free]
      dsimp only [CliPos.bufs]
      rw [List.count_nil]
      omega
  | startClean hpos => rw [hpos]; rfl
  | unregister hpos => rw [hpos]; rfl
  | close hpos =>
      rw [hpos, BufPool.bal_free]
      dsimp only [CliPos.bufs]
      rw [List.count_nil]
      omega
  | free hpos => rw [hpos]; rfl

theorem BufPool.bal_freeFor (pool : BufPool) {ipc : Bool} (hipc : ipc = true) (i b : Nat) :
    (pool.freeFor ipc i).bal b = pool.bal b + ([i].count b : Nat) := by
  unfold freeFor
  rw [if_pos hipc]
  exact pool.bal_free i b

theorem count_cons_eq (x b : Nat) (l : List Nat) :
    (x :: l).count b = [x].count b + l.count b :=
  (List.count_append : ([x] ++ l).count b = _)

theorem count_pair (x y b : Nat) : [x, y].count b = [x].count b + [y].count b :=
  count_cons_eq x b [y]

theorem MsgPos.step_bufs {pos : MsgPos} {act : JobAct} {ipc : Bool} (hipc : ipc = true)
    {pool : BufPool} {mng : ZEvent G (Option Nat)} {respondSch : List SendJob} {res : MsgRes G}
    (h : pos.step dec cb call module act ipc pool mng respondSch = some res) (b : Nat) :
    res.pool.bal b + ((res.pos.elim [] MsgPos.bufs).count b : Nat) +
        ((res.respondSch.map SendJob.buf).count b : Nat) =
      pool.bal b + (pos.bufs.count b : Nat) + ((respondSch.map SendJob.buf).count b : Nat) := by
  cases MsgPos.step_cases h with
  | malloc =>
      dsimp only [Option.elim, bufs]
      rw [BufPool.bal_malloc, count_pair]
      omega
  | parse _ _ hpos => rcases hpos with ⟨-, rfl, -⟩ | ⟨-, rfl, -⟩ <;> rfl
  | refuse => rfl
  | queue =>
      dsimp only [Option.elim, bufs]
      rw [List.map_append, List.map_singleton, List.count_append, count_pair]
      dsimp only
      omega
  | giveBack =>
      dsimp only [Option.elim, bufs]
      rw [BufPool.bal_freeFor _ hipc, count_pair]
      omega
  | close =>
      dsimp only [Option.elim, bufs]
      rw [BufPool.bal_freeFor _ hipc, List.count_nil]
      omega
  | uncount => rfl

/-- The job leaves its client's thread where it is. -/
theorem MsgPos.step_client {pos : MsgPos} {act : JobAct} {ipc : Bool} {pool : BufPool}
    {mng : ZEvent G (Option Nat)} {respondSch : List SendJob} {res : MsgRes G}
    (h : pos.step dec cb call module act ipc pool mng respondSch = some res) (c : Client) :
    (res.client c).pos = c.pos := by
  cases MsgPos.step_cases h with
  | malloc | parse | refuse | queue | giveBack | close | uncount => rfl

theorem CbPos.step_bufs {pos : CbPos D} {act : JobAct} {ipc : Bool} (hipc : ipc = true)
    {pool : BufPool} {evtSch : List SendJob} {res : CbRes D}
    (h : pos.step encode module act ipc pool evtSch = some res) (b : Nat) :
    res.pool.bal b + ((res.pos.toList.flatMap CbPos.bufs).count b : Nat) +
        ((res.evtSch.map SendJob.buf).count b : Nat) =
      pool.bal b + (pos.bufs.count b : Nat) + ((evtSch.map SendJob.buf).count b : Nat) := by
  cases CbPos.step_cases h with
  | malloc =>
      change _ + (([pool.malloc.1].count b : Nat) : Int) + _ = _ + (([].count b : Nat) : Int) + _
      rw [BufPool.bal_malloc, List.count_nil]
      dsimp only
      omega
  | encode hpos => rcases hpos with rfl | rfl <;> rfl
  | refuse => rfl
  | @queue k buf =>
      change _ + (([].count b : Nat) : Int) + _ = _ + (([buf].count b : Nat) : Int) + _
      rw [List.map_append, List.map_singleton, List.count_append, List.count_nil]
      dsimp only
      omega
  | @giveBack k buf =>
      change _ + (([].count b : Nat) : Int) + _ = _ + (([buf].count b : Nat) : Int) + _
      rw [BufPool.bal_freeFor _ hipc, List.count_nil]
      dsimp only
      omega

end Local

/-! ## All threads -/

namespace Server

section Run

variable {F E D G : Type} [DecidableEq G] {inc dec : Int → Int} {cb : G}
  {call : F → ZIPCComp F → ZBuf → ZBuf → Option (EZCRTErr × ZBuf × ZBuf)}
  {encode : E → UInt32 → D → ZBuf → Option (EZCRTErr × ZBuf)} {module : ZIPCModule F E}
  {st st' : Server D G} {act : ServerAct D}

omit [DecidableEq G] in
theorem reads_of_live {k : Nat} (h : st.live k = true) (ipc : Bool) : st.reads k ipc = true := by
  unfold reads
  rw [h, Bool.true_or]

theorem step_conserves (hc : st.ReadsLive act)
    (hn : st.step inc dec cb call encode module act = some st') (b : Nat) :
    st'.pool.bal b + (st'.held.count b : Nat) = st.pool.bal b + (st.held.count b : Nat) := by
  rw [held_count, held_count]
  cases act with
  | accept =>
      obtain rfl := Option.some.inj hn
      unfold acceptStep
      dsimp only
      rw [List.flatMap_append, List.flatMap_singleton, List.count_append]
      dsimp only [CliPos.bufs]
      rw [List.count_nil]
      omega
  | client k act =>
      obtain ⟨c, hk, hn⟩ := Option.bind_eq_some_iff.mp hn
      obtain ⟨res, hres, hn⟩ := Option.bind_eq_some_iff.mp hn
      obtain rfl := Option.some.inj hn
      have hlocal := c.step_bufs hres b
      have hset := count_flatMap_set (fun c : Client => c.pos.bufs) hk res.client b
      dsimp only
      omega
  | lastEvtid evtid =>
      obtain rfl := Option.some.inj hn
      rfl
  | takeMsg =>
      unfold step takeMsgStep at hn
      dsimp only at hn
      split at hn
      · rename_i job sch hrun hsch
        obtain rfl := Option.some.inj hn
        rw [hrun, hsch, List.map_cons, count_cons_eq]
        dsimp only [Option.elim, MsgPos.bufs]
        rw [List.count_nil]
        omega
      · exact nomatch hn
  | msg ipc act =>
      obtain ⟨pos, hpos, hn⟩ := Option.bind_eq_some_iff.mp hn
      obtain ⟨res, hres, hn⟩ := Option.bind_eq_some_iff.mp hn
      obtain rfl := Option.some.inj hn
      have hlocal := MsgPos.step_bufs (reads_of_live (hc pos hpos) ipc) hres b
      have hclients := flatMap_modify (fun c : Client => c.pos.bufs) res.client
        (fun c => by rw [MsgPos.step_client hres c]) st.clients pos.client
      dsimp only
      rw [hpos, hclients]
      dsimp only [Option.elim] at hlocal ⊢
      omega
  | takeSend evt =>
      unfold step takeSendStep at hn
      dsimp only at hn
      split at hn
      · rename_i job respondSch hrun hsch
        obtain rfl := Option.some.inj hn
        rw [hrun, hsch, List.map_cons, count_cons_eq]
        dsimp only [Option.elim]
        rw [List.count_nil]
        omega
      · rename_i job evtSch hrun hsch
        obtain rfl := Option.some.inj hn
        rw [hrun, hsch, List.map_cons, count_cons_eq]
        dsimp only [Option.elim]
        rw [List.count_nil]
        omega
      · exact nomatch hn
  | send ipc =>
      obtain ⟨job, hjob, hn⟩ := Option.bind_eq_some_iff.mp hn
      obtain rfl := Option.some.inj hn
      dsimp only
      rw [BufPool.bal_freeFor _ (reads_of_live (hc job hjob) ipc), hjob]
      dsimp only [Option.elim]
      rw [List.count_nil]
      omega
  | event k evtid evtdata =>
      unfold step eventStep at hn
      dsimp only at hn
      split at hn
      · exact nomatch hn
      · obtain rfl := Option.some.inj hn
        rfl
  | callback ipc act =>
      unfold step callbackStep at hn
      dsimp only at hn
      split at hn
      · exact nomatch hn
      · rename_i pos cbs hcbs
        obtain ⟨res, hres, hn⟩ := Option.bind_eq_some_iff.mp hn
        obtain rfl := Option.some.inj hn
        have hlive : st.live pos.client = true := hc pos (by rw [hcbs]; rfl)
        have hlocal := CbPos.step_bufs (reads_of_live hlive ipc) hres b
        dsimp only
        rw [hcbs, List.flatMap_append, List.flatMap_cons, List.count_append, List.count_append]
        omega

/-- No buffer is lost or in two places, in any run in which no job and no callback reads a client
    that was freed; whatever the counters do. -/
theorem conserved_of_readsLive
    (h : (serverSys inc dec cb call encode module).Reach Server.ReadsLive st) : st.Conserved := by
  rw [conserved_iff]
  refine h.invariant (I := fun st => ∀ b, st.pool.bal b + ((st.held.count b : Nat) : Int) = 0)
    (fun st hinit => ?_) fun st act st' hinv hc hn b => (step_conserves hc hn b).trans (hinv b)
  obtain ⟨-, hfree, hfresh, hclients, hsch, hrespond, hevt, hmsg, hsend, hcbs⟩ := hinit
  intro b
  unfold BufPool.bal held
  rw [hfree, hfresh, hclients, hsch, hrespond, hevt, hmsg, hsend, hcbs]
  rfl

end Run

end Server

/-! ## A reply, and the client it is for -/

def newServer : Server UInt8 Unit :=
  { pool := noBuffers, mng := zcrtEventManageInit, clients := [], sch := [], respondSch := [],
    evtSch := [], msgRun := none, sendRun := none, cbs := [] }

abbrev byteServer : Sys (Server UInt8 Unit) (ServerAct UInt8) :=
  serverSys (· + 1) (· - 1) () nilHandler encodeByte byteModule

theorem newServer_init : byteServer.init newServer :=
  ⟨fun _ _ hx => absurd hx List.not_mem_nil, rfl, rfl, rfl, rfl, rfl, rfl, rfl, rfl, rfl⟩

/-- A client sends a request for a component that is not there, and the reply is queued. -/
def requested : List (ServerAct UInt8) :=
  [.accept, .client 0 .go, .client 0 (.recv ZEIPC_TYPE_DEFAULT nilRequest.bytes), .client 0 .go,
    .client 0 (.sendjob false), .client 0 .go, .takeMsg, .msg false .go, .msg false (.parse false),
    .msg false (.sendjob false), .msg false .go, .msg false .go]

/-- The connection ends. -/
def disconnected : List (ServerAct UInt8) :=
  [.client 0 .leave, .client 0 .go, .client 0 .go, .client 0 .go]

/-- The reply is sent before that. -/
theorem conserved_of_readsLive_one : ∃ st : Server UInt8 Unit,
    byteServer.Reach Server.ReadsLive st ∧ st.pool.fresh = 3 ∧ st.Conserved := by
  have hinit : byteServer.Reach Server.ReadsLive newServer := Sys.Reach.init newServer_init
  obtain ⟨st, hreach, hp⟩ := Sys.reach_of_run (p := fun st => decide (st.pool.fresh = 3))
    (c := fun st act => decide (st.ReadsLive act)) (fun st act => of_decide_eq_true) hinit
    (requested ++ [.takeSend false, .send false] ++ disconnected) (by decide +kernel)
  exact ⟨st, hreach, of_decide_eq_true hp, Server.conserved_of_readsLive hreach⟩

/-- The reply is sent after that: its buffer does not come back. -/
theorem replyAfterFree_lost : ¬∀ st, byteServer.Reachable st → st.Conserved := by
  intro hall
  have hinit : byteServer.Reachable newServer := Sys.Reach.init newServer_init
  obtain ⟨st, hreach, hp⟩ := Sys.reach_of_run (c := fun _ _ => true)
    (p := fun st => decide (2 < st.pool.fresh ∧ st.places.count 2 = 0)) (fun _ _ _ => trivial) hinit
    (requested ++ disconnected ++ [.takeSend false, .send false]) (by decide +kernel)
  obtain ⟨hlt, hzero⟩ := of_decide_eq_true hp
  have hone := hall st hreach 2
  rw [hzero, if_pos hlt] at hone
  exact nomatch hone

end Zcrt
