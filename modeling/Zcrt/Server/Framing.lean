/-
  The receive loop of `_zipc_client_thread`: messages out of a TCP stream, of which each `recv`
  returns as much as it likes.

  * `recv`: any number of bytes from 1 to what was asked for, while there are any.
  * `recvMsg`, `recvLoop`: one pass of the loop, and the passes up to the one that leaves it.
  * `recvMsg_message`: the pass that meets a message.
  * `handed_iff`: the messages are handed on as they were sent exactly if no `recv` stops short.
-/
import Zcrt.Server.Msg

namespace Zcrt

open Lib

/-- The bytes still to come, and the number of calls of `recv` made. -/
structure Conn where
  stream : List UInt8
  calls : Nat

/-- `recv`: of the `n` bytes asked for it has `want` at hand, and at least one while the stream
    lasts. -/
def recv (want : Nat → Nat) (n : Nat) (c : Conn) : List UInt8 × Conn :=
  let len := min (max 1 (want c.calls)) (min n c.stream.length)
  (c.stream.take len, { stream := c.stream.drop len, calls := c.calls + 1 })

/-- `_zipc_client_recv_hdr`: `appType` and `payloadSize`, if it is `true`. -/
def zipcClientRecvHdr (want : Nat → Nat) (c : Conn) : Option (UInt16 × UInt32) × Conn :=
  let (bs, c) := recv want ZIPC_HEAD_LEN.toNat c
  let hdr : Mem := fun i => bs.getD i 0
  if bs.length ≠ ZIPC_HEAD_LEN.toNat ∨ !zipcParseCheckHdr hdr then (none, c)
  else if hdrPayloadSize hdr ≥ ZIPC_BUF_LEN then (none, c)
  else (some (hdrAppType hdr, hdrPayloadSize hdr), c)

/-- `_zipc_client_recv_payload`: the memory at `buf` after it, if it is `true`. -/
def zipcClientRecvPayload (want : Nat → Nat) (c : Conn) (payloadSize : UInt32) (buf : Mem) :
    Option Mem × Conn :=
  let (bs, c) := recv want payloadSize.toNat c
  if bs.length ≠ payloadSize.toNat then (none, c) else (some (buf.copy 0 bs), c)

/-- A pass of the loop: the `appType` and the buffer handed to `zcrt_schedule_sendjob_argn`, or none
    where the loop is left. -/
def recvMsg (want : Nat → Nat) (buf : ZBuf) (c : Conn) : Option (Option (UInt16 × ZBuf) × Conn) :=
  match zipcClientRecvHdr want c with
  | (none, c) => some (none, c)
  | (some (appType, payloadSize), c) => do
      let buf ← zcrtBufRealloc buf payloadSize
      match zipcClientRecvPayload want c payloadSize buf.buf with
      | (none, c) => pure (none, c)
      | (some mem, c) =>
          pure (some (appType, { buf with buf := mem, len := payloadSize, offset := 0 }), c)

/-- The loop from pass `j` on, of at most `fuel` passes: what it hands on. `bufs j` is the buffer
    `zipc_buf_malloc` finds for a pass, and each job is queued. -/
def recvLoop (want : Nat → Nat) (bufs : Nat → ZBuf) :
    Nat → Nat → Conn → Option (List (UInt16 × ZBuf))
  | 0, _, _ => none
  | fuel + 1, j, c => do
      match ← recvMsg want (bufs j) c with
      | (none, _) => some []
      | (some msg, c) => (recvLoop want bufs fuel (j + 1) c).map (msg :: ·)

/-- A message that is well formed. -/
structure Message where
  version : UInt16
  appType : UInt16
  payload : List UInt8
  short : payload.length < ZIPC_BUF_LEN.toNat

namespace Message

def hdrBytes (m : Message) : List UInt8 :=
  htons zipcSig ++ (htons m.version ++ (htons m.appType ++ htonl (UInt32.ofNat m.payload.length)))

def bytes (m : Message) : List UInt8 := m.hdrBytes ++ m.payload

end Message

/-- The `recv` that has `want` at hand is not short of `n` bytes. -/
def Whole (want n : Nat) : Prop := n ≤ max 1 want

/-- No `recv` stops short of the header or the payload it is called for; the first one is call
    `i`. -/
def AllWhole (want : Nat → Nat) : Nat → List Message → Prop
  | _, [] => True
  | i, m :: msgs => (Whole (want i) ZIPC_HEAD_LEN.toNat ∧ Whole (want (i + 1)) m.payload.length) ∧
      AllWhole want (i + 2) msgs

/-- What was handed on are these messages. -/
def Handed (handed : List (UInt16 × ZBuf)) (msgs : List Message) : Prop :=
  handed.map (fun x => (x.1, x.2.bytes)) = msgs.map fun m => (m.appType, m.payload)

/-! ## One message -/

variable (want : Nat → Nat)

/-- With `n` bytes there, followed by others. -/
theorem recv_append (a b : List UInt8) (i : Nat) :
    (Whole (want i) a.length → recv want a.length ⟨a ++ b, i⟩ = (a, ⟨b, i + 1⟩)) ∧
    (¬Whole (want i) a.length → (recv want a.length ⟨a ++ b, i⟩).1.length ≠ a.length) := by
  unfold recv Whole
  dsimp only
  rw [List.length_append]
  constructor
  · intro hle
    have hlen : min (max 1 (want i)) (min a.length (a.length + b.length)) = a.length := by omega
    rw [hlen, List.take_left, List.drop_left]
  · intro hlt
    rw [List.length_take, List.length_append]
    omega

theorem Message.hdrBytes_length (m : Message) : m.hdrBytes.length = 10 := rfl

theorem Message.length_eq (m : Message) :
    (UInt32.ofNat m.payload.length).toNat = m.payload.length := by
  have hshort := m.short
  change _ < 8192 at hshort
  rw [UInt32.toNat_ofNat']
  omega

/-- The header of a message is read back. -/
theorem Message.hdr_fields (m : Message) :
    zipcParseCheckHdr (fun i => m.hdrBytes.getD i 0) = true ∧
    hdrAppType (fun i => m.hdrBytes.getD i 0) = m.appType ∧
    hdrPayloadSize (fun i => m.hdrBytes.getD i 0) = UInt32.ofNat m.payload.length := by
  have hsig : hdrSignature (fun i => m.hdrBytes.getD i 0) = zipcSig := ntohs_of_slice rfl
  refine ⟨?_, ntohs_of_slice rfl, ntohl_of_slice rfl⟩
  unfold zipcParseCheckHdr
  rw [hsig]
  rfl

/-- A `recv` that stops short of a header ends the loop, and so does one at the end. -/
theorem recvHdr_short {c : Conn}
    (h : (recv want ZIPC_HEAD_LEN.toNat c).1.length ≠ ZIPC_HEAD_LEN.toNat) :
    (zipcClientRecvHdr want c).1 = none := by
  unfold zipcClientRecvHdr
  rcases hr : recv want ZIPC_HEAD_LEN.toNat c with ⟨bs, c'⟩
  rw [hr] at h
  dsimp only
  rw [if_pos (Or.inl h)]

/-- The header of a message, if `recv` gets it as a whole, and the loop is left otherwise. -/
theorem recvHdr_message (m : Message) (b : List UInt8) (i : Nat) :
    (Whole (want i) ZIPC_HEAD_LEN.toNat → zipcClientRecvHdr want ⟨m.hdrBytes ++ b, i⟩ =
      (some (m.appType, UInt32.ofNat m.payload.length), ⟨b, i + 1⟩)) ∧
    (¬Whole (want i) ZIPC_HEAD_LEN.toNat →
      (zipcClientRecvHdr want ⟨m.hdrBytes ++ b, i⟩).1 = none) := by
  obtain ⟨hcheck, happ, hsize⟩ := m.hdr_fields
  obtain ⟨hwhole, hshort⟩ := recv_append want m.hdrBytes b i
  have hlen : m.hdrBytes.length = ZIPC_HEAD_LEN.toNat := rfl
  rw [hlen] at hwhole hshort
  constructor
  · intro hw
    have hlt : ¬hdrPayloadSize (fun i => m.hdrBytes.getD i 0) ≥ ZIPC_BUF_LEN := by
      rw [hsize, ge_iff_le, UInt32.le_iff_toNat_le, m.length_eq]
      exact Nat.not_le.mpr m.short
    have hok : ¬(m.hdrBytes.length ≠ ZIPC_HEAD_LEN.toNat ∨
        (!zipcParseCheckHdr fun i => m.hdrBytes.getD i 0) = true) := by
      rw [hcheck]
      exact fun h => h.elim (fun hne => hne rfl) Bool.false_ne_true
    unfold zipcClientRecvHdr
    rw [hwhole hw]
    dsimp only
    rw [if_neg hok, if_neg hlt, happ, hsize]
  · exact fun hw => recvHdr_short want (hshort hw)

/-- The payload of a message likewise. -/
theorem recvPayload_message (m : Message) (b : List UInt8) (i : Nat) (buf : Mem) :
    (Whole (want i) m.payload.length →
      zipcClientRecvPayload want ⟨m.payload ++ b, i⟩ (UInt32.ofNat m.payload.length) buf =
        (some (buf.copy 0 m.payload), ⟨b, i + 1⟩)) ∧
    (¬Whole (want i) m.payload.length →
      (zipcClientRecvPayload want ⟨m.payload ++ b, i⟩ (UInt32.ofNat m.payload.length) buf).1 =
        none) := by
  obtain ⟨hwhole, hshort⟩ := recv_append want m.payload b i
  unfold zipcClientRecvPayload
  rw [m.length_eq]
  constructor
  · intro hw
    rw [hwhole hw]
    dsimp only
    rw [if_neg fun hne => hne rfl]
  · intro hw
    have hlen := hshort hw
    rcases hr : recv want m.payload.length ⟨m.payload ++ b, i⟩ with ⟨bs, c⟩
    rw [hr] at hlen
    dsimp only
    rw [if_pos hlen]

/-- The pass of the loop that meets a message: it is handed on, or the loop is left. -/
theorem recvMsg_message (m : Message) (b : List UInt8) (i : Nat) (buf : ZBuf) :
    ((Whole (want i) ZIPC_HEAD_LEN.toNat ∧ Whole (want (i + 1)) m.payload.length) ∧
      ∃ v, recvMsg want buf ⟨m.bytes ++ b, i⟩ = some (some (m.appType, v), ⟨b, i + 2⟩) ∧
        v.bytes = m.payload) ∨
    (¬(Whole (want i) ZIPC_HEAD_LEN.toNat ∧ Whole (want (i + 1)) m.payload.length) ∧
      ∃ c, recvMsg want buf ⟨m.bytes ++ b, i⟩ = some (none, c)) := by
  have hbytes : m.bytes ++ b = m.hdrBytes ++ (m.payload ++ b) := List.append_assoc ..
  obtain ⟨hhdr, hnohdr⟩ := recvHdr_message want m (m.payload ++ b) i
  unfold recvMsg
  rw [hbytes]
  by_cases hw : Whole (want i) ZIPC_HEAD_LEN.toNat
  · rw [hhdr hw]
    have hlt : (UInt32.ofNat m.payload.length).toNat < 2 ^ 31 - 1 := by
      rw [m.length_eq]
      exact m.short.trans (by decide)
    obtain ⟨v, hv, -⟩ := zcrtBufRealloc_of_lt (v := buf) hlt
    obtain ⟨hpay, hnopay⟩ := recvPayload_message want m b (i + 1) v.buf
    dsimp only
    rw [hv, Option.bind_eq_bind, Option.bind_some]
    by_cases hw' : Whole (want (i + 1)) m.payload.length
    · rw [hpay hw']
      refine Or.inl ⟨⟨hw, hw'⟩, _, rfl, ?_⟩
      change Mem.slice _ 0 (UInt32.ofNat m.payload.length).toNat = _
      rw [m.length_eq]
      exact Mem.slice_copy_self _ _ _
    · refine Or.inr ⟨fun h => hw' h.2, ?_⟩
      rcases hr : zipcClientRecvPayload want ⟨m.payload ++ b, i + 1⟩
        (UInt32.ofNat m.payload.length) v.buf with ⟨mem, c⟩
      have hnone := hnopay hw'
      rw [hr] at hnone
      obtain rfl : mem = none := hnone
      exact ⟨c, rfl⟩
  · refine Or.inr ⟨fun h => hw h.1, ?_⟩
    rcases hr : zipcClientRecvHdr want ⟨m.hdrBytes ++ (m.payload ++ b), i⟩ with ⟨hdr, c⟩
    have hnone := hnohdr hw
    rw [hr] at hnone
    obtain rfl : hdr = none := hnone
    exact ⟨c, rfl⟩

/-- The pass after the last message. -/
theorem recvMsg_end (i : Nat) (buf : ZBuf) :
    ∃ c, recvMsg want buf ⟨[], i⟩ = some (none, c) := by
  have hlen : (recv want ZIPC_HEAD_LEN.toNat ⟨[], i⟩).1.length ≠ ZIPC_HEAD_LEN.toNat := by
    unfold recv
    dsimp only
    rw [List.take_nil]
    decide
  have hnone := recvHdr_short want hlen
  unfold recvMsg
  rcases hr : zipcClientRecvHdr want ⟨[], i⟩ with ⟨hdr, c⟩
  rw [hr] at hnone
  obtain rfl : hdr = none := hnone
  exact ⟨c, rfl⟩

/-! ## All messages -/

/-- From any pass on. -/
theorem handed_from (bufs : Nat → ZBuf) (msgs : List Message) (i j : Nat) {fuel : Nat}
    (hfuel : (msgs.flatMap Message.bytes).length < fuel) :
    ∃ handed, recvLoop want bufs fuel j ⟨msgs.flatMap Message.bytes, i⟩ = some handed ∧
      (Handed handed msgs ↔ AllWhole want i msgs) := by
  induction msgs generalizing i j fuel with
  | nil =>
      obtain ⟨fuel, rfl⟩ := Nat.exists_eq_add_one_of_ne_zero (Nat.ne_zero_of_lt hfuel)
      obtain ⟨c, hend⟩ := recvMsg_end want i (bufs j)
      refine ⟨[], ?_, iff_of_true rfl trivial⟩
      unfold recvLoop
      rw [List.flatMap_nil, hend]
      rfl
  | cons m msgs ih =>
      obtain ⟨fuel, rfl⟩ := Nat.exists_eq_add_one_of_ne_zero (Nat.ne_zero_of_lt hfuel)
      rw [List.flatMap_cons] at hfuel ⊢
      unfold recvLoop
      rcases recvMsg_message want m (msgs.flatMap Message.bytes) i (bufs j) with
        ⟨hw, v, hmsg, hbytes⟩ | ⟨hw, c, hmsg⟩
      · have hrest : (msgs.flatMap Message.bytes).length < fuel := by
          rw [List.length_append, Message.bytes, List.length_append, m.hdrBytes_length] at hfuel
          omega
        obtain ⟨handed, hloop, hiff⟩ := ih (i + 2) (j + 1) hrest
        refine ⟨(m.appType, v) :: handed, ?_, ?_⟩
        · rw [hmsg, Option.bind_eq_bind, Option.bind_some]
          dsimp only
          rw [hloop, Option.map_some]
        · unfold AllWhole Handed
          rw [and_iff_right hw, ← hiff, List.map_cons, List.map_cons, hbytes]
          exact List.cons_eq_cons.trans (and_iff_right rfl)
      · refine ⟨[], ?_, iff_of_false (fun h => nomatch h) fun h => hw h.1⟩
        rw [hmsg]
        rfl

/-- The loop comes to its end, and has handed on the messages sent, each with its `appType` and its
    payload, exactly if no `recv` for a header or a payload stops short. -/
theorem handed_iff (want : Nat → Nat) (bufs : Nat → ZBuf) (msgs : List Message) :
    ∃ handed, recvLoop want bufs ((msgs.flatMap Message.bytes).length + 1) 0
        ⟨msgs.flatMap Message.bytes, 0⟩ = some handed ∧
      (Handed handed msgs ↔ AllWhole want 0 msgs) :=
  handed_from want bufs msgs 0 0 (Nat.lt_succ_self _)

/-- A request without payload whose header comes in two parts. -/
theorem splitHeader_lost : ¬∀ (want : Nat → Nat) (bufs : Nat → ZBuf) (msgs : List Message)
    (handed : List (UInt16 × ZBuf)), recvLoop want bufs ((msgs.flatMap Message.bytes).length + 1) 0
      ⟨msgs.flatMap Message.bytes, 0⟩ = some handed → Handed handed msgs := by
  intro hall
  have hlost := hall (fun _ => 4) (fun _ => recycled [] 0) [⟨0, 0, [], by decide⟩] [] rfl
  exact nomatch hlost

end Zcrt
