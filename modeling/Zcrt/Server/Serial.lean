/-
  The serial numbers of event messages, with the port of `zcrtlib/zcrt_os_linux.c`: threads encode
  events at the same time, and draw their numbers from one counter.

  * `zcrtAtomInc`, `zcrtUniqueId`: the counter.
  * `serialSys`: a thread draws its number, and later has its message.
  * `serials_distinct_iff`: no two messages have the same number only when there are no two.
-/
import Zcrt.Lib.Steps
import Zcrt.Server.EvtMsg

namespace Zcrt

open Lib

/-- `zcrt_atom_inc` of the Linux port: what it returns, and the counter. -/
def zcrtAtomInc (cnt : Int32) : Int32 × Int32 := (0, cnt)

/-- `zcrt_unique_id`, `uniqueid` the counter `s_uniqueid`. -/
def zcrtUniqueId (uniqueid : Int32) : UInt32 × Int32 :=
  let (id, uniqueid) := zcrtAtomInc uniqueid
  (id.toUInt32, uniqueid)

/-- The counter, the numbers of the threads inside `zipc_encode_event`, and the messages encoded so
    far with their numbers. -/
structure SerialState where
  uniqueid : Int32
  drawn : Nat → Option UInt32
  msgs : List (UInt32 × ZBuf)

inductive SerialAct (D : Type)
  | draw (t : Nat)
  | encode (t : Nat) (evtid : UInt32) (evtdata : D) (buf : ZBuf)

section Sys

variable {F E D : Type} (encode : E → UInt32 → D → ZBuf → Option (EZCRTErr × ZBuf))
  (module : Option (ZIPCModule F E))

/-- A thread calls `zcrt_unique_id`, when there is an encoder. -/
def SerialState.drawStep (st : SerialState) (t : Nat) : Option SerialState :=
  if (zipcServerGetEventEncode module).isSome ∧ st.drawn t = none then
    let (sn, uniqueid) := zcrtUniqueId st.uniqueid
    some { st with uniqueid := uniqueid, drawn := Function.update st.drawn t (some sn) }
  else none

/-- Its `zipc_encode_event` returns. -/
def SerialState.encodeStep (st : SerialState) (t : Nat) (evtid : UInt32) (evtdata : D)
    (buf : ZBuf) : Option SerialState := do
  let sn ← st.drawn t
  let (ret, msg) ← zipcEncodeEvent encode module sn evtid evtdata (zcrtBufClear buf)
  some { st with
         drawn := Function.update st.drawn t none
         msgs := if ret = .success then st.msgs ++ [(sn, msg)] else st.msgs }

def serialSys : Sys SerialState (SerialAct D) where
  init st := st = { uniqueid := 0, drawn := fun _ => none, msgs := [] }
  next st
    | .draw t => st.drawStep module t
    | .encode t evtid evtdata buf => st.encodeStep encode module t evtid evtdata buf

end Sys

/-- The first `n` messages have `n` numbers. -/
def SerialsDistinct (st : SerialState) : Prop :=
  ∀ n < 2 ^ 32, ((st.msgs.take n).map Prod.fst).Nodup

/-- All numbers are 0. -/
structure SerialsZero (st : SerialState) : Prop where
  drawn : ∀ t sn, st.drawn t = some sn → sn = 0
  msgs : ∀ m ∈ st.msgs, m.1 = 0

section Run

variable {F E D : Type} {encode : E → UInt32 → D → ZBuf → Option (EZCRTErr × ZBuf)}
  {module : Option (ZIPCModule F E)} {st st' : SerialState}

theorem SerialsZero.drawStep (h : SerialsZero st) {t : Nat}
    (hs : st.drawStep module t = some st') : SerialsZero st' := by
  unfold SerialState.drawStep at hs
  split at hs
  · obtain rfl := Option.some.inj hs
    refine ⟨fun u sn hu => ?_, h.msgs⟩
    by_cases hut : u = t
    · subst hut
      dsimp only at hu
      rw [Function.update_self] at hu
      exact (Option.some.inj hu).symm
    · dsimp only at hu
      rw [Function.update_of_ne hut] at hu
      exact h.drawn u sn hu
  · exact nomatch hs

theorem SerialsZero.encodeStep (h : SerialsZero st) {t : Nat} {evtid : UInt32} {evtdata : D}
    {buf : ZBuf} (hs : st.encodeStep encode module t evtid evtdata buf = some st') :
    SerialsZero st' := by
  obtain ⟨sn, hsn, hs⟩ := Option.bind_eq_some_iff.mp hs
  obtain ⟨⟨ret, msg⟩, -, hs⟩ := Option.bind_eq_some_iff.mp hs
  obtain rfl := Option.some.inj hs
  refine ⟨fun u sn' hu => ?_, fun m hm => ?_⟩
  · by_cases hut : u = t
    · subst hut
      dsimp only at hu
      rw [Function.update_self] at hu
      exact nomatch hu
    · dsimp only at hu
      rw [Function.update_of_ne hut] at hu
      exact h.drawn u sn' hu
  · dsimp only at hm
    split at hm
    · rcases List.mem_append.mp hm with hm | hm
      · exact h.msgs m hm
      · obtain rfl := List.mem_singleton.mp hm
        exact h.drawn t sn hsn
    · exact h.msgs m hm

theorem serialsZero_of_reach (h : (serialSys encode module).Reachable st) : SerialsZero st := by
  refine h.invariant (I := SerialsZero) (fun st hst => ?_) fun st act st' hzero _ hs => ?_
  · obtain rfl := hst
    exact ⟨(fun _ _ hn => nomatch hn), fun _ hm => absurd hm List.not_mem_nil⟩
  · cases act with
    | draw t => exact hzero.drawStep hs
    | encode t evtid evtdata buf => exact hzero.encodeStep hs

/-- In every run the messages have different numbers exactly until there are two. -/
theorem serials_distinct_iff (h : (serialSys encode module).Reachable st) :
    SerialsDistinct st ↔ st.msgs.length ≤ 1 := by
  have hzero := serialsZero_of_reach h
  constructor
  · intro hdist
    by_contra hlong
    match hmsgs : st.msgs with
    | [] => simp [hmsgs] at hlong
    | [_] => simp [hmsgs] at hlong
    | m1 :: m2 :: ms =>
        have hnodup := hdist 2 (by decide)
        have h1 := hzero.msgs m1 (by simp [hmsgs])
        have h2 := hzero.msgs m2 (by simp [hmsgs])
        simp [hmsgs, h1, h2] at hnodup
  · intro hshort n _
    match hmsgs : st.msgs with
    | [] => simp
    | [m] => cases n <;> simp
    | m1 :: m2 :: ms => simp [hmsgs] at hshort

end Run

/-! ## One message, and two -/

/-- The serial number a receiver reads in a message. -/
def snRead (msg : ZBuf) : Option UInt32 :=
  (zipcParseCommonHdr.run { msg with offset := ZIPC_HEAD_LEN }).1.map ZIPCMsgCH.sn

def noSerials : SerialState := { uniqueid := 0, drawn := fun _ => none, msgs := [] }

theorem serials_distinct_iff_one : ∃ st, (serialSys encodeByte (some byteModule)).Reachable st ∧
    st.msgs.length = 1 ∧ (SerialsDistinct st ↔ st.msgs.length ≤ 1) := by
  have hinit : (serialSys encodeByte (some byteModule)).Reachable noSerials := Sys.Reach.init rfl
  obtain ⟨st, hst, hp⟩ := Sys.reach_of_run (c := fun _ _ => true)
    (p := fun st => st.msgs.length == 1) (fun _ _ _ => trivial) hinit
    [.draw 0, .draw 1, .encode 1 3 9 (recycled [] 0)] (by decide)
  exact ⟨st, hst, eq_of_beq hp, serials_distinct_iff hst⟩

/-- Two threads, an event each: both messages read as number 0. -/
theorem twoEvents_sameSerial : ∃ st, (serialSys encodeByte (some byteModule)).Reachable st ∧
    st.msgs.map (fun m => snRead m.2) = [some 0, some 0] ∧ ¬SerialsDistinct st := by
  have hinit : (serialSys encodeByte (some byteModule)).Reachable noSerials := Sys.Reach.init rfl
  obtain ⟨st, hst, hp⟩ := Sys.reach_of_run (c := fun _ _ => true)
    (p := fun st => st.msgs.map (fun m => snRead m.2) == [some 0, some 0] &&
      st.msgs.map Prod.fst == [0, 0]) (fun _ _ _ => trivial) hinit
    [.draw 0, .draw 1, .encode 1 3 9 (recycled [] 0), .encode 0 4 9 (recycled [] 0)] (by decide)
  obtain ⟨hread, hmsgs⟩ := Bool.and_eq_true_iff.mp hp
  refine ⟨st, hst, eq_of_beq hread, fun hdist => ?_⟩
  have hnodup := hdist 2 (by decide)
  rw [List.map_take, eq_of_beq hmsgs] at hnodup
  exact absurd hnodup (by decide)

end Zcrt
