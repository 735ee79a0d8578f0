/-
  The replies of the link protocol, from the received payload to the buffer that is queued.

  A body error leaves `zipc_parse_app_link` before the header is written, and
  `_zipc_msg_proc_job` patches a size field that is not there.

  * `linkReplied_iff`: when every link reply is a well-formed message.
-/
import Zcrt.Server.Msg

namespace Zcrt

open Lib

section LinkReplies

variable {F E G P : Type} [DecidableEq G] [DecidableEq P]
  (call : F → ZIPCComp F → ZBuf → ZBuf → Option (EZCRTErr × ZBuf × ZBuf))
  (module : ZIPCModule F E) (evtMng : Option (ZEvent G P)) (heap isEventHooked : Bool)
  (ibuf : ZBuf) (full : Bool) (cb : Option G) (client null : P)

/-- What the job answers to the link message in `ibuf`, if anything, is a message that carries the
    request's serial number and the one body that goes with the code returned. -/
def LinkReplied (obuf : Option ZBuf) : Prop :=
  ∀ res out, zipcMsgProcJob call module evtMng heap isEventHooked ZEIPC_TYPE_LINK ibuf obuf full cb
      client null = some res → res.obuf = some out → out.len ≠ 0 →
    ∃ ch r, (zipcParseCommonHdr.run ibuf).1 = some ch ∧
      (obuf.bind fun obuf =>
        zipcParseAppLink module evtMng heap ibuf (zcrtBufClear obuf) cb client null) = some r ∧
      WellFormedReply ZEIPC_TYPE_LINK ch.sn (linkBodyBytes r.1) out

/-- The common header is accepted, the body's count or names are not. -/
def BodyRejected (ibuf : ZBuf) : Prop :=
  ∃ ch ret, (zipcParseCommonHdr.run ibuf).1 = some ch ∧
    (zipcParseBodyInfo.run (zipcParseCommonHdr.run ibuf).2).1 = .error ret

/-- The job after `zipc_parse_app_link` wrote something. -/
theorem zipcMsgProcJob_link {obuf v : ZBuf} {ret : EZCRTErr} {ibuf' : ZBuf}
    {evtMng' : Option (ZEvent G P)} (hv : v.len ≠ 0)
    (h : zipcParseAppLink module evtMng heap ibuf (zcrtBufClear obuf) cb client null =
      some (ret, ibuf', v, evtMng')) :
    zipcMsgProcJob call module evtMng heap isEventHooked ZEIPC_TYPE_LINK ibuf (some obuf) full cb
        client null =
      some { obuf := some (patchPayloadSize v), queued := !full, evtMng := evtMng',
             isEventHooked := true, jobDone := true } := by
  unfold zipcMsgProcJob
  dsimp only
  rw [if_pos rfl, h]
  simp only [Option.bind_eq_bind, Option.bind_some, Option.pure_def]
  rw [if_pos hv]

/-- The job after `zipc_parse_app_link` wrote nothing. -/
theorem zipcMsgProcJob_link_empty {obuf v : ZBuf} {ret : EZCRTErr} {ibuf' : ZBuf}
    {evtMng' : Option (ZEvent G P)} (hv : v.len = 0)
    (h : zipcParseAppLink module evtMng heap ibuf (zcrtBufClear obuf) cb client null =
      some (ret, ibuf', v, evtMng')) :
    zipcMsgProcJob call module evtMng heap isEventHooked ZEIPC_TYPE_LINK ibuf (some obuf) full cb
        client null =
      some { obuf := some v, queued := false, evtMng := evtMng', isEventHooked := true,
             jobDone := true } := by
  unfold zipcMsgProcJob
  dsimp only
  rw [if_pos rfl, h]
  simp only [Option.bind_eq_bind, Option.bind_some, Option.pure_def]
  rw [if_neg fun hne => hne hv]

/-- Of an accepted body the answer is always such a message. -/
theorem linkReplied_action {obuf ibuf1 args : ZBuf} {ch : ZIPCMsgCH} {compname action : List UInt8}
    (h : zipcParseCommonHdr.run ibuf = (some ch, ibuf1))
    (hb : zipcParseBodyInfo.run ibuf1 = (.ok (compname, action), args)) :
    LinkReplied call module evtMng heap isEventHooked ibuf full cb client null (some obuf) := by
  obtain ⟨reply, hreply, hlink⟩ :=
    zipcParseAppLink_action module evtMng heap ibuf obuf cb client null h hb
  intro res out hres hout _
  cases hact : zipcLinkAction module evtMng heap action args cb client null with
  | none =>
      rw [hact] at hlink
      unfold zipcMsgProcJob at hres
      dsimp only at hres
      rw [if_pos rfl, hlink] at hres
      exact nomatch hres
  | some r =>
      rw [hact] at hlink
      have ha := hreply r.1
      have hbytes : (reply r.1).bytes = linkReply ch.sn r.1 := by
        rw [ha.bytes]
        exact List.nil_append _
      have hlen : (reply r.1).len.toNat = (linkReply ch.sn r.1).length := by
        rw [← hbytes, ZBuf.bytes_length]
      have h1 := length_replyCommonhdr_le ch.sn true
      have h2 := length_linkBodyBytes_le r.1
      rw [linkReply, List.length_append, List.length_append, zipcHdrBytes_length] at hlen
      have hne : (reply r.1).len ≠ 0 := ha.len_ne_zero (List.cons_ne_nil _ _)
      rw [zipcMsgProcJob_link call module evtMng heap isEventHooked ibuf full cb client null hne
        hlink] at hres
      obtain rfl := Option.some.inj hres
      obtain rfl := Option.some.inj hout
      exact ⟨ch, _, congrArg Prod.fst h, hlink, wellFormedReply_of_bytes hbytes (by omega)⟩

/-- Link replies are well formed exactly as long as the body is not rejected after an accepted
    common header (or there is no buffer to reply in). -/
theorem linkReplied_iff (obuf : Option ZBuf) :
    LinkReplied call module evtMng heap isEventHooked ibuf full cb client null obuf ↔
      obuf = none ∨ ¬BodyRejected ibuf := by
  cases obuf with
  | none =>
      refine iff_of_true ?_ (Or.inl rfl)
      intro res out hres hout
      obtain rfl := Option.some.inj hres
      exact nomatch hout
  | some obuf =>
      rcases h : zipcParseCommonHdr.run ibuf with ⟨_ | ch, ibuf1⟩
      · -- nothing is answered
        have hlink := zipcParseAppLink_noHdr module evtMng heap ibuf (zcrtBufClear obuf) cb client
          null h
        refine iff_of_true ?_ (Or.inr ?_)
        · intro res out hres hout hne
          rw [zipcMsgProcJob_link_empty call module evtMng heap isEventHooked ibuf full cb client
            null rfl hlink] at hres
          obtain rfl := Option.some.inj hres
          obtain rfl := Option.some.inj hout
          exact absurd rfl hne
        · rintro ⟨ch, ret, hch, -⟩
          rw [h] at hch
          exact nomatch hch
      rcases hb : zipcParseBodyInfo.run ibuf1 with ⟨ret | ⟨compname, action⟩, args⟩
      · -- the nine bytes of `{err=-78}`, and no header
        obtain ⟨v, hlink, ha⟩ :=
          zipcParseAppLink_noBody module evtMng heap ibuf obuf cb client null h hb
        have hnine : (replyErrcode .ipcBodyErr).length = 9 := by decide +kernel
        have hlen : v.len.toNat = 9 := by
          rw [ha.len, hnine]
          rfl
        refine iff_of_false ?_ ?_
        · intro hall
          have hne : v.len ≠ 0 := by
            refine ha.len_ne_zero fun hnil => ?_
            rw [hnil] at hnine
            exact nomatch hnine
          obtain ⟨ch, r, -, -, hwf⟩ := hall _ (patchPayloadSize v)
            (zipcMsgProcJob_link call module evtMng heap isEventHooked ibuf full cb client null hne
              hlink) rfl hne
          have hle := UInt32.le_iff_toNat_le.mp hwf.len
          change 10 ≤ v.len.toNat at hle
          omega
        · rintro (hnone | hbody)
          · exact nomatch hnone
          · exact hbody ⟨ch, ret, by rw [h], by rw [h, hb]⟩
      · refine iff_of_true ?_ (Or.inr ?_)
        · exact linkReplied_action call module evtMng heap isEventHooked ibuf full cb client null h
            hb
        · rintro ⟨_, ret, -, hbody⟩
          rw [h] at hbody
          dsimp only at hbody
          rw [hb] at hbody
          exact nomatch hbody

/-- `{sn=5}` and a body that ends after its count. -/
def noBodyRequest : ZBuf := recycled [1, 0x11, 2, 0x73, 0x6E, 4, 10, 3] 0

end LinkReplies

/-- A truncated body is answered by nine bytes that are no message. -/
theorem truncatedBody_malformed :
    ¬∀ (F E G P : Type) [DecidableEq G] [DecidableEq P]
      (call : F → ZIPCComp F → ZBuf → ZBuf → Option (EZCRTErr × ZBuf × ZBuf))
      (module : ZIPCModule F E) (evtMng : Option (ZEvent G P)) (heap isEventHooked : Bool)
      (ibuf : ZBuf) (full : Bool) (cb : Option G) (client null : P) (obuf : Option ZBuf),
      LinkReplied call module evtMng heap isEventHooked ibuf full cb client null obuf := by
  intro hall
  have hrun : (zipcMsgProcJob (fun (_ : Unit) _ _ _ => none) (⟨none, none⟩ : ZIPCModule Unit Unit)
      (some (zcrtEventManageInit : ZEvent Unit Unit)) true false ZEIPC_TYPE_LINK noBodyRequest
      (some (recycled [] 0)) false (some ()) () ()).map (fun r => r.obuf.map ZBuf.len) =
      some (some 9) := by
    decide +kernel
  obtain ⟨res, hres, hout⟩ := Option.map_eq_some_iff.mp hrun
  obtain ⟨out, hout, hlen⟩ := Option.map_eq_some_iff.mp hout
  obtain ⟨_, _, -, -, hwf⟩ := hall Unit Unit Unit Unit (fun _ _ _ _ => none) ⟨none, none⟩
    (some zcrtEventManageInit) true false noBodyRequest false (some ()) () () (some (recycled [] 0))
    res out hres hout (by rw [hlen]; decide)
  have hle := hwf.len
  rw [hlen] at hle
  exact absurd hle (by decide)

end Zcrt
