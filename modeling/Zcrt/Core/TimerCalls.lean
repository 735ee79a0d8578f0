/-
  What the calls of the modules do to the timers pending.

  * `timerconAdd_leads`, `timerconAddArgn_leads`: the same timers, or one more, the last.
  * `timerTake_unlink`: the timer `zcrt_timer_delete` comes to is taken out as the timer thread
    does it.
  * `timerDelete_leads`: the first timer that matches is gone, the others stay in order.
-/
import Zcrt.Core.TimerRun

namespace Zcrt

open Lib

variable {F P : Type} {mng mng' : ZTimer F P} {l l' : List (Timed F P)} {fr fr' : List Nat}

/-- Which timer `zcrt_timer_delete` takes out. -/
theorem firstOf_cases [DecidableEq F] [DecidableEq P] (l : List (Timed F P)) (null : P) (cb : F)
    (p1 p2 : P) :
    (∀ x ∈ l, ¬x.2.isOf null cb p1 p2) ∨
    ∃ (pre : List (Timed F P)) (x : Timed F P) (r : List (Timed F P)), l = pre ++ x :: r ∧
      (∀ y ∈ pre, ¬y.2.isOf null cb p1 p2) ∧ x.2.isOf null cb p1 p2 ∧
      l.eraseP (fun y => y.2.isOf null cb p1 p2) = pre ++ r := by
  by_cases hmatch : ∃ x ∈ l, x.2.isOf null cb p1 p2
  · obtain ⟨y, hy, hyof⟩ := hmatch
    obtain ⟨x, pre, r, hno, hx, hl, herase⟩ :=
      List.exists_of_eraseP (p := fun y : Timed F P => y.2.isOf null cb p1 p2) hy hyof
    exact Or.inr ⟨pre, x, r, hl, hno, hx, herase⟩
  · exact Or.inl fun x hx hof => hmatch ⟨x, hx, hof⟩

namespace Pending

theorem leads_containers (h : Pending mng l fr) (container : UInt16 → UInt8) (i : UInt16) :
    Leads mng l fr { mng with container := container, conlastid := i } l fr :=
  ⟨h.of_containers rfl rfl rfl rfl, fun _ _ hb => ⟨hb.node, hb.list, hb.free⟩, fun hc => hc⟩

theorem containerDelete_leads (h : Pending mng l fr) (c : UInt16) :
    ∃ mng', zcrtTimerContainerDelete (some mng) c = some mng' ∧ Leads mng l fr mng' l fr := by
  unfold zcrtTimerContainerDelete
  dsimp only
  split
  · exact ⟨mng, rfl, h.leads⟩
  · exact ⟨_, rfl, h.leads_containers _ _⟩

theorem containerNew_leads (h : Pending mng l fr) {c : UInt16}
    (hnew : zcrtTimerContainerNew (some mng) = .ok (c, some mng')) :
    Leads mng l fr mng' l fr := by
  rcases containerNew_firstFree hnew with rfl | ⟨-, i, rfl⟩
  · exact h.leads
  · exact h.leads_containers _ _

/-! ## A timer added -/

/-- After an adding call: the timers as they were, or one more. -/
def Added (l l' : List (Timed F P)) (period : UInt32) (ret : EZCRTErr) : Prop :=
  ret ≠ .success ∧ l' = l ∨ ret = .success ∧ ∃ x : Timed F P, l' = l ++ [x] ∧ x.2.left = period

theorem timerconAdd_leads (h : Pending mng l fr) (mem : Bool) (c : UInt16) (period : UInt32)
    (cb : Option F) (p1 p2 : P) :
    ∃ ret mng' l' fr', zcrtTimerconAdd (some mng) mem c period cb p1 p2 = .ok (ret, some mng') ∧
      Leads mng l fr mng' l' fr' ∧ Added l l' period ret := by
  obtain ⟨ret, mng', l', fr', hadd, hleads, -, hcase⟩ :=
    h.timerconAdd_pending mem c period cb p1 p2
  refine ⟨ret, mng', l', fr', hadd, hleads, ?_⟩
  rcases hcase with hsame | ⟨hret, -, a, rfl⟩
  · exact Or.inl hsame
  · exact Or.inr ⟨hret, _, rfl, rfl⟩

theorem timerconAddArgn_leads (h : Pending mng l fr) (mem : Bool) (c : UInt16) (period : UInt32)
    (cb : Option F) (args : List P) :
    ∃ ret mng' l' fr', zcrtTimerconAddArgn (some mng) mem c period cb args = .ok (ret, some mng') ∧
      Leads mng l fr mng' l' fr' ∧ Added l l' period ret := by
  rw [timerconAddArgn_eq]
  split
  · exact ⟨_, mng, l, fr, rfl, h.leads, Or.inl ⟨by decide, rfl⟩⟩
  split
  · exact ⟨_, mng, l, fr, rfl, h.leads, Or.inl ⟨by decide, rfl⟩⟩
  rename_i hargs
  split
  · exact ⟨_, mng, l, fr, rfl, h.leads, Or.inl ⟨by decide, rfl⟩⟩
  have hfn : cb ≠ none := by
    intro he
    exact hargs (Or.inl (Option.isNone_iff_eq_none.mpr he))
  rcases h.timerPut_pending mem period cb
      (fun d => { d with argn := UInt32.ofNat args.length, args := args }) hfn with
    ⟨-, hno⟩ | ⟨a, mng', hput, hleads, -⟩
  · exact ⟨_, mng, l, fr, hno, h.leads, Or.inl ⟨by decide, rfl⟩⟩
  · exact ⟨_, mng', _, _, hput, hleads, Or.inr ⟨rfl, _, rfl, rfl⟩⟩

/-! ## A timer deleted -/

section Delete

variable [DecidableEq F] [DecidableEq P] {null p1 p2 : P} {cb : F}

/-- The loop of `zcrt_timer_delete` passes the timers that do not match. -/
theorem timerFind_skip {ns : List (Node (ZTimerCB F P))} {p : Option Nat}
    {pre r : List (Timed F P)} (h : Seg (Nodes.nextOf ns) p ((pre ++ r).map Prod.fst) none)
    (hdata : ∀ x ∈ pre, Nodes.dataOf ns x.1 = some x.2)
    (hno : ∀ x ∈ pre, ¬x.2.isOf null cb p1 p2) (fuel prev : Nat) :
    timerFind null ns cb p1 p2 (pre.length + fuel) p prev =
      timerFind null ns cb p1 p2 fuel (r.map Prod.fst).head?
        (((pre.map Prod.fst).getLast?).getD prev) := by
  induction pre generalizing p prev with
  | nil =>
      rw [h.head, List.length_nil, Nat.zero_add]
      rfl
  | cons x pre ih =>
      obtain ⟨rfl, next, hnext, hrest⟩ := h
      obtain ⟨n, hn, rfl⟩ := Option.map_eq_some_iff.mp hnext
      have hd : n.data = x.2 := Option.some.inj
        ((Nodes.dataOf_of_node hn).symm.trans (hdata x List.mem_cons_self))
      have hfuel : (x :: pre).length + fuel = (pre.length + fuel) + 1 := by
        rw [List.length_cons]
        omega
      rw [hfuel, timerFind, Nodes.load_some hn, except_ok_bind]
      dsimp only
      rw [hd, if_neg (hno x List.mem_cons_self),
        ih hrest (fun y hy => hdata y (List.mem_cons_of_mem _ hy))
          fun y hy => hno y (List.mem_cons_of_mem _ hy)]
      congr 1
      rw [List.map_cons, List.getLast?_cons, Option.getD_some]

theorem timerFind_pending {pre r : List (Timed F P)} (h : Pending mng (pre ++ r) fr)
    (hno : ∀ x ∈ pre, ¬x.2.isOf null cb p1 p2) (prev : Nat) :
    timerFind null mng.nodes cb p1 p2 (mng.nodes.length + 1) mng.job prev =
      timerFind null mng.nodes cb p1 p2 (mng.nodes.length - pre.length + 1) (r.map Prod.fst).head?
        (((pre.map Prod.fst).getLast?).getD prev) := by
  have hlen := Nodes.length_le h.seg
  rw [List.length_map, List.length_append] at hlen
  have hfuel : mng.nodes.length + 1 = pre.length + (mng.nodes.length - pre.length + 1) := by omega
  rw [hfuel]
  exact timerFind_skip h.seg (fun x hx => h.data x (List.mem_append_left _ hx)) hno _ prev

/-- No timer matches. -/
theorem timerTake_none (h : Pending mng l fr) (hno : ∀ x ∈ l, ¬x.2.isOf null cb p1 p2) :
    timerTake null mng cb p1 p2 = .ok (none, mng) := by
  cases l with
  | nil =>
      have hjob : mng.job = none := h.seg
      unfold timerTake
      rw [hjob]
  | cons x l =>
      have hjob : mng.job = some x.1 := h.seg.1
      have htail : mng.tail ≠ none := by
        rw [h.tail]
        simp
      obtain ⟨n, hn, hd⟩ := h.node List.mem_cons_self
      rw [← List.append_nil (x :: l)] at h
      have hfind := h.timerFind_pending hno x.1
      rw [hjob] at hfind
      unfold timerTake
      rw [hjob]
      dsimp only
      rw [Nodes.load_some hn, except_ok_bind]
      dsimp only
      rw [hd, if_neg (hno x List.mem_cons_self), hfind]
      exact if_neg htail

/-- The first timer matches: it is the last one exactly if `tail` is it. -/
theorem timerTake_first {r : List (Timed F P)} {x : Timed F P} (h : Pending mng (x :: r) fr)
    (hx : x.2.isOf null cb p1 p2) :
    timerTake null mng cb p1 p2 = (timerUnlink mng x.1 none).map fun u => (some x.1, u.1) := by
  obtain ⟨n, hn, hd⟩ := h.node List.mem_cons_self
  have hjob : mng.job = some x.1 := h.seg.1
  obtain ⟨-, next, hnext, hrest⟩ := h.seg
  obtain rfl := Option.some.inj ((Nodes.nextOf_of_node hn).symm.trans hnext)
  unfold timerUnlink timerUnhook timerTake
  rw [Nodes.load_some hn, except_ok_bind]
  dsimp only
  rw [if_pos hjob, hjob]
  dsimp only
  rw [Nodes.load_some hn, except_ok_bind]
  dsimp only
  rw [hd, if_pos hx]
  simp only [except_pure, except_ok_bind, timerFixTail]
  rw [Nodes.load_some hn, except_ok_bind]
  dsimp only
  have htail := h.tail
  have hhead := hrest.head
  cases r with
  | nil =>
      have hnone : n.next = none := hhead
      have hlast : mng.tail = some x.1 := htail
      rw [if_pos hlast, if_neg (not_not.mpr hnone), if_pos hnone, hnone]
      rfl
  | cons z r =>
      have hsome : n.next = some z.1 := hhead
      have hlast : mng.tail ≠ some x.1 := by
        intro he
        rw [htail] at he
        refine (List.nodup_cons.mp h.nodup).1 (List.mem_of_getLast? ?_)
        simpa using he
      rw [if_neg hlast, if_neg (by rw [hsome]; simp)]
      rfl

/-- A timer behind others is the first that matches. -/
theorem timerTake_behind {pre r : List (Timed F P)} {x y : Timed F P}
    (h : Pending mng (y :: pre ++ x :: r) fr) (hno : ∀ z ∈ y :: pre, ¬z.2.isOf null cb p1 p2)
    (hx : x.2.isOf null cb p1 p2) :
    timerTake null mng cb p1 p2 =
      (timerUnlink mng x.1 ((y :: pre).map Prod.fst).getLast?).map fun u => (some x.1, u.1) := by
  obtain ⟨n, hn, hd⟩ := h.node (List.mem_append_right _ List.mem_cons_self)
  obtain ⟨m, hm, hmd⟩ := h.node List.mem_cons_self
  have hjob : mng.job = some y.1 := h.seg.1
  have hne : ¬mng.job = some x.1 := by
    intro he
    refine (List.nodup_cons.mp h.nodup).1 ?_
    rw [Option.some.inj (hjob.symm.trans he)]
    exact List.mem_map_of_mem (List.mem_append_right _ List.mem_cons_self)
  have hlast : ((y :: pre).map Prod.fst).getLast? =
      some ((((y :: pre).map Prod.fst).getLast?).getD y.1) := by
    rw [List.map_cons, List.getLast?_cons, Option.getD_some]
  have hfind := h.timerFind_pending hno y.1
  rw [List.map_cons, List.head?_cons, timerFind, Nodes.load_some hn, except_ok_bind] at hfind
  dsimp only at hfind
  rw [hd, if_pos hx, except_pure, hjob] at hfind
  unfold timerUnlink timerUnhook timerTake
  rw [Nodes.load_some hn, except_ok_bind]
  dsimp only
  rw [if_neg hne, hjob]
  dsimp only
  rw [Nodes.load_some hm, except_ok_bind]
  dsimp only
  rw [hmd, if_neg (hno y List.mem_cons_self), hfind, except_ok_bind]
  dsimp only
  rw [Nodes.load_some hn, except_ok_bind, hlast]
  dsimp only [Option.getD_some]
  cases hload : Nodes.load mng.nodes (some ((((y :: pre).map Prod.fst).getLast?).getD y.1)) with
  | error e => rfl
  | ok p =>
      rw [(Nodes.load_eq_ok hload).1]
      simp only [except_ok_bind, except_pure]
      cases timerFixTail (mng.store p.1 { p.2 with next := n.next }) x.1 (some p.1) with
      | error e => rfl
      | ok mng' => rfl

/-- The first timer that matches is taken out as the timer thread does it. -/
theorem timerTake_unlink {pre r : List (Timed F P)} {x : Timed F P}
    (h : Pending mng (pre ++ x :: r) fr) (hno : ∀ y ∈ pre, ¬y.2.isOf null cb p1 p2)
    (hx : x.2.isOf null cb p1 p2) :
    timerTake null mng cb p1 p2 =
      (timerUnlink mng x.1 (pre.map Prod.fst).getLast?).map fun u => (some x.1, u.1) := by
  cases pre with
  | nil => exact h.timerTake_first hx
  | cons y pre => exact h.timerTake_behind hno hx

theorem timerDelete_none (h : Pending mng l fr) (hno : ∀ x ∈ l, ¬x.2.isOf null cb p1 p2) :
    zcrtTimerDelete null (some mng) (some cb) p1 p2 = .ok (.success, some mng) := by
  unfold zcrtTimerDelete
  dsimp only
  rw [h.timerTake_none hno]
  rfl

/-- `zcrt_timer_delete` takes out the first timer that matches. -/
theorem timerDelete_leads {pre r : List (Timed F P)} {x : Timed F P}
    (h : Pending mng (pre ++ x :: r) fr) (hno : ∀ y ∈ pre, ¬y.2.isOf null cb p1 p2)
    (hx : x.2.isOf null cb p1 p2) :
    ∃ m mng', timerTake null mng cb p1 p2 = .ok (some x.1, m) ∧
      zcrtTimerDelete null (some mng) (some cb) p1 p2 = .ok (.success, some mng') ∧
      Leads mng (pre ++ x :: r) fr mng' (pre ++ r) (x.1 :: fr) := by
  obtain ⟨m, prev, n, hun, hout⟩ := h.timerUnlink_pending fun _ => rfl
  obtain ⟨mng', hfree, hgiven⟩ := hout.leads.pending.freeCb_pending hout.node
  have htake : timerTake null mng cb p1 p2 = .ok (some x.1, m) := by
    rw [h.timerTake_unlink hno hx, hun]
    rfl
  refine ⟨m, mng', htake, ?_, hgiven.pending, fun b k hb => ?_,
    fun hc => hgiven.counted (hout.leads.counted hc)⟩
  · unfold zcrtTimerDelete
    dsimp only
    rw [htake, except_ok_bind]
    dsimp only
    rw [hfree]
    rfl
  · refine hgiven.loose b k (fun he => ?_) (hout.leads.loose b k hb)
    exact hb.list x (List.mem_append_right _ List.mem_cons_self) he.symm

end Delete

end Pending

end Zcrt
