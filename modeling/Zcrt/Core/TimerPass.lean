/-
  One execution of the inner loop of `_zcrt_timer_proc`, and the passes a timer waits for.

  * `chargeFrom`: what the loop does to the list of the pending timers. A timer taken out sends it
    back to the first one, so those it had passed are charged again.
  * `chargeFrom_eq_iff`: each timer is charged one tick exactly if none that is due comes behind one
    that is not.
  * `timerPass_charges`: the same of `timerPass`, and in which pass a timer is called.
-/
import Zcrt.Core.TimerList

namespace Zcrt

open Lib

variable {F P : Type}

/-! ## Ticks -/

theorem Timed.tick_fst (x : Timed F P) : x.tick.1 = x.1 := rfl

theorem Timed.due_iff {x : Timed F P} : x.due = true ↔ x.2.left.toNat < 50 := decide_eq_true_iff

theorem Timed.not_due_iff {x : Timed F P} : x.due = false ↔ 50 ≤ x.2.left.toNat := by
  rw [← Bool.not_eq_true, Timed.due_iff, Nat.not_lt]

theorem Timed.tick_left {x : Timed F P} (hx : x.due = false) :
    x.tick.2.left.toNat + 50 = x.2.left.toNat := by
  have hle := Timed.not_due_iff.mp hx
  have hsub : (x.2.left - TIMER_TICK).toNat = x.2.left.toNat - 50 :=
    UInt32.toNat_sub_of_le _ _ (UInt32.le_iff_toNat_le.mpr hle)
  change (x.2.left - TIMER_TICK).toNat + 50 = _
  omega

/-! ## The list -/

/-- The timers left, and those called, of the loop that has passed `pre` and comes to `rest`. -/
def chargeFrom (pre rest : List (Timed F P)) : List (Timed F P) × List Nat :=
  match rest with
  | [] => (pre, [])
  | x :: rest =>
      if x.due then
        -- `job = mng->job`
        ((chargeFrom [] (pre ++ rest)).1, x.1 :: (chargeFrom [] (pre ++ rest)).2)
      else chargeFrom (pre ++ [x.tick]) rest
termination_by (pre.length + rest.length, rest.length)
decreasing_by
  all_goals
    simp only [List.length_append, List.length_cons, List.length_nil, Prod.lex_def]
    omega

/-- No timer that is due comes behind one that is not. -/
def DueFirst (ts : List (Timed F P)) : Prop := ts.Pairwise fun x y => y.due → x.due

instance (ts : List (Timed F P)) : Decidable (DueFirst ts) :=
  inferInstanceAs (Decidable (ts.Pairwise _))

theorem chargeFrom_due (pre : List (Timed F P)) {x : Timed F P} (rest : List (Timed F P))
    (hx : x.due = true) : chargeFrom pre (x :: rest) =
      ((chargeFrom [] (pre ++ rest)).1, x.1 :: (chargeFrom [] (pre ++ rest)).2) := by
  rw [chargeFrom, if_pos hx]

theorem chargeFrom_pass (pre : List (Timed F P)) {x : Timed F P} (rest : List (Timed F P))
    (hx : x.due = false) : chargeFrom pre (x :: rest) = chargeFrom (pre ++ [x.tick]) rest := by
  rw [chargeFrom, if_neg (by rw [hx]; decide)]

theorem chargeFrom_noneDue (pre : List (Timed F P)) {rest : List (Timed F P)}
    (h : ∀ x ∈ rest, x.due = false) : chargeFrom pre rest = (pre ++ rest.map Timed.tick, []) := by
  induction rest generalizing pre with
  | nil => rw [chargeFrom, List.map_nil, List.append_nil]
  | cons x rest ih =>
      rw [chargeFrom_pass pre rest (h x List.mem_cons_self),
        ih (pre ++ [x.tick]) fun y hy => h y (List.mem_cons_of_mem x hy), List.append_assoc]
      rfl

/-- The timer `x` has been called, or has at least `n` less left. -/
def Charged (r : List (Timed F P) × List Nat) (n : Nat) (x : Timed F P) : Prop :=
  x.1 ∈ r.2 ∨ ∃ z ∈ r.1, z.1 = x.1 ∧ z.2.left.toNat + n ≤ x.2.left.toNat

/-- A timer not passed is charged at least once. -/
theorem chargeFrom_charged (pre rest : List (Timed F P)) :
    (∀ x ∈ pre, Charged (chargeFrom pre rest) 0 x) ∧
      ∀ x ∈ rest, Charged (chargeFrom pre rest) 50 x := by
  induction pre, rest using chargeFrom.induct with
  | case1 pre =>
      rw [chargeFrom]
      exact ⟨fun x hx => Or.inr ⟨x, hx, rfl, Nat.le_refl _⟩, fun x hx => absurd hx List.not_mem_nil⟩
  | case2 pre x rest hx ih =>
      rw [chargeFrom_due pre rest hx]
      have hlater : ∀ y ∈ pre ++ rest, Charged ((chargeFrom [] (pre ++ rest)).1,
          x.1 :: (chargeFrom [] (pre ++ rest)).2) 50 y := fun y hy => by
        rcases ih.2 y hy with hcall | hleft
        · exact Or.inl (List.mem_cons_of_mem _ hcall)
        · exact Or.inr hleft
      constructor
      · intro y hy
        rcases hlater y (List.mem_append_left _ hy) with hcall | ⟨z, hz, hzy, hle⟩
        · exact Or.inl hcall
        · exact Or.inr ⟨z, hz, hzy, by omega⟩
      · intro y hy
        rcases List.mem_cons.mp hy with rfl | hy
        · exact Or.inl List.mem_cons_self
        · exact hlater y (List.mem_append_right _ hy)
  | case3 pre x rest hx ih =>
      have hnot : x.due = false := by rw [← Bool.not_eq_true]; exact hx
      rw [chargeFrom_pass pre rest hnot]
      refine ⟨fun y hy => ih.1 y (List.mem_append_left _ hy), fun y hy => ?_⟩
      rcases List.mem_cons.mp hy with rfl | hy
      · have htick := Timed.tick_left hnot
        rcases ih.1 y.tick (List.mem_append_right _ (List.mem_singleton_self _)) with
          hcall | ⟨z, hz, hzy, hle⟩
        · exact Or.inl hcall
        · exact Or.inr ⟨z, hz, hzy, by omega⟩
      · exact ih.2 y hy

/-- A timer passed is charged once more if one behind it is due. -/
theorem chargeFrom_again (pre : List (Timed F P)) {rest : List (Timed F P)}
    (hdue : ∃ y ∈ rest, y.due = true) {x : Timed F P} (hx : x ∈ pre) :
    Charged (chargeFrom pre rest) 50 x := by
  induction rest generalizing pre with
  | nil =>
      obtain ⟨y, hy, -⟩ := hdue
      exact absurd hy List.not_mem_nil
  | cons y rest ih =>
      by_cases hy : y.due = true
      · rw [chargeFrom_due pre rest hy]
        rcases (chargeFrom_charged [] (pre ++ rest)).2 x (List.mem_append_left _ hx) with
          hcall | hleft
        · exact Or.inl (List.mem_cons_of_mem _ hcall)
        · exact Or.inr hleft
      · rw [chargeFrom_pass pre rest (Bool.eq_false_iff.mpr hy)]
        refine ih (pre ++ [y.tick]) ?_ (List.mem_append_left _ hx)
        obtain ⟨z, hz, hzdue⟩ := hdue
        rcases List.mem_cons.mp hz with rfl | hz
        · exact absurd hzdue hy
        · exact ⟨z, hz, hzdue⟩

/-- The timers due called, in their order, and the others charged one tick. -/
def chargedOnce (ts : List (Timed F P)) : List (Timed F P) × List Nat :=
  ((ts.filter fun x => !x.due).map Timed.tick, (ts.filter Timed.due).map Prod.fst)

/-- The loop charges each timer exactly once if and only if the timers that are due come first. -/
theorem chargeFrom_eq_iff {ts : List (Timed F P)} (hnd : (ts.map Prod.fst).Nodup) :
    chargeFrom [] ts = chargedOnce ts ↔ DueFirst ts := by
  induction ts with
  | nil => exact ⟨fun _ => List.Pairwise.nil, fun _ => by rw [chargeFrom]; rfl⟩
  | cons x ts ih =>
      have hnd' := List.nodup_cons.mp hnd
      have hcons : DueFirst (x :: ts) ↔ (∀ y ∈ ts, y.due = true → x.due = true) ∧ DueFirst ts :=
        List.pairwise_cons
      by_cases hx : x.due = true
      · have hright : chargedOnce (x :: ts) =
            ((chargedOnce ts).1, x.1 :: (chargedOnce ts).2) := by
          unfold chargedOnce
          rw [List.filter_cons_of_pos hx, List.filter_cons_of_neg (by rw [hx]; decide)]
          rfl
        rw [chargeFrom_due [] ts hx, hright, hcons, ← ih hnd'.2, List.nil_append, Prod.mk.injEq,
          List.cons.injEq, Prod.ext_iff]
        exact ⟨fun h => ⟨fun _ _ _ => hx, h.1, h.2.2⟩, fun h => ⟨h.2.1, rfl, h.2.2⟩⟩
      · have hxf : x.due = false := Bool.eq_false_iff.mpr hx
        rw [chargeFrom_pass [] ts hxf, List.nil_append]
        by_cases hdue : ∃ y ∈ ts, y.due = true
        · -- `x` is charged twice, or called
          refine ⟨fun heq => ?_, fun h => ?_⟩
          · have hagain := chargeFrom_again [x.tick] hdue (List.mem_singleton_self x.tick)
            rw [heq] at hagain
            have htick := Timed.tick_left hxf
            have hmem : ∀ y ∈ x :: ts, y.1 = x.1 → y = x := fun y hy he => by
              rcases List.mem_cons.mp hy with rfl | hy
              · rfl
              · exact absurd (he ▸ List.mem_map_of_mem hy) hnd'.1
            rcases hagain with hcall | ⟨z, hz, hzx, hle⟩
            · obtain ⟨y, hy, he⟩ := List.mem_map.mp hcall
              obtain ⟨hyts, hydue⟩ := List.mem_filter.mp hy
              rw [hmem y hyts he] at hydue
              exact absurd hydue hx
            · obtain ⟨y, hy, rfl⟩ := List.mem_map.mp hz
              rw [hmem y (List.mem_filter.mp hy).1 hzx] at hle
              omega
          · obtain ⟨y, hy, hydue⟩ := hdue
            exact absurd ((hcons.mp h).1 y hy hydue) hx
        · have hall : ∀ y ∈ ts, y.due = false := fun y hy =>
            Bool.eq_false_iff.mpr fun hd => hdue ⟨y, hy, hd⟩
          have hkept : ts.filter (fun x => !x.due) = ts :=
            List.filter_eq_self.mpr fun y hy => by rw [hall y hy]; rfl
          have hcalled : ts.filter Timed.due = [] :=
            List.filter_eq_nil_iff.mpr fun y hy => Bool.eq_false_iff.mp (hall y hy)
          refine ⟨fun _ => hcons.mpr ⟨fun y hy hd => absurd ⟨y, hy, hd⟩ hdue, ?_⟩, fun _ => ?_⟩
          · exact List.pairwise_of_forall_mem_list fun y _ z hz hd =>
              absurd hd (Bool.eq_false_iff.mp (hall z hz))
          · unfold chargedOnce
            rw [chargeFrom_noneDue [x.tick] hall, List.filter_cons_of_pos (by rw [hxf]; rfl),
              List.filter_cons_of_neg hx, hkept, hcalled]
            rfl

/-! ## The loop -/

/-- The callbacks of the timers are called when they are due. -/
def AllLive (mng : ZTimer F P) (ts : List (Timed F P)) : Prop :=
  ∀ x ∈ ts, mng.isLive x.2.timecon

theorem isLive_congr {mng mng' : ZTimer F P} (h : mng'.container = mng.container) (c : UInt16) :
    mng'.isLive c = mng.isLive c := by
  unfold ZTimer.isLive
  rw [h]

/-- The loop from the timers `rest` on does what `chargeFrom` does. -/
theorem timerLoop_chargeFrom {mng : ZTimer F P} {pre rest : List (Timed F P)} {fr : List Nat}
    (h : Pending mng (pre ++ rest) fr) (hlive : AllLive mng (pre ++ rest)) {prev : Option Nat}
    (hprev : pre ≠ [] → prev = (pre.map Prod.fst).getLast?) {fuel : Nat}
    (hfuel : rest.length + (pre.length + rest.length) * (pre.length + rest.length) ≤ fuel)
    (calls : List Nat) :
    ∃ mng' fr', timerLoop fuel mng (rest.map Prod.fst).head? prev calls =
        .ok (mng', calls ++ (chargeFrom pre rest).2) ∧ Pending mng' (chargeFrom pre rest).1 fr' ∧
      SameContainers mng mng' := by
  induction fuel generalizing mng pre rest fr prev calls with
  | zero =>
      obtain rfl : rest = [] := List.length_eq_zero_iff.mp (by omega)
      rw [chargeFrom, List.append_nil]
      rw [List.append_nil] at h
      exact ⟨mng, fr, by rw [timerLoop.eq_def]; rfl, h, ⟨rfl, rfl⟩⟩
  | succ fuel ih =>
      cases rest with
      | nil =>
          rw [chargeFrom, List.append_nil]
          rw [List.append_nil] at h
          exact ⟨mng, fr, by rw [timerLoop.eq_def]; rfl, h, ⟨rfl, rfl⟩⟩
      | cons x rest =>
          have hmem : x ∈ pre ++ x :: rest := List.mem_append_right _ List.mem_cons_self
          rw [List.length_cons] at hfuel
          by_cases hx : x.due = true
          · -- taken out, called, given back: the loop begins again
            obtain ⟨mng1, prev1, n, hturn, hout⟩ := h.timerTurn_expired hprev hx
            obtain ⟨mng2, hback, hgiven⟩ := hout.leads.pending.freeCb_pending hout.node
            have h2 := hgiven.pending
            have hsame := hout.same.trans hgiven.same
            have hlive2 : AllLive mng2 (pre ++ rest) := fun y hy => by
              rw [isLive_congr hsame.container]
              rcases List.mem_append.mp hy with hy | hy
              · exact hlive y (List.mem_append_left _ hy)
              · exact hlive y (List.mem_append_right _ (List.mem_cons_of_mem _ hy))
            have hless : (pre ++ rest).length +
                (0 + (pre ++ rest).length) * (0 + (pre ++ rest).length) ≤ fuel := by
              rw [Nat.zero_add, List.length_append]
              have hsq : (pre.length + (rest.length + 1)) * (pre.length + (rest.length + 1)) =
                  (pre.length + rest.length) * (pre.length + rest.length) +
                    2 * (pre.length + rest.length) + 1 := by ring
              omega
            obtain ⟨mng', fr', hloop, h', hsame'⟩ :=
              @ih mng2 [] (pre ++ rest) _ h2 hlive2 prev1 (fun he => absurd rfl he) hless
                (calls ++ [x.1])
            refine ⟨mng', fr', ?_, ?_, hsame.trans hsame'⟩
            · change timerLoop (fuel + 1) mng (some x.1) prev calls = _
              rw [timerLoop, hturn, except_ok_bind]
              dsimp only
              rw [hback, except_ok_bind, if_pos (hlive x hmem), h2.seg.head,
                chargeFrom_due pre rest hx]
              rw [hloop, List.append_assoc]
              rfl
            · rw [chargeFrom_due pre rest hx]
              exact h'
          · -- charged
            have hxf : x.due = false := Bool.eq_false_iff.mpr hx
            obtain ⟨mng1, hturn, ⟨h1, -, -⟩, hsame⟩ := h.timerTurn_passed prev hxf
            have happ : pre ++ x.tick :: rest = pre ++ [x.tick] ++ rest := by
              rw [List.append_assoc]
              rfl
            rw [happ] at h1
            have hlive1 : AllLive mng1 (pre ++ [x.tick] ++ rest) := fun y hy => by
              rw [isLive_congr hsame.container]
              rw [← happ] at hy
              rcases List.mem_append.mp hy with hy | hy
              · exact hlive y (List.mem_append_left _ hy)
              · rcases List.mem_cons.mp hy with rfl | hy
                · exact hlive x hmem
                · exact hlive y (List.mem_append_right _ (List.mem_cons_of_mem _ hy))
            have hless : rest.length + ((pre ++ [x.tick]).length + rest.length) *
                ((pre ++ [x.tick]).length + rest.length) ≤ fuel := by
              rw [List.length_append, List.length_singleton]
              have hsq : pre.length + 1 + rest.length = pre.length + (rest.length + 1) := by omega
              rw [hsq]
              omega
            obtain ⟨mng', fr', hloop, h', hsame'⟩ :=
              @ih mng1 (pre ++ [x.tick]) rest _ h1 hlive1 (some x.1)
                (fun _ => by simp [Timed.tick_fst]) hless calls
            refine ⟨mng', fr', ?_, ?_, hsame.trans hsame'⟩
            · change timerLoop (fuel + 1) mng (some x.1) prev calls = _
              rw [timerLoop, hturn, except_ok_bind]
              dsimp only
              rw [hloop, chargeFrom_pass pre rest hxf]
            · rw [chargeFrom_pass pre rest hxf]
              exact h'

/-- A pass does what `chargeFrom` does. -/
theorem timerPass_chargeFrom {mng : ZTimer F P} {ts : List (Timed F P)} {fr : List Nat}
    (h : Pending mng ts fr) (hlive : AllLive mng ts) :
    ∃ mng' fr', timerPass mng = .ok (mng', (chargeFrom [] ts).2) ∧
      Pending mng' (chargeFrom [] ts).1 fr' ∧ SameContainers mng mng' := by
  have hle : ts.length ≤ mng.nodes.length := by
    have hlen := Nodes.length_le h.seg
    rwa [List.length_map] at hlen
  have hfuel : ts.length + (0 + ts.length) * (0 + ts.length) ≤
      (mng.nodes.length + 1) * (mng.nodes.length + 1) := by
    rw [Nat.zero_add]
    have hsq := Nat.mul_le_mul hle hle
    have hring : (mng.nodes.length + 1) * (mng.nodes.length + 1) =
        mng.nodes.length * mng.nodes.length + 2 * mng.nodes.length + 1 := by ring
    omega
  obtain ⟨mng', fr', hloop, h', hsame⟩ :=
    @timerLoop_chargeFrom _ _ mng [] ts fr h hlive mng.job (fun he => absurd rfl he) _ hfuel []
  refine ⟨mng', fr', ?_, h', hsame⟩
  unfold timerPass
  rw [← h.seg.head] at hloop
  exact hloop

/-! ## In which pass a timer is called -/

/-- The calls of the modules and the passes after the state `mng`, each pass with the timers due
    first. The calls of callbacks are listed pass by pass. -/
inductive Rounds (mng : ZTimer F P) : List (List Nat) → ZTimer F P → Prop
  | start : Rounds mng [] mng
  | new {cs m m' c} (h : Rounds mng cs m)
      (hnew : zcrtTimerContainerNew (some m) = .ok (c, some m')) : Rounds mng cs m'
  | delete {cs m m' c} (h : Rounds mng cs m)
      (hdel : zcrtTimerContainerDelete (some m) c = some m') : Rounds mng cs m'
  | add {cs m m' mem c period cb p1 p2 ret} (h : Rounds mng cs m)
      (hadd : zcrtTimerconAdd (some m) mem c period cb p1 p2 = .ok (ret, some m')) :
      Rounds mng cs m'
  | pass {cs m m' ts fr calls} (h : Rounds mng cs m) (hts : Pending m ts fr)
      (hlive : AllLive m ts) (hfirst : DueFirst ts) (hpass : timerPass m = .ok (m', calls)) :
      Rounds mng (cs ++ [calls]) m'

/-- A pending timer is called once if it is due, and else not. -/
theorem count_called {ts : List (Timed F P)} (hnd : (ts.map Prod.fst).Nodup) {x : Timed F P}
    (hx : x ∈ ts) : (chargedOnce ts).2.count x.1 = if x.due then 1 else 0 := by
  have hsub : ((ts.filter Timed.due).map Prod.fst).Sublist (ts.map Prod.fst) :=
    List.filter_sublist.map Prod.fst
  have hmem : x.1 ∈ (ts.filter Timed.due).map Prod.fst ↔ x.due = true := by
    refine ⟨fun h => ?_, fun h => List.mem_map_of_mem (List.mem_filter.mpr ⟨hx, h⟩)⟩
    obtain ⟨y, hy, he⟩ := List.mem_map.mp h
    obtain ⟨hyts, hydue⟩ := List.mem_filter.mp hy
    rwa [List.inj_on_of_nodup_map hnd hyts hx he] at hydue
  have hcount := (hnd.sublist hsub).count (a := x.1)
  change ((ts.filter Timed.due).map Prod.fst).count x.1 = _
  rw [hcount]
  by_cases hdue : x.due = true
  · rw [if_pos (hmem.mpr hdue), if_pos hdue]
  · rw [if_neg (mt hmem.mp hdue), if_neg hdue]

/-- After `k` passes a timer has `50 * k` less left, and it is called in the pass in which less than
    a tick is. -/
theorem Rounds.called {mng m : ZTimer F P} {cs : List (List Nat)} (hr : Rounds mng cs m)
    {ts : List (Timed F P)} {fr : List Nat} (h : Pending mng ts fr) {x : Timed F P} (hx : x ∈ ts) :
    (∃ l fr', Pending m l fr' ∧ (cs.length ≤ x.2.left.toNat / 50 →
        ∃ y ∈ l, y.1 = x.1 ∧ y.2.left.toNat + 50 * cs.length = x.2.left.toNat)) ∧
      ∀ k (hk : k < cs.length), k ≤ x.2.left.toNat / 50 →
        cs[k].count x.1 = if k = x.2.left.toNat / 50 then 1 else 0 := by
  induction hr with
  | start =>
      exact ⟨⟨ts, fr, h, fun _ => ⟨x, hx, rfl, rfl⟩⟩, fun k hk => absurd hk (Nat.not_lt_zero k)⟩
  | new hr hnew ih =>
      obtain ⟨⟨l, fr', hl, hy⟩, hcount⟩ := ih
      exact ⟨⟨l, fr', hl.containerNew_pending hnew, hy⟩, hcount⟩
  | delete hr hdel ih =>
      obtain ⟨⟨l, fr', hl, hy⟩, hcount⟩ := ih
      exact ⟨⟨l, fr', hl.containerDelete_pending hdel, hy⟩, hcount⟩
  | @add cs m m' mem c period cb p1 p2 ret hr hadd ih =>
      obtain ⟨⟨l, fr', hl, hy⟩, hcount⟩ := ih
      obtain ⟨ret', m2, l', fr2, hadd', ⟨hl', -, -⟩, -, hcase⟩ :=
        hl.timerconAdd_pending mem c period cb p1 p2
      rw [hadd] at hadd'
      obtain ⟨-, he⟩ := Prod.mk.inj (Except.ok.inj hadd')
      obtain rfl := Option.some.inj he
      refine ⟨⟨l', fr2, hl', fun hle => ?_⟩, hcount⟩
      obtain ⟨y, hyl, hyx⟩ := hy hle
      rcases hcase with ⟨-, rfl⟩ | ⟨-, -, a, rfl⟩
      · exact ⟨y, hyl, hyx⟩
      · exact ⟨y, List.mem_append_left _ hyl, hyx⟩
  | @pass cs m m' ts' fr2 calls hr hts hlive hfirst hpass ih =>
      obtain ⟨⟨l, fr', hl, hy⟩, hcount⟩ := ih
      obtain rfl := hl.unique hts
      obtain ⟨m2, fr3, hpass', hm2, -⟩ := timerPass_chargeFrom hl hlive
      rw [hpass] at hpass'
      obtain ⟨rfl, rfl⟩ := Prod.mk.inj (Except.ok.inj hpass')
      rw [(chargeFrom_eq_iff hl.nodup).mpr hfirst] at hm2 ⊢
      have hlen : (cs ++ [(chargedOnce l).2]).length = cs.length + 1 := List.length_append
      constructor
      · refine ⟨_, fr3, hm2, fun hle => ?_⟩
        rw [hlen] at hle ⊢
        obtain ⟨y, hyl, hyx, hleft⟩ := hy (by omega)
        have hdue : y.due = false := Timed.not_due_iff.mpr (by omega)
        refine ⟨y.tick, List.mem_map_of_mem (List.mem_filter.mpr ⟨hyl, by rw [hdue]; rfl⟩), hyx, ?_⟩
        have htick := Timed.tick_left hdue
        omega
      · intro k hk hle
        rw [hlen] at hk
        by_cases hlast : k < cs.length
        · rw [List.getElem_append_left hlast]
          exact hcount k hlast hle
        · obtain rfl : k = cs.length := by omega
          obtain ⟨y, hyl, hyx, hleft⟩ := hy hle
          rw [List.getElem_concat_length rfl, ← hyx, count_called hl.nodup hyl]
          have hdue : y.due = true ↔ cs.length = x.2.left.toNat / 50 := by
            rw [Timed.due_iff]
            omega
          by_cases hq : cs.length = x.2.left.toNat / 50
          · rw [if_pos (hdue.mpr hq), if_pos hq]
          · rw [if_neg (mt hdue.mp hq), if_neg hq]

/-- A pass can be made whenever the timers due come first. -/
theorem Rounds.pass_ok {mng m : ZTimer F P} {cs : List (List Nat)} (hr : Rounds mng cs m)
    {ts : List (Timed F P)} {fr : List Nat} (hts : Pending m ts fr) (hlive : AllLive m ts)
    (hfirst : DueFirst ts) :
    ∃ m' fr', Rounds mng (cs ++ [(chargedOnce ts).2]) m' ∧ Pending m' (chargedOnce ts).1 fr' := by
  obtain ⟨m', fr', hpass, h', -⟩ := timerPass_chargeFrom hts hlive
  rw [(chargeFrom_eq_iff hts.nodup).mpr hfirst] at hpass h'
  exact ⟨m', fr', hr.pass hts hlive hfirst hpass, h'⟩

/-! ## Each pass a tick -/

/-- The pass calls the timers due, each once and in their order, and charges the others one tick. -/
def ChargesOnce (mng : ZTimer F P) (ts : List (Timed F P)) : Prop :=
  ∃ mng' fr', timerPass mng = .ok (mng', (chargedOnce ts).2) ∧ Pending mng' (chargedOnce ts).1 fr'

/-- A pass charges each timer exactly one tick if and only if the timers due come first, and while
    they do, a timer added is called in the pass numbered by its period. -/
theorem timerPass_charges {mng : ZTimer F P} {ts : List (Timed F P)} {fr : List Nat}
    (h : Pending mng ts fr) :
    (AllLive mng ts → (ChargesOnce mng ts ↔ DueFirst ts)) ∧
    ∀ mem c period cb p1 p2 mng1,
      zcrtTimerconAdd (some mng) mem c period cb p1 p2 = .ok (.success, some mng1) →
      ∃ a, mng1.tail = some a ∧ ∀ cs m, Rounds mng1 cs m → ∀ k (hk : k < cs.length),
        k ≤ period.toNat / 50 → cs[k].count a = if k = period.toNat / 50 then 1 else 0 := by
  constructor
  · intro hlive
    rw [← chargeFrom_eq_iff h.nodup]
    obtain ⟨mng', fr', hpass, h', -⟩ := timerPass_chargeFrom h hlive
    constructor
    · rintro ⟨mng2, fr2, hpass2, h2⟩
      rw [hpass] at hpass2
      obtain ⟨rfl, hcalls⟩ := Prod.mk.inj (Except.ok.inj hpass2)
      exact Prod.ext (h'.unique h2) hcalls
    · intro he
      rw [he] at hpass h'
      exact ⟨mng', fr', hpass, h'⟩
  · intro mem c period cb p1 p2 mng1 hadd
    obtain ⟨ret, mng2, l', fr2, hadd', ⟨h2, -, -⟩, -, hcase⟩ :=
      h.timerconAdd_pending mem c period cb p1 p2
    rw [hadd] at hadd'
    obtain ⟨rfl, he⟩ := Prod.mk.inj (Except.ok.inj hadd')
    obtain rfl := Option.some.inj he
    rcases hcase with ⟨hne, -⟩ | ⟨-, -, a, rfl⟩
    · exact absurd rfl hne
    · refine ⟨a, by rw [h2.tail]; simp, fun cs m hr => ?_⟩
      exact (hr.called h2 (List.mem_append_right _ (List.mem_singleton_self _))).2

/-! ## Two timers -/

/-- Timers of the constant container with these periods, at the addresses from 0 on. -/
def timersOf (periods : List UInt32) : ZTimer Unit Unit :=
  { nodes := periods.mapIdx fun i period =>
      { data := { left := period, fn := some (), argn := 2, timecon := ZTIMER_CONTAINER_CONSTID,
                  args := [(), ()] }
        next := if i + 1 < periods.length then some (i + 1) else none }
    job := if periods.length = 0 then none else some 0
    tail := if periods.length = 0 then none else some (periods.length - 1)
    freelist := none, freesize := 0, conlastid := 0, container := fun _ => 0 }

/-- A timer of the constant container at the address `a`. -/
def constTimed (a : Nat) (left : UInt32) : Timed Unit Unit :=
  (a, { left := left, fn := some (), argn := 2, timecon := ZTIMER_CONTAINER_CONSTID,
        args := [(), ()] })

theorem isLive_const (mng : ZTimer F P) : mng.isLive ZTIMER_CONTAINER_CONSTID = true :=
  decide_eq_true ⟨rfl, Or.inl rfl⟩

theorem pending_one (p : UInt32) : Pending (timersOf [p]) [constTimed 0 p] [] where
  seg := ⟨rfl, none, rfl, rfl⟩
  data := fun x hx => by
    rw [List.mem_singleton.mp hx]
    rfl
  fn := fun x hx => by
    rw [List.mem_singleton.mp hx]
    exact Option.some_ne_none ()
  tail := rfl
  free := rfl
  apart := fun _ _ => List.not_mem_nil

theorem pending_two (p q : UInt32) :
    Pending (timersOf [p, q]) [constTimed 0 p, constTimed 1 q] [] where
  seg := ⟨rfl, some 1, rfl, rfl, none, rfl, rfl⟩
  data := fun x hx => by
    rcases List.mem_pair.mp hx with rfl | rfl
    · rfl
    · rfl
  fn := fun x hx => by
    rcases List.mem_pair.mp hx with rfl | rfl
    · exact Option.some_ne_none ()
    · exact Option.some_ne_none ()
  tail := rfl
  free := rfl
  apart := fun _ _ => List.not_mem_nil

theorem allLive_two (mng : ZTimer Unit Unit) (a b : Nat) (p q : UInt32) :
    AllLive mng [constTimed a p, constTimed b q] := fun x hx => by
  rcases List.mem_pair.mp hx with rfl | rfl
  · exact isLive_const mng
  · exact isLive_const mng

/-- A timer of 60 behind one of 10 is called in the second pass. -/
theorem timerPass_charges_sixty :
    ChargesOnce (timersOf [10]) [constTimed 0 10] ∧
      ∃ a m, (timersOf [10, 60]).tail = some a ∧ Rounds (timersOf [10, 60]) [[0], [1]] m ∧
        [1].count a = 1 := by
  have hone : AllLive (timersOf [10]) [constTimed 0 10] := fun x hx => by
    rw [List.mem_singleton.mp hx]
    exact isLive_const _
  refine ⟨((timerPass_charges (pending_one 10)).1 hone).mpr (by decide), ?_⟩
  obtain ⟨a, ha, hcalled⟩ := (timerPass_charges (pending_one 10)).2 true ZTIMER_CONTAINER_CONSTID 60
    (some ()) () () (timersOf [10, 60]) rfl
  obtain ⟨m1, fr1, hr1, h1⟩ :=
    Rounds.start.pass_ok (pending_two 10 60) (allLive_two _ 0 1 10 60) (by decide)
  have hlive1 : AllLive m1 [constTimed 1 10] := fun x hx => by
    rw [List.mem_singleton.mp hx]
    exact isLive_const _
  obtain ⟨m2, fr2, hr2, -⟩ := hr1.pass_ok h1 hlive1 (by decide)
  exact ⟨a, m2, ha, hr2, hcalled [[0], [1]] m2 hr2 1 (by decide) (by decide)⟩

/-- A timer of 120 in front of one of 10: after the pass it has 20 left, and not 70. -/
theorem lateFirst_chargedTwice :
    zcrtTimerconAdd (some (timersOf [120])) true ZTIMER_CONTAINER_CONSTID 10 (some ()) () () =
      .ok (.success, some (timersOf [120, 10])) ∧
    Pending (timersOf [120, 10]) [constTimed 0 120, constTimed 1 10] [] ∧
    AllLive (timersOf [120, 10]) [constTimed 0 120, constTimed 1 10] ∧
    ¬ChargesOnce (timersOf [120, 10]) [constTimed 0 120, constTimed 1 10] := by
  refine ⟨rfl, pending_two 120 10, allLive_two _ 0 1 120 10, ?_⟩
  rintro ⟨mng', fr', hpass, h⟩
  have hleft : (timerPass (timersOf [120, 10])).map
      (fun r => (Nodes.dataOf r.1.nodes 0).map ZTimerCB.left) = .ok (some 20) := rfl
  have hdata : Nodes.dataOf mng'.nodes 0 = some (constTimed 0 70).2 :=
    h.data (constTimed 0 70) List.mem_cons_self
  rw [hpass] at hleft
  change Except.ok ((Nodes.dataOf mng'.nodes 0).map ZTimerCB.left) = _ at hleft
  rw [hdata] at hleft
  exact absurd (Except.ok.inj hleft) (by decide)

end Zcrt
