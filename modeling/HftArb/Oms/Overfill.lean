import HftArb.Oms.FillSums
import HftArb.Oms.LifeCycle
import HftArb.Oms.ReportOrder

/-!
# More fills than were ordered

`on_report` adds up whatever quantities it is given: nothing tells it that a fill has been reported
before, or that the order has no quantity left.  `Order.Fits` says which reports keep an order within
its quantity, and `noOverfill_iff` what that means for a whole sequence of reports on an order.
-/

namespace Hft

open Transition

/-- What the report fills. -/
def ExecutionReport.fillQty (r : ExecutionReport) : ℤ := if r.type = .fill then r.qty else 0

/-- The report ends the order without filling it. -/
def ExecutionReport.Ends (r : ExecutionReport) : Prop :=
  r.type = .reject ∨ r.type = .expire ∨ r.type = .cancel

/-- What the reports fill together. -/
def filledBy (rs : List ExecutionReport) : ℤ := (rs.map ExecutionReport.fillQty).sum

section FilledBy

variable {r : ExecutionReport} {rs : List ExecutionReport}

@[simp] theorem filledBy_nil : filledBy [] = 0 := rfl

@[simp] theorem filledBy_cons : filledBy (r :: rs) = r.fillQty + filledBy rs := by simp [filledBy]

theorem fillQty_nonneg (hpos : r.type = .fill → 0 < r.qty) : 0 ≤ r.fillQty := by
  unfold ExecutionReport.fillQty
  split_ifs with hfill
  · exact (hpos hfill).le
  · exact le_rfl

theorem filledBy_nonneg (hpos : ∀ r ∈ rs, r.type = .fill → 0 < r.qty) : 0 ≤ filledBy rs := by
  refine List.sum_nonneg fun q hq => ?_
  obtain ⟨r, hr, rfl⟩ := List.mem_map.1 hq
  exact fillQty_nonneg (hpos r hr)

/-- Only the fills count. -/
theorem filledBy_filter_fill (rs : List ExecutionReport) :
    filledBy (rs.filter fun r => r.type = .fill) = filledBy rs := by
  induction rs with
  | nil => rfl
  | cons r rs ih =>
    by_cases hfill : r.type = .fill
    · rw [List.filter_cons_of_pos (by simp [hfill]), filledBy_cons, filledBy_cons, ih]
    · rw [List.filter_cons_of_neg (by simp [hfill]), filledBy_cons, ExecutionReport.fillQty,
        if_neg hfill, zero_add, ih]

end FilledBy

/-! ### One order -/

namespace Order

variable {o : Order} {r : ExecutionReport}

@[simp]
theorem filledQty_report (o : Order) (r : ExecutionReport) :
    (o.report r).filledQty = o.filledQty + r.fillQty := by
  unfold report ExecutionReport.fillQty
  cases r.type with
  | ack => by_cases hsent : o.state = .sent <;> simp [hsent]
  | fill => by_cases hall : o.intent.qty ≤ o.filledQty + r.qty <;> simp [hall]
  | reject => simp
  | expire => simp
  | cancel => simp

/-- The filled quantity is what the reports fill. -/
theorem filledQty_foldl (o : Order) (rs : List ExecutionReport) :
    (rs.foldl report o).filledQty = o.filledQty + filledBy rs := by
  induction rs generalizing o with
  | nil => simp
  | cons r rs ih => rw [List.foldl_cons, ih, filledQty_report, filledBy_cons, add_assoc]

theorem intent_foldl (o : Order) (rs : List ExecutionReport) :
    (rs.foldl report o).intent = o.intent := by
  induction rs generalizing o with
  | nil => rfl
  | cons r rs ih => rw [List.foldl_cons, ih, OrderManager.intent_report]

/-- No more is filled than was ordered, and the order is `Filled` exactly when all is. -/
structure WithinOrdered (o : Order) : Prop where
  nonneg : 0 ≤ o.filledQty
  le : o.filledQty ≤ o.intent.qty
  filled_iff : o.state = .filled ↔ o.filledQty = o.intent.qty

/-- The report fits the order: a fill takes no more than is left, and anything else that ends the
order finds something left. -/
def Fits (o : Order) (r : ExecutionReport) : Prop :=
  match r.type with
  | .ack => True
  | .fill => 0 ≤ o.filledQty + r.qty ∧ o.filledQty + r.qty ≤ o.intent.qty
  | .reject | .expire | .cancel => o.filledQty < o.intent.qty

/-- A state other than `Filled` is right as long as something is left. -/
theorem withinOrdered_of_ne (h : o.WithinOrdered) {o' : Order} (hqty : o'.filledQty = o.filledQty)
    (hintent : o'.intent = o.intent) (hne : o'.state ≠ .filled) :
    o'.WithinOrdered ↔ o.filledQty < o.intent.qty := by
  constructor
  · intro h'
    have hleft := mt h'.filled_iff.2 hne
    rw [hqty, hintent] at hleft
    exact lt_of_le_of_ne h.le hleft
  · intro hlt
    refine ⟨?_, ?_, ?_⟩
    · rw [hqty]
      exact h.nonneg
    · rw [hqty, hintent]
      exact h.le
    · rw [hqty, hintent]
      exact iff_of_false hne hlt.ne

/-- A report keeps the order within its quantity exactly when it fits. -/
theorem withinOrdered_report_iff (h : o.WithinOrdered) (r : ExecutionReport) :
    (o.report r).WithinOrdered ↔ o.Fits r := by
  have hqty := filledQty_report o r
  have hintent := OrderManager.intent_report o r
  unfold ExecutionReport.fillQty at hqty
  unfold Fits
  cases htype : r.type with
  | ack =>
    refine iff_true_intro ?_
    rw [report_ack htype]
    split_ifs with hsent
    · -- a sent order is not filled, and an acked one is not either
      have hleft : o.filledQty ≠ o.intent.qty := fun hall => by
        rw [h.filled_iff.2 hall] at hsent
        cases hsent
      exact ⟨h.nonneg, h.le, iff_of_false (by simp) hleft⟩
    · exact h
  | fill =>
    rw [htype, if_pos rfl] at hqty
    have hstate : (o.report r).state =
        if o.intent.qty ≤ o.filledQty + r.qty then .filled else .partial_ := by
      simp only [report, htype]
      split_ifs <;> rfl
    constructor
    · intro h'
      have hnonneg := h'.nonneg
      have hle := h'.le
      rw [hqty] at hnonneg hle
      rw [hintent] at hle
      exact ⟨hnonneg, hle⟩
    · rintro ⟨hnonneg, hle⟩
      refine ⟨by rw [hqty]; exact hnonneg, by rw [hqty, hintent]; exact hle, ?_⟩
      rw [hstate, hqty, hintent]
      split_ifs with hall
      · exact iff_of_true rfl (le_antisymm hle hall)
      · exact iff_of_false (by simp) fun heq => hall heq.ge
  | reject =>
    rw [htype, if_neg (by simp), add_zero] at hqty
    refine withinOrdered_of_ne h hqty hintent ?_
    simp only [report, htype]
    split_ifs <;> simp
  | expire =>
    rw [htype, if_neg (by simp), add_zero] at hqty
    refine withinOrdered_of_ne h hqty hintent ?_
    simp only [report, htype]
    split_ifs <;> simp
  | cancel =>
    rw [htype, if_neg (by simp), add_zero] at hqty
    exact withinOrdered_of_ne h hqty hintent (by simp [report, htype])

/-- The reports fit the order one after the other if they fill no more than is left, and what ends
the order finds something left. -/
theorem allSteps_fits_iff {rs : List ExecutionReport} (hpos : ∀ r ∈ rs, r.type = .fill → 0 < r.qty)
    (hnonneg : 0 ≤ o.filledQty) (hle : o.filledQty ≤ o.intent.qty) :
    AllSteps report Fits o rs ↔ o.filledQty + filledBy rs ≤ o.intent.qty ∧
      ∀ pre r, pre ++ [r] <+: rs → r.Ends → o.filledQty + filledBy pre < o.intent.qty := by
  induction rs generalizing o with
  | nil => simpa [AllSteps] using hle
  | cons r rs ih =>
    have hfill := fillQty_nonneg (hpos r List.mem_cons_self)
    have hrest := filledBy_nonneg fun r' hr' => hpos r' (List.mem_cons_of_mem r hr')
    have hqty := filledQty_report o r
    have hintent := OrderManager.intent_report o r
    have hih := fun hle' => @ih (o.report r) (fun r' hr' => hpos r' (List.mem_cons_of_mem r hr'))
      (by omega) hle'
    rw [hqty, hintent] at hih
    constructor
    · rintro ⟨hr, hrs⟩
      have hstep : o.filledQty + r.fillQty ≤ o.intent.qty := by
        unfold ExecutionReport.fillQty
        split_ifs with htype
        · rw [Fits, htype] at hr
          exact hr.2
        · rw [add_zero]
          exact hle
      obtain ⟨hsum, hends⟩ := (hih hstep).1 hrs
      refine ⟨by rw [filledBy_cons]; omega, fun pre r' hpre hr' => ?_⟩
      cases pre with
      | nil =>
        obtain rfl : r' = r := (List.cons_prefix_cons.1 hpre).1
        rw [filledBy_nil, add_zero]
        unfold Fits at hr
        rcases hr' with htype | htype | htype <;> rwa [htype] at hr
      | cons a pre =>
        obtain ⟨rfl, htail⟩ := List.cons_prefix_cons.1 hpre
        have hlt := hends pre r' htail hr'
        rw [filledBy_cons]
        omega
    · rintro ⟨hsum, hends⟩
      rw [filledBy_cons] at hsum
      have hfirst : r.Ends → o.filledQty < o.intent.qty := fun hr => by
        have hlt := hends [] r ⟨rs, rfl⟩ hr
        rwa [filledBy_nil, add_zero] at hlt
      refine ⟨?_, (hih (by omega)).2 ⟨by omega, fun pre r' hpre hr' => ?_⟩⟩
      · unfold Fits
        cases htype : r.type with
        | ack => trivial
        | fill =>
          rw [ExecutionReport.fillQty, if_pos htype] at hfill hsum
          dsimp only
          omega
        | reject => exact hfirst (Or.inl htype)
        | expire => exact hfirst (Or.inr (Or.inl htype))
        | cancel => exact hfirst (Or.inr (Or.inr htype))
      · have hlt := hends (r :: pre) r' ((List.prefix_cons_inj r).2 hpre) hr'
        rw [filledBy_cons] at hlt
        omega

theorem withinOrdered_new (intent : OrderIntent) (id : String) (nowNs : ℕ) :
    (OrderManager.newOrder intent id nowNs).WithinOrdered ↔ 0 < intent.qty := by
  constructor
  · intro h
    have hne : (0 : ℤ) ≠ intent.qty := fun hall => by
      have hfilled := h.filled_iff.2 hall
      cases hfilled
    exact lt_of_le_of_ne h.le hne
  · intro hqty
    exact ⟨le_rfl, hqty.le, iff_of_false (by simp [OrderManager.newOrder]) hqty.ne⟩

/-- Whatever is reported on a new order, it stays within its quantity all the time exactly when the
fills add up to no more, and nothing else ends it once they have added up to that. -/
theorem withinOrdered_prefix_iff (intent : OrderIntent) (id : String) (nowNs : ℕ)
    {rs : List ExecutionReport} (hpos : ∀ r ∈ rs, r.type = .fill → 0 < r.qty) :
    (∀ pre, pre <+: rs → (pre.foldl report (OrderManager.newOrder intent id nowNs)).WithinOrdered) ↔
      0 < intent.qty ∧ filledBy rs ≤ intent.qty ∧
        ∀ pre r, pre ++ [r] <+: rs → r.Ends → filledBy pre < intent.qty := by
  by_cases hqty : 0 < intent.qty
  · have hrun := @forall_prefix_iff _ _ report Fits (fun _ => True) WithinOrdered
      (fun _ _ _ _ _ => trivial) (fun o r _ h => withinOrdered_report_iff h r)
      (OrderManager.newOrder intent id nowNs) trivial
      ((withinOrdered_new intent id nowNs).2 hqty) rs
    have hfits := @allSteps_fits_iff (OrderManager.newOrder intent id nowNs) rs hpos le_rfl hqty.le
    rw [hrun, hfits]
    simp only [OrderManager.newOrder, zero_add]
    exact ⟨fun h => ⟨hqty, h⟩, fun h => h.2⟩
  · refine iff_of_false (fun h => ?_) fun h => hqty h.1
    exact hqty ((withinOrdered_new intent id nowNs).1 (h [] List.nil_prefix))

end Order

/-! ### The order and the position book -/

namespace OrderManager

variable {m : OrderManager} {intent : OrderIntent} {id : String} {nowNs : ℕ}
  {rs : List ExecutionReport}

/-- The fills of an order move the position in its instrument by what they fill, and no other. -/
theorem netQty_reports (ho : m.orders[id]? = some (newOrder intent id nowNs))
    (hid : ∀ r ∈ rs, r.clientOrderId = id) (i : ℕ) :
    (rs.foldl onReport m).positions.netQty i = m.positions.netQty i +
      if intent.instrumentId = i then intent.side.sign * filledBy rs else 0 := by
  have hfills : ∀ f ∈ rs.filterMap m.fillBy,
      f.instrumentId = intent.instrumentId ∧ f.side = intent.side := by
    intro f hf
    obtain ⟨r, hr, hf⟩ := List.mem_filterMap.1 hf
    rw [fillBy, hid r hr, ho] at hf
    split_ifs at hf
    obtain rfl := Option.some.inj hf
    exact ⟨rfl, rfl⟩
  have hsum : ((rs.filterMap m.fillBy).map Fill.fillQty).sum = filledBy rs := by
    clear hfills
    induction rs with
    | nil => rfl
    | cons r rs ih =>
      have hone : m.fillBy r = if r.type = .fill then
          some ((newOrder intent id nowNs).fillOf r) else none := by
        rw [fillBy, hid r List.mem_cons_self, ho]
        rfl
      have hrest := ih fun r' hr' => hid r' (List.mem_cons_of_mem r hr')
      rw [List.filterMap_cons, hone, filledBy_cons, ExecutionReport.fillQty]
      split_ifs
      · rw [List.map_cons, List.sum_cons, hrest]
        rfl
      · rw [zero_add]
        exact hrest
  rw [(fills_foldl m rs).2, PositionBook.netQty_foldl fun f hf => (hfills f hf).1,
    sum_signedQty_of_side fun f hf => (hfills f hf).2, hsum]

/-- The order `id` is within its quantity, and no position has moved by more than that since `m₀`. -/
structure KeepsOrdered (m₀ : OrderManager) (id : String) (intent : OrderIntent) (m : OrderManager) :
    Prop where
  order : ∃ o, m.orders[id]? = some o ∧ o.intent = intent ∧ o.WithinOrdered
  moved : ∀ i, |m.positions.netQty i - m₀.positions.netQty i| ≤ intent.qty

/-- Whatever part of the reports has arrived, the order and the position book keep to what was
ordered. -/
def NoOverfill (m : OrderManager) (id : String) (intent : OrderIntent)
    (reports : List ExecutionReport) : Prop :=
  ∀ pre, pre <+: reports → KeepsOrdered m id intent (pre.foldl onReport m)

/-- An order is what its reports make of it. -/
theorem orders_reports (ho : m.orders[id]? = some (newOrder intent id nowNs))
    (hid : ∀ r ∈ rs, r.clientOrderId = id) : (rs.foldl onReport m).orders[id]? =
      some (rs.foldl Order.report (newOrder intent id nowNs)) := by
  have hown : (rs.filter fun r => r.clientOrderId = id) = rs := by
    rw [List.filter_eq_self]
    simpa using hid
  rw [orders_foldl, ho, hown]
  rfl

theorem keepsOrdered_iff (ho : m.orders[id]? = some (newOrder intent id nowNs))
    (hid : ∀ r ∈ rs, r.clientOrderId = id) (hpos : ∀ r ∈ rs, r.type = .fill → 0 < r.qty) :
    KeepsOrdered m id intent (rs.foldl onReport m) ↔
      (rs.foldl Order.report (newOrder intent id nowNs)).WithinOrdered := by
  have horder := orders_reports ho hid
  constructor
  · intro h
    obtain ⟨o, ho', -, hwithin⟩ := h.order
    rw [horder] at ho'
    rwa [Option.some.inj ho']
  · intro h
    have hintent : (rs.foldl Order.report (newOrder intent id nowNs)).intent = intent :=
      Order.intent_foldl _ rs
    have hfilled : filledBy rs ≤ intent.qty := by
      have hle := h.le
      rw [hintent, Order.filledQty_foldl] at hle
      simpa [newOrder] using hle
    have hnonneg := filledBy_nonneg hpos
    refine ⟨⟨_, horder, hintent, h⟩, fun i => ?_⟩
    rw [netQty_reports ho hid, add_sub_cancel_left]
    split_ifs
    · rw [abs_mul, abs_of_nonneg hnonneg]
      exact (mul_le_of_le_one_left hnonneg (Side.abs_sign_le _)).trans hfilled
    · rw [abs_zero]
      exact hnonneg.trans hfilled

/-- **When no order is overfilled**: in every sequence of reports with positive fills on a new
order, the order and the position book keep to what was ordered if and only if the fills add up to
no more than that, and no reject, expiry or cancellation follows once they have added up to it. -/
theorem noOverfill_iff (ho : m.orders[id]? = some (newOrder intent id nowNs))
    (hid : ∀ r ∈ rs, r.clientOrderId = id) (hpos : ∀ r ∈ rs, r.type = .fill → 0 < r.qty) :
    m.NoOverfill id intent rs ↔ 0 < intent.qty ∧ filledBy rs ≤ intent.qty ∧
      ∀ pre r, pre ++ [r] <+: rs → r.Ends → filledBy pre < intent.qty := by
  rw [← Order.withinOrdered_prefix_iff intent id nowNs hpos]
  refine forall_congr' fun pre => forall_congr' fun hpre => ?_
  exact keepsOrdered_iff ho (fun r hr => hid r (hpre.subset hr)) fun r hr => hpos r (hpre.subset hr)

/-- Two fills that make up the order, and an ack between them. -/
theorem noOverfill_iff_twoFills :
    unanswered.1.NoOverfill unanswered.2.2.clientOrderId unanswered.2.2.intent
      [answer .fill 6 "", answer .ack 0 "", answer .fill 4 ""] := by
  refine (@noOverfill_iff unanswered.1 unanswered.2.2.intent unanswered.2.2.clientOrderId 0 _
    (by decide +kernel) (by decide +kernel) (by decide +kernel)).2
      ⟨by decide +kernel, by decide +kernel, fun pre r hpre hends => ?_⟩
  -- nothing but fills and an ack is reported
  have hmem : r ∈ [answer .fill 6 "", answer .ack 0 "", answer .fill 4 ""] :=
    hpre.subset (List.mem_append_right pre (List.mem_singleton_self r))
  have hnone : ∀ r ∈ [answer .fill 6 "", answer .ack 0 "", answer .fill 4 ""],
      ¬(r.type = .reject ∨ r.type = .expire ∨ r.type = .cancel) := by decide +kernel
  exact absurd hends (hnone r hmem)

/-- The complete fill reported twice: the order counts twice its quantity. -/
theorem not_noOverfill_repeated :
    ¬ unanswered.1.NoOverfill unanswered.2.2.clientOrderId unanswered.2.2.intent
      [answer .fill 10 "", answer .fill 10 ""] := by
  intro h
  obtain ⟨o, ho, hintent, hwithin⟩ := (h _ List.prefix_rfl).order
  have hqty : (([answer .fill 10 "", answer .fill 10 ""].foldl onReport unanswered.1).orders[
      unanswered.2.2.clientOrderId]?).map Order.filledQty = some 20 := by decide +kernel
  have hordered : unanswered.2.2.intent.qty = 10 := by decide +kernel
  have hle := hwithin.le
  rw [ho, Option.map_some] at hqty
  rw [hintent, hordered, Option.some.inj hqty] at hle
  exact absurd hle (by decide)

end OrderManager

end Hft
