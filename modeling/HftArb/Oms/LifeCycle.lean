import HftArb.Oms.Reporting

/-!
# The life cycle of an order

An order is over once it is filled, rejected, expired or canceled.  Only the `Ack` case of
`on_report` looks at the state it finds; the others go by the filled quantity, so a late report can
take an order out of its final state.  `Order.Stands` says which reports do not, and
`absorbing_iff` that these are exactly the ones a run may contain.
-/

namespace Hft

open Transition

/-- The states a life cycle ends in. -/
def OrderState.terminal : OrderState → Bool
  | .filled | .rejected | .expired | .canceled => true
  | .new | .sent | .acked | .partial_ => false

/-- The report finds the order over and leaves it in the same state: an `Ack` always, a `Fill` that
keeps a filled order filled, and a repetition of the report that ended an order without fills. -/
def Order.Stands (o : Order) (r : ExecutionReport) : Prop :=
  match r.type with
  | .ack => True
  | .fill => o.state = .filled ∧ o.intent.qty ≤ o.filledQty + r.qty
  | .reject => o.state = .rejected ∧ o.filledQty ≤ 0
  | .expire => o.state = .expired ∧ o.filledQty ≤ 0
  | .cancel => o.state = .canceled

theorem OrderState.sent_ne {st : OrderState} (h : st.terminal) : st ≠ .sent := by
  rintro rfl
  cases h

theorem OrderState.partial_ne {st : OrderState} (h : st.terminal) : .partial_ ≠ st := by
  rintro rfl
  cases h

theorem Order.state_report_iff {o : Order} (h : o.state.terminal) (r : ExecutionReport) :
    (o.report r).state = o.state ↔ o.Stands r := by
  unfold Order.report Order.Stands
  cases r.type with
  | ack => simp [OrderState.sent_ne h]
  | fill =>
    by_cases hq : o.intent.qty ≤ o.filledQty + r.qty
    · simp [hq, eq_comm]
    · simp [hq, OrderState.partial_ne h]
  | reject =>
    by_cases hq : 0 < o.filledQty
    · simp [hq, OrderState.partial_ne h]
    · simp [hq, not_lt.1 hq, eq_comm]
  | expire =>
    by_cases hq : 0 < o.filledQty
    · simp [hq, OrderState.partial_ne h]
    · simp [hq, not_lt.1 hq, eq_comm]
  | cancel => simp [eq_comm]

namespace OrderManager

variable {m : OrderManager}

/-- The order with this id is over, in this state. -/
def Ended (k : String × OrderState) (m : OrderManager) : Prop :=
  k.2.terminal = true ∧ (m.orders[k.1]?).map Order.state = some k.2

/-- Once an order is over no later report of the run changes its state. -/
def Absorbing (m : OrderManager) (reports : List ExecutionReport) : Prop :=
  Stable onReport Ended m reports

/-- If the report is on an order that is over, it leaves it in its state. -/
def Stands (m : OrderManager) (r : ExecutionReport) : Prop :=
  ∀ o, m.orders[r.clientOrderId]? = some o → o.state.terminal = true → o.Stands r

/-- One report keeps the final states exactly when it stands. -/
theorem ended_onReport_iff (m : OrderManager) (r : ExecutionReport) :
    (∀ k, Ended k m → Ended k (m.onReport r)) ↔ m.Stands r := by
  constructor
  · intro h o ho hterm
    have hended := (h (r.clientOrderId, o.state) ⟨hterm, by simp [ho]⟩).2
    rw [orders_onReport, if_pos rfl, ho] at hended
    exact (Order.state_report_iff hterm r).1 (by simpa using hended)
  · rintro h ⟨id, st⟩ ⟨hterm, hst⟩
    refine ⟨hterm, ?_⟩
    dsimp only at hterm hst ⊢
    rw [orders_onReport]
    by_cases hid : id = r.clientOrderId
    · rw [if_pos hid]
      cases ho : m.orders[id]? with
      | none =>
        rw [ho] at hst
        cases hst
      | some o =>
        rw [ho] at hst
        obtain rfl : o.state = st := by simpa using hst
        have hstands := h o (by rw [← hid, ho]) hterm
        simpa using (Order.state_report_iff hterm r).2 hstands
    · rw [if_neg hid, hst]

/-- **When the life cycle is absorbing**: in every run of reports, of any types and on any orders,
no report changes the state of an order that is over if and only if each of them stands. -/
theorem absorbing_iff (m : OrderManager) (reports : List ExecutionReport) :
    m.Absorbing reports ↔ AllSteps onReport Stands m reports := by
  have hstep : (fun m r => ∀ k, Ended k m → Ended k (onReport m r)) = Stands :=
    funext fun m => funext fun r => propext (ended_onReport_iff m r)
  rw [Absorbing, stable_iff, hstep]

/-! ### A late reject -/

/-- An order to buy ten, sent through a gateway that does not answer. -/
def unanswered : OrderManager × Unit × Order :=
  ({} : OrderManager).submit
    { parentArbId := "SIM-ARB-1-1", instrumentId := 1, venue := .bse, side := .buy,
      role := .alphaBuy, pricePaise := 100, qty := 10 }
    (fun _ _ => ([], ())) () 0

/-- An answer to the order. -/
def answer (type : ExecType) (qty : ℤ) (reason : String) : ExecutionReport where
  type := type
  clientOrderId := unanswered.2.2.clientOrderId
  parentArbId := "SIM-ARB-1-1"
  instrumentId := 1
  venue := .bse
  side := .buy
  pricePaise := 100
  qty := qty
  tsNs := 0
  reason := reason

/-- A reject after the complete fill makes the order partial. -/
theorem late_reject_not_absorbing :
    ¬ unanswered.1.Absorbing [answer .fill 10 "", answer .reject 0 "LATE"] := by
  intro h
  have hfilled : Ended ("SIM-ARB-1-1-BSE-BUY-ALPHA_BUY-1", .filled)
      (unanswered.1.onReport (answer .fill 10 "")) := ⟨rfl, by decide +kernel⟩
  have hlate := h [answer .fill 10 ""] [answer .reject 0 "LATE"] List.prefix_rfl _ hfilled
  exact absurd hlate.2 (by decide +kernel)

end OrderManager

end Hft
