import HftArb.Common.Ids
import HftArb.Risk.RiskEngine

/-!
# `oms/order_manager`: orders, fills and the position book

`orders_` is a hash map by client order id that is only looked up.  `trail` observes the position
book after every execution report of a submission; nothing reads it.
-/

namespace Hft

open Std (ExtTreeMap)

/-- `class OrderManager`, with the position book it refers to. -/
structure OrderManager where
  positions : PositionBook := {}
  ids : IdGenerator := { idPrefix := "SIM" }
  orders : ExtTreeMap String Order := ∅
  fills : List Fill := []
  consumedFills : ℕ := 0
  trail : List PositionBook := []

/-- The order after an execution report, as the cases of `on_report` update it. -/
def Order.report (o : Order) (r : ExecutionReport) : Order :=
  match r.type with
  | .ack => if o.state = .sent then { o with state := .acked, tsAckNs := r.tsNs } else o
  | .fill =>
      let o := { o with filledQty := o.filledQty + r.qty }
      if o.filledQty ≥ o.intent.qty then { o with state := .filled, tsDoneNs := r.tsNs }
      else { o with state := .partial_ }
  | .reject =>
      { o with
        state := if o.filledQty > 0 then .partial_ else .rejected
        errCode := r.reason
        tsDoneNs := r.tsNs }
  | .expire =>
      { o with
        state := if o.filledQty > 0 then .partial_ else .expired
        errCode := if r.reason = "" then "IOC_EXPIRED" else r.reason
        tsDoneNs := r.tsNs }
  | .cancel => { o with state := .canceled, tsDoneNs := r.tsNs }

/-- The fill `on_report` records: price and quantity of the report, all else of the order. -/
def Order.fillOf (o : Order) (r : ExecutionReport) : Fill where
  parentArbId := o.intent.parentArbId
  clientOrderId := o.clientOrderId
  instrumentId := o.intent.instrumentId
  venue := o.intent.venue
  side := o.intent.side
  fillPxPaise := r.pricePaise
  fillQty := r.qty
  tsFillNs := r.tsNs

/-- The report that `submit` passes on: empty ids are filled in. -/
def ExecutionReport.completed (r : ExecutionReport) (clientOrderId parentArbId : String) :
    ExecutionReport :=
  { r with
    clientOrderId := if r.clientOrderId = "" then clientOrderId else r.clientOrderId
    parentArbId := if r.parentArbId = "" then parentArbId else r.parentArbId }

/-- `PositionBook::apply_fill` of a fill. -/
def PositionBook.apply (pb : PositionBook) (f : Fill) : PositionBook :=
  pb.applyFill f.instrumentId f.side f.fillQty f.fillPxPaise

namespace OrderManager

/-- `on_report`. -/
def onReport (m : OrderManager) (r : ExecutionReport) : OrderManager :=
  match m.orders[r.clientOrderId]? with
  | none => m
  | some o =>
      let m := { m with orders := m.orders.insert r.clientOrderId (o.report r) }
      if r.type = .fill then
        { m with
          fills := m.fills ++ [o.fillOf r]
          positions := m.positions.apply (o.fillOf r) }
      else m

/-- Record the position book. -/
def observed (m : OrderManager) : OrderManager := { m with trail := m.trail ++ [m.positions] }

/-- The order `submit` creates. -/
def newOrder (intent : OrderIntent) (clientOrderId : String) (nowNs : ℕ) : Order where
  intent := intent
  clientOrderId := clientOrderId
  state := .sent
  tsSentNs := nowNs

/-- `submit` through a gateway with state `γ`; the order is returned as it is after all reports. -/
def submit {γ : Type} (m : OrderManager) (intent : OrderIntent)
    (send : γ → Order → List ExecutionReport × γ) (gateway : γ) (nowNs : ℕ) :
    OrderManager × γ × Order :=
  let (id, ids) := m.ids.nextOrder intent.parentArbId intent.venue intent.side intent.role
  -- `emplace` keeps an order that already has this id
  let o := (m.orders[id]?).getD (newOrder intent id nowNs)
  let m := { m with ids := ids, orders := m.orders.insert id o }
  let (reports, gateway) := send gateway o
  let m := reports.foldl
    (fun m r => (m.onReport (r.completed o.clientOrderId intent.parentArbId)).observed) m
  (m, gateway, (m.orders[id]?).getD o)

/-- `take_new_fills`. -/
def takeNewFills (m : OrderManager) : List Fill × OrderManager :=
  (m.fills.drop m.consumedFills, { m with consumedFills := m.fills.length })

end OrderManager

end Hft
