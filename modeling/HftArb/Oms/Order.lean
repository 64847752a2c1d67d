import HftArb.Common.Types

/-!
# `oms`: intents, orders, execution reports and fills
-/

namespace Hft

/-- `struct OrderIntent`. -/
structure OrderIntent where
  parentArbId : String := ""
  instrumentId : ℕ := 0
  venue : Venue := .unknown
  side : Side := .unknown
  orderType : OrderType := .limit
  tif : TimeInForce := .ioc
  role : OrderRole := .unknown
  pricePaise : ℤ := 0
  qty : ℤ := 0
  deriving DecidableEq, Repr

/-- `enum class OrderState`. -/
inductive OrderState
  | new
  | sent
  | acked
  | partial_
  | filled
  | canceled
  | rejected
  | expired
  deriving DecidableEq, Repr

/-- `struct Order`. -/
structure Order where
  intent : OrderIntent := {}
  clientOrderId : String := ""
  exchangeOrderId : String := ""
  filledQty : ℤ := 0
  state : OrderState := .new
  tsSentNs : ℕ := 0
  tsAckNs : ℕ := 0
  tsDoneNs : ℕ := 0
  errCode : String := ""
  deriving DecidableEq, Repr

/-- `enum class ExecType`. -/
inductive ExecType
  | ack
  | fill
  | reject
  | expire
  | cancel
  deriving DecidableEq, Repr

/-- `struct ExecutionReport`. -/
structure ExecutionReport where
  type : ExecType
  clientOrderId : String
  parentArbId : String
  instrumentId : ℕ
  venue : Venue
  side : Side
  pricePaise : ℤ
  qty : ℤ
  tsNs : ℕ
  reason : String
  deriving DecidableEq, Repr

/-- `struct Fill`. -/
structure Fill where
  parentArbId : String
  clientOrderId : String
  instrumentId : ℕ
  venue : Venue
  side : Side
  fillPxPaise : ℤ
  fillQty : ℤ
  tsFillNs : ℕ
  deriving DecidableEq, Repr

end Hft
