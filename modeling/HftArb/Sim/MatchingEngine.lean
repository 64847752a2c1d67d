import HftArb.Book.BookManager
import HftArb.Oms.OrderManager

/-!
# `sim/scenario` and `sim/matching_engine`: the simulated gateway

What the gateway takes from outside is an `Env`: the readings of the clock and the iteration orders
of the hash maps, one for each order it is sent.
-/

namespace Hft

/-- `struct ScenarioConfig`. -/
structure ScenarioConfig where
  name : String := "clean"
  description : String := ""
  sendSellFirst : Bool := false
  delayedAck : Bool := false
  disconnectNse : Bool := false
  disconnectBse : Bool := false
  manualKill : Bool := false
  rejectRolesOnce : Finset OrderRole := ∅
  maxFillQtyByRole : OrderRole → Option ℤ := fun _ => none
  extraLatencyUs : ℤ := 0

namespace ScenarioConfig

/-- `from_name`. -/
def fromName (name : String) : ScenarioConfig :=
  let s : ScenarioConfig := { name := name, description := name }
  if name = "bse_buy_fills_nse_sell_reject" then { s with rejectRolesOnce := {.alphaSell} }
  else if name = "nse_sell_fills_bse_buy_reject" then
    { s with rejectRolesOnce := {.alphaBuy}, sendSellFirst := true }
  else if name = "both_legs_partial" then
    { s with
      maxFillQtyByRole := fun
        | .alphaBuy => some 60
        | .alphaSell => some 20
        | _ => none }
  else if name = "buy_partial_sell_zero" then
    { s with
      maxFillQtyByRole := fun
        | .alphaBuy => some 60
        | _ => none
      rejectRolesOnce := {.alphaSell} }
  else if name = "gateway_disconnect_nse" then { s with disconnectNse := true }
  else if name = "delayed_ack" then { s with delayedAck := true }
  else if name = "manual_kill" then { s with manualKill := true }
  else s

/-- `should_reject`. -/
def shouldReject (s : ScenarioConfig) (role : OrderRole) : Bool × ScenarioConfig :=
  if role ∈ s.rejectRolesOnce then
    (true, { s with rejectRolesOnce := s.rejectRolesOnce.erase role })
  else (false, s)

/-- `cap_fill_qty`. -/
def capFillQty (s : ScenarioConfig) (role : OrderRole) (requested : ℤ) : ℤ :=
  match s.maxFillQtyByRole role with
  | none => requested
  | some cap => min requested cap

/-- `disconnected`. -/
def disconnected (s : ScenarioConfig) (v : Venue) : Bool :=
  v = .nse && s.disconnectNse || v = .bse && s.disconnectBse

end ScenarioConfig

/-- What a run takes from outside: for its `n`-th order the value of `now_ns()` and the iteration
orders of the id index. -/
structure Env where
  nowNs : ℕ → ℕ
  walk : ℕ → WalkOrder ℤ

/-- `class MatchingEngine`, with the books it refers to and the number of orders sent so far. -/
structure MatchingEngine where
  books : BookManager := {}
  scenario : ScenarioConfig := {}
  sends : ℕ := 0

namespace MatchingEngine

/-- The lambda `make` of `send`. -/
def makeReport (order : Order) (ts : ℕ) (type : ExecType) (px qty : ℤ) (reason : String) :
    ExecutionReport where
  type := type
  clientOrderId := order.clientOrderId
  parentArbId := order.intent.parentArbId
  instrumentId := order.intent.instrumentId
  venue := order.intent.venue
  side := order.intent.side
  pricePaise := px
  qty := qty
  tsNs := ts
  reason := reason

/-- The reports of an order whose match gave `levelFills`. -/
def matchReports (delayedAck : Bool) (order : Order) (ts : ℕ) (levelFills : List (LevelFill ℤ)) :
    List ExecutionReport :=
  let make := makeReport order ts
  let px := order.intent.pricePaise
  let filled := (levelFills.map LevelFill.qty).sum
  (if delayedAck then [] else [make .ack px 0 ""]) ++
    levelFills.map (fun lf => make .fill lf.pricePaise lf.qty "") ++
    (if delayedAck then [make .ack px 0 "DELAYED_ACK"] else []) ++
    (if filled < order.intent.qty then
      [make .expire px (order.intent.qty - filled) "IOC_REMAINDER_EXPIRED"] else [])

/-- `send`. -/
def send (env : Env) (g : MatchingEngine) (order : Order) :
    List ExecutionReport × MatchingEngine :=
  let o := order.intent
  let ts := (env.nowNs g.sends + (g.scenario.extraLatencyUs % 2 ^ 64).toNat * 1000) % 2 ^ 64
  let walk := env.walk g.sends
  let g := { g with sends := g.sends + 1 }
  let reject := fun reason => [makeReport order ts .reject o.pricePaise 0 reason]
  if g.scenario.disconnected o.venue then (reject "GATEWAY_DISCONNECT", g)
  else
    let (rejected, scenario) := g.scenario.shouldReject o.role
    let g := { g with scenario := scenario }
    if rejected then (reject "SCENARIO_REJECT", g)
    else match g.books.book o.venue o.instrumentId with
      | none => (reject "NO_BOOK", g)
      | some b =>
          let (b, levelFills) :=
            b.matchIoc walk o.side o.pricePaise (g.scenario.capFillQty o.role o.qty)
          (matchReports g.scenario.delayedAck order ts levelFills,
            { g with books := g.books.setBook o.venue o.instrumentId b })

end MatchingEngine

end Hft
