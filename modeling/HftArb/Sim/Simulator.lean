import HftArb.Hedge.HedgePolicy
import HftArb.Md.Handler
import HftArb.Sim.MatchingEngine

/-!
# `sim/simulator`: a replay run

`run_replay` owns the market data handler, the positions, the risk engine, the order manager, the
gateway and the id generator of a run; together with its result and logs they are the
`ReplayState`.  The books outlive the run, so that a second run of the same `Simulator` finds the
books of the first.

* `execute_opportunity` and `hedge_until_flat` work on an `Execution`, the run and the pair.
* Both loops are bodies under `runLoop`; `replay_ends` and `hedge_ends` show that their fuel is
  never used up.
* Logs keep the records their rows are printed from; `fills.csv`, which `report_pnl.py` reads back,
  is kept by column.
* `trace` observes the verdicts and orders of a run; nothing reads it.
-/

namespace Hft

open Transition

/-- `struct SimulatorResult`. -/
structure SimulatorResult where
  opportunities : ℕ := 0
  trades : ℕ := 0
  hedges : ℕ := 0
  riskBlocks : ℕ := 0
  finalState : String := ""
  deriving DecidableEq, Repr

/-- `struct RiskEvent`: a row of `risk_events.csv`. -/
structure RiskEvent where
  tsNs : ℕ
  severity : String
  ruleName : String
  instrumentId : ℕ
  details : String
  deriving DecidableEq, Repr

/-- A row of `fills.csv`. -/
structure FillRow where
  parentArbId : String
  clientOrderId : String
  instrumentId : ℕ
  venue : String
  side : String
  fillPxPaise : ℤ
  fillQty : ℤ
  tsFillNs : ℕ
  deriving DecidableEq, Repr

/-- The row `log_fill` writes. -/
def Fill.row (f : Fill) : FillRow where
  parentArbId := f.parentArbId
  clientOrderId := f.clientOrderId
  instrumentId := f.instrumentId
  venue := f.venue.text
  side := f.side.text
  fillPxPaise := f.fillPxPaise
  fillQty := f.fillQty
  tsFillNs := f.tsFillNs

/-- The log files. -/
structure Logs where
  opportunities : List StrategyDecision := []
  orders : List Order := []
  fills : List FillRow := []
  risks : List RiskEvent := []
  pairs : List PairTrade := []

/-- A state inside `hedge_until_flat`, when the policy is asked. -/
structure HedgePoint where
  pair : PairTrade
  nse : BestQuote
  bse : BestQuote
  risk : RiskEngine
  positions : PositionBook
  nowNs : ℕ

namespace HedgePoint

/-- `hedge.next_order(pair, nse_q, bse_q)`. -/
def decision (h : HedgePoint) (cfg : RiskConfig) : HedgeDecision := nextOrder cfg h.pair h.nse h.bse

/-- `check_order` of the intent the policy returned, with the quote of its venue. -/
def check (h : HedgePoint) (cfg : RiskConfig) : RiskDecision × RiskEngine :=
  let intent := (h.decision cfg).intent
  h.risk.checkOrder h.positions intent (quoteFor h.nse h.bse intent.venue) h.nowNs

end HedgePoint

/-- What is observed of a run. -/
inductive Observation
  /-- `check_order` of an alpha leg. -/
  | leg (intent : OrderIntent) (decision : RiskDecision)
  /-- An order handed to the gateway. -/
  | sent (intent : OrderIntent)
  /-- A turn of the hedge loop. -/
  | hedging (at_ : HedgePoint)
  /-- A return of `hedge_until_flat`. -/
  | hedged (pair : PairTrade) (kill : KillSwitch)
  /-- The end of `execute_opportunity`, with the two intents in the order they were checked. -/
  | executed (first second : OrderIntent) (pair : PairTrade)

/-- The state of `run_replay`. -/
structure ReplayState where
  md : MarketDataHandler
  gateway : MatchingEngine
  risk : RiskEngine
  oms : OrderManager := {}
  ids : IdGenerator := { idPrefix := "SIM" }
  result : SimulatorResult := {}
  logs : Logs := {}
  trace : List Observation := []

namespace ReplayState

/-- Record an observation. -/
def observe (s : ReplayState) (o : Observation) : ReplayState := { s with trace := s.trace ++ [o] }

/-- `log_risk(...); result.risk_blocks++;` -/
def riskBlock (s : ReplayState) (ts : ℕ) (severity rule : String) (instrumentId : ℕ)
    (details : String) : ReplayState :=
  { s with
    logs := { s.logs with risks := s.logs.risks ++ [⟨ts, severity, rule, instrumentId, details⟩] }
    result := { s.result with riskBlocks := s.result.riskBlocks + 1 } }

/-- `log_opportunity`. -/
def logOpportunity (s : ReplayState) (d : StrategyDecision) : ReplayState :=
  { s with logs := { s.logs with opportunities := s.logs.opportunities ++ [d] } }

/-- `books_.quote(venue, instrument_id, now_ns).value_or(BestQuote{})`. -/
def quoteOr (s : ReplayState) (venue : Venue) (instrumentId nowNs : ℕ) : BestQuote :=
  (s.gateway.books.quote venue instrumentId nowNs).getD {}

end ReplayState

/-- The run and the pair that `execute_opportunity` works on. -/
structure Execution where
  run : ReplayState
  pair : PairTrade

/-- `if (f.parent_arb_id == pair.parent_id) pair.apply_fill(f);` -/
def PairTrade.takeFill (p : PairTrade) (f : Fill) : PairTrade :=
  if f.parentArbId = p.parentId then p.applyFill f else p

namespace Execution

/-- Submit an order, log it and its fills, and count the pair's own fills. -/
def submit (env : Env) (nowNs : ℕ) (x : Execution) (intent : OrderIntent) : Execution × Order :=
  let (oms, gateway, o) :=
    x.run.oms.submit intent (MatchingEngine.send env) x.run.gateway nowNs
  let (newFills, oms) := oms.takeNewFills
  let logs :=
    { x.run.logs with
      orders := x.run.logs.orders ++ [o]
      fills := x.run.logs.fills ++ newFills.map Fill.row }
  let run := { x.run with oms := oms, gateway := gateway, logs := logs }
  ({ run := run.observe (.sent intent), pair := newFills.foldl PairTrade.takeFill x.pair }, o)

/-- The check of a leg. -/
def checkLeg (nowNs : ℕ) (q : BestQuote) (x : Execution) (intent : OrderIntent) :
    RiskDecision × Execution :=
  let (rd, risk) := x.run.risk.checkOrder x.run.oms.positions intent q nowNs
  (rd, { x with run := { x.run with risk := risk }.observe (.leg intent rd) })

/-- A leg that the risk engine blocks. -/
def blockLeg (nowNs : ℕ) (x : Execution) (intent : OrderIntent) (rd : RiskDecision) :
    Execution where
  run := x.run.riskBlock nowNs "HIGH" rd.rule intent.instrumentId rd.details
  pair := x.pair.markLegFailed rd.rule nowNs

/-- A leg that the gateway rejects or that expires unfilled. -/
def failLeg (x : Execution) (o : Order) : Execution :=
  if o.state = .rejected ∨ o.state = .expired then
    { x with pair := x.pair.markLegFailed o.errCode o.tsDoneNs }
  else x

/-- The lambda `send_one`. -/
def sendOne (env : Env) (nowNs : ℕ) (nse bse : BestQuote) (x : Execution) (intent : OrderIntent) :
    Execution :=
  let (rd, x) := x.checkLeg nowNs (quoteFor nse bse intent.venue) intent
  if ¬ rd.approved then x.blockLeg nowNs intent rd
  else
    let (x, o) := x.submit env nowNs intent
    x.failLeg o

/-- Leave the hedge loop with the pair in `state`. -/
def stopHedging (x : Execution) (nowNs : ℕ) (state : PairState) (severity rule details : String) :
    Execution where
  run := x.run.riskBlock nowNs severity rule x.pair.instrumentId details
  pair := { x.pair with state := state, lastError := rule }

/-- The point the loop of `hedge_until_flat` is at. -/
def hedgePoint (nowNs : ℕ) (x : Execution) : HedgePoint where
  pair := x.pair
  nse := x.run.quoteOr .nse x.pair.instrumentId nowNs
  bse := x.run.quoteOr .bse x.pair.instrumentId nowNs
  risk := x.run.risk
  positions := x.run.oms.positions
  nowNs := nowNs

/-- The point is recorded. -/
def asked (nowNs : ℕ) (x : Execution) : Execution :=
  { x with run := x.run.observe (.hedging (x.hedgePoint nowNs)) }

/-- `risk_engine.kill_switch().disable(reason)`. -/
def disable (x : Execution) (reason : String) : Execution :=
  let risk := { x.run.risk with kill := x.run.risk.kill.disable reason }
  { x with run := { x.run with risk := risk } }

/-- `++pair.hedge_attempts`, and the risk engine after the check. -/
def attempted (x : Execution) (risk : RiskEngine) : Execution where
  run := { x.run with risk := risk }
  pair := { x.pair with hedgeAttempts := x.pair.hedgeAttempts + 1 }

/-- `result.hedges++`. -/
def countHedge (x : Execution) : Execution :=
  { x with run := { x.run with result := { x.run.result with hedges := x.run.result.hedges + 1 } } }

/-- One turn of the loop of `hedge_until_flat`. -/
def hedgeBody (env : Env) (cfg : RiskConfig) (nowNs : ℕ) (x : Execution) : ForInStep Execution :=
  if ¬ (x.pair.residual ≠ 0 ∧ x.pair.hedgeAttempts < cfg.maxHedgeAttempts) then .done x
  else
    let point := x.hedgePoint nowNs
    let hd := point.decision cfg
    let x := x.asked nowNs
    if hd.kill then
      .done ((x.disable hd.reason).stopHedging nowNs .killSwitch "CRITICAL" hd.reason
        "hedge policy kill")
    else if ¬ hd.shouldSend then
      .done (x.stopHedging nowNs .errorRecovery "HIGH" hd.reason "no hedge order produced")
    else
      let (rd, risk) := point.check cfg
      let x := x.attempted risk
      if ¬ rd.approved then
        .done (x.stopHedging nowNs .errorRecovery "HIGH" rd.rule rd.details)
      else
        .yield (x.submit env nowNs hd.intent).1.countHedge

/-- The end of `hedge_until_flat`. -/
def settle (x : Execution) : Execution :=
  let state :=
    if x.pair.residual = 0 then .flat
    else if x.pair.state = .hedging then .errorRecovery
    else x.pair.state
  let pair := { x.pair with state := state }
  { run := x.run.observe (.hedged pair x.run.risk.kill), pair := pair }

/-- `hedge_until_flat`. -/
def hedgeUntilFlat (env : Env) (cfg : RiskConfig) (nowNs : ℕ) (x : Execution) : Execution :=
  (runLoop (hedgeBody env cfg nowNs)
    ((cfg.maxHedgeAttempts - x.pair.hedgeAttempts).toNat + 1) x).settle

end Execution

/-- What a `Simulator` is constructed with. -/
structure SimConfig where
  costs : CostModel := {}
  risk : RiskConfig := {}
  strategy : StrategyConfig := {}
  scenario : ScenarioConfig := {}

/-- The `OrderIntent buy` of `execute_opportunity`. -/
def ArbOpportunity.buy (opp : ArbOpportunity) : OrderIntent where
  parentArbId := opp.parentArbId
  instrumentId := opp.instrumentId
  venue := opp.buyVenue
  side := .buy
  orderType := .limit
  tif := .ioc
  role := .alphaBuy
  pricePaise := opp.buyPricePaise
  qty := opp.qty

/-- The `OrderIntent sell` of `execute_opportunity`. -/
def ArbOpportunity.sell (opp : ArbOpportunity) : OrderIntent :=
  { opp.buy with
    venue := opp.sellVenue
    side := .sell
    role := .alphaSell
    pricePaise := opp.sellPricePaise }

/-- The two legs in the order `execute_opportunity` sends them. -/
def SimConfig.legs (cfg : SimConfig) (opp : ArbOpportunity) : OrderIntent × OrderIntent :=
  if cfg.scenario.sendSellFirst then (opp.sell, opp.buy) else (opp.buy, opp.sell)

namespace ReplayState

/-- The part of `execute_opportunity` that sends both legs. -/
def sendLegs (env : Env) (nowNs : ℕ) (s : ReplayState) (opp : ArbOpportunity)
    (first second : OrderIntent) : Execution :=
  let nse := s.quoteOr .nse opp.instrumentId nowNs
  let bse := s.quoteOr .bse opp.instrumentId nowNs
  let x := Execution.sendOne env nowNs nse bse ⟨s, .fromOpportunity opp⟩ first
  Execution.sendOne env nowNs nse bse x second

/-- The part of `execute_opportunity` that hedges what the legs left. -/
def hedgeLegs (env : Env) (cfg : RiskConfig) (nowNs : ℕ) (x : Execution) : Execution :=
  let x :=
    if x.pair.residual ≠ 0 then
      { x with pair := { x.pair with state := .hedging } }.hedgeUntilFlat env cfg nowNs
    else x
  if x.pair.residual = 0 then { x with pair := { x.pair with state := .flat } } else x

/-- `execute_opportunity`. -/
def executeOpportunity (env : Env) (cfg : SimConfig) (nowNs : ℕ) (s : ReplayState)
    (opp : ArbOpportunity) : ReplayState :=
  let (first, second) := cfg.legs opp
  let x := hedgeLegs env cfg.risk nowNs (s.sendLegs env nowNs opp first second)
  { x.run with
    logs := { x.run.logs with pairs := x.run.logs.pairs ++ [x.pair] }
    result := { x.run.result with finalState := x.pair.state.text } }.observe
      (.executed first second x.pair)

/-- Give the opportunity of a decision to trade its parent id, log it and count it. -/
def announce (s : ReplayState) (d : StrategyDecision) : ArbOpportunity × ReplayState :=
  let (parent, ids) := s.ids.nextParent d.opportunity.instrumentId
  let d := { d with opportunity := { d.opportunity with parentArbId := parent } }
  let s := { s with ids := ids }.logOpportunity d
  (d.opportunity,
    { s with result := { s.result with opportunities := s.result.opportunities + 1 } })

/-- `result.trades++`. -/
def countTrade (s : ReplayState) : ReplayState :=
  { s with result := { s.result with trades := s.result.trades + 1 } }

/-- `run_replay` from the strategy's decision on. -/
def tradeOn (env : Env) (cfg : SimConfig) (maxTrades : ℤ) (nowNs : ℕ) (s : ReplayState)
    (nse bse : BestQuote) : ReplayState :=
  let d := evaluate cfg.strategy nse bse cfg.costs nowNs
  if ¬ d.shouldTrade then
    if d.reason ≠ "INVALID_QUOTE" then s.logOpportunity d else s
  else
    let (opp, s) := s.announce d
    if s.result.trades ≥ maxTrades then s
    else (s.executeOpportunity env cfg nowNs opp).countTrade

/-- `books_.on_event(...)`, and the row logged for a gap. -/
def onBookEvent (s : ReplayState) (item : MdResult) (ev : BookEvent ℤ) : ReplayState :=
  let s := { s with gateway := { s.gateway with books := s.gateway.books.onEvent ev } }
  if item.sequenceStatus = .gap then
    s.riskBlock ev.tsIngestNs "HIGH" "SEQUENCE_GAP" ev.instrumentId item.warning
  else s

/-- The body of the loop of `run_replay`, given what `md.next()` returned. -/
def onItem (env : Env) (cfg : SimConfig) (maxTrades : ℤ) (s : ReplayState) (item : MdResult) :
    ReplayState :=
  match item.event with
  | none => s
  | some ev =>
      let now := ev.tsIngestNs
      let s := s.onBookEvent item ev
      match s.gateway.books.quote .nse ev.instrumentId now,
          s.gateway.books.quote .bse ev.instrumentId now with
      | some nse, some bse =>
          if ¬ s.md.health.isHealthy .nse ev.instrumentId ∨
              ¬ s.md.health.isHealthy .bse ev.instrumentId then
            s.riskBlock now "HIGH" "UNHEALTHY_FEED" ev.instrumentId "feed marked unsafe"
          else s.tradeOn env cfg maxTrades now nse bse
      | _, _ => s

/-- One turn of the loop of `run_replay`. -/
def replayBody (env : Env) (cfg : SimConfig) (maxTrades : ℤ) (s : ReplayState) :
    ForInStep ReplayState :=
  match s.md.next with
  | (none, md) => .done { s with md := md }
  | (some item, md) => .yield (onItem env cfg maxTrades { s with md := md } item)

end ReplayState

/-- `class Simulator`. -/
structure Simulator where
  cfg : SimConfig
  books : BookManager := {}

/-- The arguments of a call of `run_replay`, and what the run takes from outside. -/
structure ReplayCall where
  env : Env
  lines : List Bytes
  maxTrades : ℤ

namespace Simulator

/-- The state in which the loop of `run_replay` starts. -/
def start (sim : Simulator) (lines : List Bytes) : ReplayState where
  md := .ofLines lines
  gateway := { books := sim.books, scenario := sim.cfg.scenario }
  risk :=
    let risk := RiskEngine.new sim.cfg.risk
    if sim.cfg.scenario.manualKill then
      { risk with kill := risk.kill.disable "MANUAL_KILL_SCENARIO" }
    else risk

/-- The run after at most `turns` turns of its loop. -/
def replayFor (sim : Simulator) (call : ReplayCall) (turns : ℕ) : ReplayState :=
  runLoop (ReplayState.replayBody call.env sim.cfg call.maxTrades) turns (sim.start call.lines)

/-- `run_replay`: every turn reads a line (`replay_ends`). -/
def runReplay (sim : Simulator) (call : ReplayCall) : ReplayState :=
  sim.replayFor call (call.lines.length + 1)

/-- The simulator after a run: its books stay as the run left them. -/
def afterRun (sim : Simulator) (call : ReplayCall) : Simulator :=
  { sim with books := (sim.runReplay call).gateway.books }

/-- The simulator after a number of runs. -/
def afterRuns (cfg : SimConfig) (calls : List ReplayCall) : Simulator :=
  calls.foldl afterRun { cfg := cfg }

end Simulator

end Hft
