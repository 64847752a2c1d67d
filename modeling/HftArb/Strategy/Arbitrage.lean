import HftArb.Book.OrderBook

/-!
# `strategy`: the cost model and the arbitrage signal
-/

namespace Hft

/-- `struct CostModel`. -/
structure CostModel where
  feesPaisePerShare : ℤ := 0
  taxesPaisePerShare : ℤ := 0
  slippageBufferPaise : ℤ := 0
  latencyBufferPaise : ℤ := 0
  hedgeRiskBufferPaise : ℤ := 0
  minNetEdgePaise : ℤ := 0
  deriving DecidableEq, Repr

namespace CostModel

/-- `validate`, with the text it stores in `reason`. -/
def validate (c : CostModel) : Bool × String :=
  if c.feesPaisePerShare ≤ 0 ∨ c.taxesPaisePerShare ≤ 0 then
    (false, "fees/taxes must be positive placeholders or verified values")
  else if c.minNetEdgePaise < 0 then (false, "min_net_edge_paise cannot be negative")
  else (true, "OK")

/-- `round_trip_paise`. -/
def roundTripPaise (c : CostModel) : ℤ := 2 * (c.feesPaisePerShare + c.taxesPaisePerShare)

/-- `buffers_paise`. -/
def buffersPaise (c : CostModel) : ℤ :=
  c.slippageBufferPaise + c.latencyBufferPaise + c.hedgeRiskBufferPaise

/-- `all_in_cost_paise`. -/
def allInCostPaise (c : CostModel) : ℤ := c.roundTripPaise + c.buffersPaise

end CostModel

/-- `struct StrategyConfig`. -/
structure StrategyConfig where
  minNetEdgePaise : ℤ := 5
  maxQty : ℤ := 100
  maxBookAgeUs : ℕ := 250
  minVisibleQty : ℤ := 1
  deriving DecidableEq, Repr

/-- `struct ArbOpportunity`. -/
structure ArbOpportunity where
  parentArbId : String := ""
  tsDecisionNs : ℕ := 0
  instrumentId : ℕ := 0
  buyVenue : Venue := .unknown
  sellVenue : Venue := .unknown
  buyPricePaise : ℤ := 0
  sellPricePaise : ℤ := 0
  grossSpreadPaise : ℤ := 0
  netEdgePaise : ℤ := 0
  qty : ℤ := 0
  reason : String := ""
  deriving DecidableEq, Repr

/-- `struct StrategyDecision`. -/
structure StrategyDecision where
  shouldTrade : Bool := false
  opportunity : ArbOpportunity := {}
  reason : String := ""
  bestGrossSpreadPaise : ℤ := 0
  bestNetEdgePaise : ℤ := 0
  deriving DecidableEq, Repr

/-- `make_no_trade`. -/
def makeNoTrade (reason : String) (gross net : ℤ) : StrategyDecision :=
  { reason := reason, bestGrossSpreadPaise := gross, bestNetEdgePaise := net }

/-- `try_direction`. -/
def tryDirection (cfg : StrategyConfig) (costs : CostModel) (nowNs instrumentId : ℕ)
    (buyVenue sellVenue : Venue) (buyPx buyQty sellPx sellQty : ℤ) : ArbOpportunity where
  tsDecisionNs := nowNs
  instrumentId := instrumentId
  buyVenue := buyVenue
  sellVenue := sellVenue
  buyPricePaise := buyPx
  sellPricePaise := sellPx
  grossSpreadPaise := sellPx - buyPx
  netEdgePaise := sellPx - buyPx - costs.allInCostPaise
  qty := min (min buyQty sellQty) cfg.maxQty
  reason := "NET_EDGE_POSITIVE"

/-- `ArbitrageStrategy::evaluate`. -/
def evaluate (cfg : StrategyConfig) (nse bse : BestQuote) (costs : CostModel) (nowNs : ℕ) :
    StrategyDecision :=
  if ¬ nse.valid ∨ ¬ bse.valid then makeNoTrade "INVALID_QUOTE" 0 0
  else if nse.instrumentId ≠ bse.instrumentId then makeNoTrade "INSTRUMENT_MISMATCH" 0 0
  else if nse.bookAgeUs > cfg.maxBookAgeUs ∨ bse.bookAgeUs > cfg.maxBookAgeUs then
    makeNoTrade "STALE_BOOK" 0 0
  else
    let a := tryDirection cfg costs nowNs nse.instrumentId .bse .nse
      bse.askPxPaise bse.askQty nse.bidPxPaise nse.bidQty
    let b := tryDirection cfg costs nowNs nse.instrumentId .nse .bse
      nse.askPxPaise nse.askQty bse.bidPxPaise bse.bidQty
    let best := if a.netEdgePaise ≥ b.netEdgePaise then a else b
    if best.qty < cfg.minVisibleQty then
      makeNoTrade "INSUFFICIENT_DEPTH" best.grossSpreadPaise best.netEdgePaise
    else if best.netEdgePaise < max cfg.minNetEdgePaise costs.minNetEdgePaise then
      makeNoTrade "EDGE_TOO_SMALL" best.grossSpreadPaise best.netEdgePaise
    else
      { shouldTrade := true
        opportunity := best
        reason := best.reason
        bestGrossSpreadPaise := best.grossSpreadPaise
        bestNetEdgePaise := best.netEdgePaise }

end Hft
