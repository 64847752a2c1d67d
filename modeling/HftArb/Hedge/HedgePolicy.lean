import HftArb.Risk.RiskEngine
import HftArb.Strategy.Arbitrage

/-!
# `hedge`: pair trades and the hedge policy

A `PairTrade` counts what both legs and all hedges have bought and sold; its residual is what is
left to hedge.  The policy proposes one IOC order at a time.
-/

namespace Hft

/-- `enum class PairState`. -/
inductive PairState
  | planned
  | sentLegA
  | sentLegB
  | partialA
  | partialB
  | hedging
  | flat
  | errorRecovery
  | killSwitch
  deriving DecidableEq, Repr

/-- `to_string(PairState)`. -/
def PairState.text : PairState → String
  | .planned => "PLANNED"
  | .sentLegA => "SENT_LEG_A"
  | .sentLegB => "SENT_LEG_B"
  | .partialA => "PARTIAL_A"
  | .partialB => "PARTIAL_B"
  | .hedging => "HEDGING"
  | .flat => "FLAT"
  | .errorRecovery => "ERROR_RECOVERY"
  | .killSwitch => "KILL_SWITCH"

/-- `struct PairTrade`. -/
structure PairTrade where
  parentId : String := ""
  instrumentId : ℕ := 0
  intendedBuyVenue : Venue := .unknown
  intendedSellVenue : Venue := .unknown
  intendedQty : ℤ := 0
  boughtQty : ℤ := 0
  soldQty : ℤ := 0
  boughtNotionalPaise : ℤ := 0
  soldNotionalPaise : ℤ := 0
  hedgeAttempts : ℤ := 0
  tsCreatedNs : ℕ := 0
  tsLastUpdateNs : ℕ := 0
  state : PairState := .planned
  lastError : String := ""
  deriving DecidableEq, Repr

namespace PairTrade

/-- `from_opportunity`. -/
def fromOpportunity (o : ArbOpportunity) : PairTrade where
  parentId := o.parentArbId
  instrumentId := o.instrumentId
  intendedBuyVenue := o.buyVenue
  intendedSellVenue := o.sellVenue
  intendedQty := o.qty
  tsCreatedNs := o.tsDecisionNs
  tsLastUpdateNs := o.tsDecisionNs

/-- `residual`. -/
def residual (p : PairTrade) : ℤ := p.boughtQty - p.soldQty

/-- `avg_buy_px`.  Integer division in C++ rounds towards zero. -/
def avgBuyPx (p : PairTrade) : ℤ :=
  if p.boughtQty = 0 then 0 else p.boughtNotionalPaise.tdiv p.boughtQty

/-- `avg_sell_px`. -/
def avgSellPx (p : PairTrade) : ℤ :=
  if p.soldQty = 0 then 0 else p.soldNotionalPaise.tdiv p.soldQty

/-- The quantities and notionals after a fill. -/
def count (p : PairTrade) (f : Fill) : PairTrade :=
  match f.side with
  | .buy =>
      { p with
        boughtQty := p.boughtQty + f.fillQty
        boughtNotionalPaise := p.boughtNotionalPaise + f.fillQty * f.fillPxPaise }
  | .sell =>
      { p with
        soldQty := p.soldQty + f.fillQty
        soldNotionalPaise := p.soldNotionalPaise + f.fillQty * f.fillPxPaise }
  | .unknown => p

/-- `apply_fill`. -/
def applyFill (p : PairTrade) (f : Fill) : PairTrade :=
  let p := { p with tsLastUpdateNs := f.tsFillNs }.count f
  { p with
    state := if p.residual = 0 ∧ (p.boughtQty > 0 ∨ p.soldQty > 0) then .flat else .hedging }

/-- `mark_leg_failed`. -/
def markLegFailed (p : PairTrade) (reason : String) (tsNs : ℕ) : PairTrade :=
  { p with
    lastError := reason
    tsLastUpdateNs := tsNs
    state := if p.residual = 0 then .flat else .hedging }

end PairTrade

/-- `struct HedgeDecision`. -/
structure HedgeDecision where
  shouldSend : Bool := false
  kill : Bool := false
  intent : OrderIntent := {}
  reason : String := ""
  estimatedLossPaise : ℤ := 0
  deriving DecidableEq, Repr

/-- The order `candidate_for_venue` builds, before it looks at quantity and loss. -/
def hedgeIntent (cfg : RiskConfig) (p : PairTrade) (v : Venue) (q : BestQuote) : OrderIntent where
  parentArbId := p.parentId
  instrumentId := p.instrumentId
  venue := v
  side := if p.residual > 0 then .sell else .buy
  role := .hedge
  pricePaise := if p.residual > 0 then q.bidPxPaise else q.askPxPaise
  qty :=
    if p.residual > 0 then min (min p.residual q.bidQty) cfg.maxOrderQty
    else min (min (-p.residual) q.askQty) cfg.maxOrderQty

/-- The loss `candidate_for_venue` estimates for that order. -/
def hedgeLoss (p : PairTrade) (intent : OrderIntent) : ℤ :=
  if p.residual > 0 then
    if p.avgBuyPx > intent.pricePaise then (p.avgBuyPx - intent.pricePaise) * intent.qty else 0
  else if p.avgSellPx > 0 ∧ intent.pricePaise > p.avgSellPx then
    (intent.pricePaise - p.avgSellPx) * intent.qty
  else 0

/-- `candidate_for_venue`. -/
def candidateForVenue (cfg : RiskConfig) (p : PairTrade) (v : Venue) (q : BestQuote) :
    HedgeDecision :=
  if ¬ q.valid then { reason := "INVALID_HEDGE_QUOTE" }
  else if q.bookAgeUs > cfg.maxBookAgeUs then { reason := "STALE_HEDGE_QUOTE" }
  else
    let intent := hedgeIntent cfg p v q
    let loss := hedgeLoss p intent
    if intent.qty ≤ 0 then { reason := "NO_HEDGE_DEPTH" }
    else if loss > cfg.maxHedgeLossPaise ∧ ¬ cfg.forceFlattenOnMaxLoss then
      { kill := true, reason := "MAX_HEDGE_LOSS", estimatedLossPaise := loss }
    else
      { shouldSend := true, intent := intent, reason := "HEDGE_ORDER", estimatedLossPaise := loss }

/-- The quote of a venue, as `next_order` and the simulator pick it. -/
def quoteFor (nse bse : BestQuote) (v : Venue) : BestQuote := if v = .nse then nse else bse

/-- `next_order`. -/
def nextOrder (cfg : RiskConfig) (p : PairTrade) (nse bse : BestQuote) : HedgeDecision :=
  if p.residual = 0 then { reason := "ALREADY_FLAT" }
  else if p.hedgeAttempts ≥ cfg.maxHedgeAttempts then
    { kill := true, reason := "MAX_HEDGE_ATTEMPTS" }
  else
    let preferred := if p.residual > 0 then p.intendedSellVenue else p.intendedBuyVenue
    let fallback := otherVenue preferred
    let d1 := candidateForVenue cfg p preferred (quoteFor nse bse preferred)
    if d1.shouldSend ∨ d1.kill then d1
    else
      let d2 := candidateForVenue cfg p fallback (quoteFor nse bse fallback)
      if d2.shouldSend ∨ d2.kill then d2
      else { kill := true, reason := "NO_SAFE_HEDGE_QUOTE" }

/-! ### What the policy sends -/

section Policy

variable {cfg : RiskConfig} {p : PairTrade} {v : Venue} {q nse bse : BestQuote}

/-- The estimate for selling off a long residual: what the limit falls short of the average. -/
theorem hedgeLoss_long (hlong : 0 < p.residual) (intent : OrderIntent) :
    hedgeLoss p intent = max 0 (p.avgBuyPx - intent.pricePaise) * intent.qty := by
  rw [hedgeLoss, if_pos hlong]
  split_ifs with hworse
  · rw [max_eq_right (by omega)]
  · rw [max_eq_left (by omega), zero_mul]

/-- The estimate for buying back a short one: what the limit exceeds the average by. -/
theorem hedgeLoss_short (hshort : p.residual < 0) (havg : 0 < p.avgSellPx) (intent : OrderIntent) :
    hedgeLoss p intent = max 0 (intent.pricePaise - p.avgSellPx) * intent.qty := by
  rw [hedgeLoss, if_neg hshort.not_gt]
  split_ifs with hworse
  · rw [max_eq_right (by omega)]
  · rw [max_eq_left (by omega), zero_mul]

/-- A candidate that is sent is the venue's hedge order, at a valid and fresh quote. -/
theorem candidateForVenue_send (h : (candidateForVenue cfg p v q).shouldSend = true) :
    (candidateForVenue cfg p v q).intent = hedgeIntent cfg p v q ∧ q.valid = true ∧
      q.bookAgeUs ≤ cfg.maxBookAgeUs ∧ 0 < (hedgeIntent cfg p v q).qty := by
  unfold candidateForVenue at h ⊢
  dsimp only at h ⊢
  split_ifs at h ⊢ with hvalid hage hqty hloss
  exact ⟨rfl, by simpa using hvalid, by omega, by omega⟩

/-- The policy orders no more than the residual, nor than one order may have. -/
theorem hedgeIntent_qty_le (cfg : RiskConfig) (p : PairTrade) (v : Venue) (q : BestQuote) :
    (hedgeIntent cfg p v q).qty ≤ min |p.residual| cfg.maxOrderQty := by
  unfold hedgeIntent
  dsimp only
  split_ifs with hlong
  · rw [abs_of_pos hlong]
    exact min_le_min (min_le_left _ _) le_rfl
  · rw [abs_of_nonpos (not_lt.1 hlong)]
    exact min_le_min (min_le_left _ _) le_rfl

/-- Unless it has to flatten at any price, a candidate that is sent keeps within the loss limit. -/
theorem candidateForVenue_loss (h : (candidateForVenue cfg p v q).shouldSend = true)
    (hforce : cfg.forceFlattenOnMaxLoss = false) :
    hedgeLoss p (hedgeIntent cfg p v q) ≤ cfg.maxHedgeLossPaise := by
  unfold candidateForVenue at h
  dsimp only at h
  split_ifs at h with hvalid hage hqty hloss
  by_contra hgt
  exact hloss ⟨not_le.1 hgt, by simp [hforce]⟩

/-- What `next_order` sends is a candidate of one of the venues, with attempts left. -/
theorem nextOrder_send (h : (nextOrder cfg p nse bse).shouldSend = true) :
    p.residual ≠ 0 ∧ p.hedgeAttempts < cfg.maxHedgeAttempts ∧ ∃ v,
      nextOrder cfg p nse bse = candidateForVenue cfg p v (quoteFor nse bse v) := by
  unfold nextOrder at h ⊢
  generalize (if p.residual > 0 then p.intendedSellVenue else p.intendedBuyVenue) = preferred at h ⊢
  by_cases hflat : p.residual = 0
  · rw [if_pos hflat] at h
    cases h
  by_cases hmax : p.hedgeAttempts ≥ cfg.maxHedgeAttempts
  · rw [if_neg hflat, if_pos hmax] at h
    cases h
  rw [if_neg hflat, if_neg hmax] at h ⊢
  refine ⟨hflat, by omega, ?_⟩
  dsimp only at h ⊢
  split_ifs at h ⊢
  · exact ⟨preferred, rfl⟩
  · exact ⟨otherVenue preferred, rfl⟩

/-- A verdict to kill sends nothing. -/
theorem nextOrder_kill (h : (nextOrder cfg p nse bse).kill = true) :
    (nextOrder cfg p nse bse).shouldSend = false := by
  by_contra hsend
  rw [Bool.not_eq_false] at hsend
  obtain ⟨-, -, v, heq⟩ := nextOrder_send hsend
  rw [heq] at h hsend
  unfold candidateForVenue at h hsend
  dsimp only at h hsend
  split_ifs at h hsend

/-- Out of attempts the verdict is to kill, whatever the quotes. -/
theorem nextOrder_maxAttempts (hres : p.residual ≠ 0)
    (hmax : cfg.maxHedgeAttempts ≤ p.hedgeAttempts) (nse bse : BestQuote) :
    (nextOrder cfg p nse bse).kill = true ∧
      (nextOrder cfg p nse bse).reason = "MAX_HEDGE_ATTEMPTS" := by
  unfold nextOrder
  rw [if_neg hres, if_pos hmax]
  exact ⟨rfl, rfl⟩

end Policy

end Hft
