import HftArb.Hedge.Search

/-!
# The estimate of a hedge's loss

The policy compares an order with the average price of the residual's side, which the division rounds
down.  Buying back a short residual this can only raise the estimate.  Selling a long one it hides
the part of the average that was cut off, once for every share of the order; `neverUnderestimated_iff`
says when the limit still leaves room for that part.
-/

namespace Hft

namespace PairTrade

/-- The exact average price of the purchases. -/
def exactBuyPx (p : PairTrade) : ℚ := p.boughtNotionalPaise / p.boughtQty

/-- The exact average price of the sales. -/
def exactSellPx (p : PairTrade) : ℚ := p.soldNotionalPaise / p.soldQty

/-- What filling the whole order at its limit loses against the exact average price of the
residual's side; negative for a gain. -/
def exactLoss (p : PairTrade) (o : OrderIntent) : ℚ :=
  if p.residual > 0 then (p.exactBuyPx - o.pricePaise) * o.qty
  else (o.pricePaise - p.exactSellPx) * o.qty

/-- Nothing has been bought or sold yet. -/
structure Untraded (p : PairTrade) : Prop where
  bought : p.boughtQty = 0 ∧ p.boughtNotionalPaise = 0
  sold : p.soldQty = 0 ∧ p.soldNotionalPaise = 0

/-- Every share was traded at a positive price. -/
structure Priced (p : PairTrade) : Prop where
  bought : 0 ≤ p.boughtQty ∧ p.boughtQty ≤ p.boughtNotionalPaise
  sold : 0 ≤ p.soldQty ∧ p.soldQty ≤ p.soldNotionalPaise

variable {p : PairTrade} {f : Fill} {fills : List Fill}

theorem Untraded.priced (h : p.Untraded) : p.Priced := by
  obtain ⟨⟨hb, hbn⟩, hs, hsn⟩ := h
  constructor <;> omega

theorem Priced.applyFill (h : p.Priced) (hf : 0 < f.fillQty ∧ 0 < f.fillPxPaise) :
    (p.applyFill f).Priced := by
  obtain ⟨hb, hs⟩ := h
  have hnotional : f.fillQty ≤ f.fillQty * f.fillPxPaise :=
    le_mul_of_one_le_right hf.1.le hf.2
  constructor <;> unfold PairTrade.applyFill count <;> cases f.side <;> dsimp only <;> omega

theorem Priced.foldl (h : p.Priced) (hfills : ∀ f ∈ fills, 0 < f.fillQty ∧ 0 < f.fillPxPaise) :
    (fills.foldl PairTrade.applyFill p).Priced := by
  induction fills generalizing p with
  | nil => exact h
  | cons f fills ih =>
    rw [List.forall_mem_cons] at hfills
    exact ih (h.applyFill hfills.1) hfills.2

/-! ### Rounded averages -/

/-- What the rounded average leaves of what was paid. -/
theorem Priced.bought_eq (h : p.Priced) (hpos : 0 < p.boughtQty) : p.boughtNotionalPaise =
    p.avgBuyPx * p.boughtQty + p.boughtNotionalPaise % p.boughtQty := by
  have hnonneg : 0 ≤ p.boughtNotionalPaise := h.bought.1.trans h.bought.2
  rw [avgBuyPx, if_neg hpos.ne', Int.tdiv_eq_ediv_of_nonneg hnonneg]
  exact (Int.ediv_mul_add_emod _ _).symm

/-- The rounded average of the sales is positive, and not above the exact one. -/
theorem Priced.avgSellPx_le (h : p.Priced) (hpos : 0 < p.soldQty) :
    0 < p.avgSellPx ∧ (p.avgSellPx : ℚ) ≤ p.exactSellPx := by
  have hnonneg : 0 ≤ p.soldNotionalPaise := h.sold.1.trans h.sold.2
  have havg : p.avgSellPx = p.soldNotionalPaise / p.soldQty := by
    rw [avgSellPx, if_neg hpos.ne', Int.tdiv_eq_ediv_of_nonneg hnonneg]
  refine ⟨?_, ?_⟩
  · rw [havg]
    exact Int.le_ediv_of_mul_le hpos (by linarith [h.sold.2])
  · rw [exactSellPx, le_div_iff₀ (by exact_mod_cast hpos), havg]
    exact_mod_cast Int.ediv_mul_le _ hpos.ne'

/-! ### The estimate against the exact loss -/

variable {o : OrderIntent}

/-- Selling off a long residual: the limit has to leave room for what the average cut off. -/
theorem Priced.exactLoss_long (h : p.Priced) (hlong : 0 < p.residual) (limit : ℤ) :
    p.exactLoss o ≤ limit ↔ p.boughtNotionalPaise % p.boughtQty * o.qty ≤
      (limit - (p.avgBuyPx - o.pricePaise) * o.qty) * p.boughtQty := by
  have hres : p.residual = p.boughtQty - p.soldQty := rfl
  have hpos : 0 < p.boughtQty := by
    have := h.sold.1
    omega
  have hpos' : (0 : ℚ) < p.boughtQty := by exact_mod_cast hpos
  have hscaled : p.exactLoss o ≤ limit ↔
      (p.boughtNotionalPaise - o.pricePaise * p.boughtQty) * o.qty ≤ limit * p.boughtQty := by
    have hexact : p.exactLoss o = (p.boughtNotionalPaise - o.pricePaise * p.boughtQty) * o.qty /
        p.boughtQty := by
      rw [exactLoss, if_pos hlong, exactBuyPx]
      field_simp
    rw [hexact, div_le_iff₀ hpos']
    exact_mod_cast Iff.rfl
  have hsame : limit * p.boughtQty -
      (p.boughtNotionalPaise - o.pricePaise * p.boughtQty) * o.qty =
        (limit - (p.avgBuyPx - o.pricePaise) * o.qty) * p.boughtQty -
          p.boughtNotionalPaise % p.boughtQty * o.qty := by
    linear_combination (-o.qty) * h.bought_eq hpos
  rw [hscaled]
  omega

/-- Buying back a short residual loses no more than estimated. -/
theorem Priced.exactLoss_short (h : p.Priced) (hshort : p.residual < 0) (hqty : 0 < o.qty) :
    p.exactLoss o ≤ hedgeLoss p o := by
  have hres : p.residual = p.boughtQty - p.soldQty := rfl
  obtain ⟨hpos, havg⟩ := h.avgSellPx_le (by have := h.bought.1; omega)
  have hqty' : (0 : ℚ) ≤ o.qty := by exact_mod_cast hqty.le
  -- against the exact average the loss is smaller than against the rounded one
  have hgap : (o.pricePaise : ℚ) - p.exactSellPx ≤ max 0 ((o.pricePaise : ℚ) - p.avgSellPx) :=
    le_max_of_le_right (by linarith)
  rw [exactLoss, if_neg hshort.not_gt, hedgeLoss_short hshort hpos]
  push_cast
  exact mul_le_mul_of_nonneg_right hgap hqty'

end PairTrade

section Estimate

variable {cfg : RiskConfig} {p : PairTrade} {v : Venue} {q nse bse : BestQuote}

/-- What the policy sends loses at most the limit. -/
def NeverUnderestimated (cfg : RiskConfig) (p : PairTrade) (nse bse : BestQuote) : Prop :=
  (nextOrder cfg p nse bse).shouldSend = true →
    p.exactLoss (nextOrder cfg p nse bse).intent ≤ cfg.maxHedgeLossPaise

/-- Selling at the quote, what the division cuts off the average price, taken for every share of the
order, fits into what the limit leaves above the loss at the rounded average. -/
def RoundingFits (cfg : RiskConfig) (p : PairTrade) (q : BestQuote) : Prop :=
  p.boughtNotionalPaise % p.boughtQty * (hedgeIntent cfg p .unknown q).qty ≤
    (cfg.maxHedgeLossPaise - (p.avgBuyPx - (hedgeIntent cfg p .unknown q).pricePaise) *
      (hedgeIntent cfg p .unknown q).qty) * p.boughtQty

/-- What is sent is the affordable hedge of the venue asked. -/
theorem nextOrder_asked (h : (nextOrder cfg p nse bse).shouldSend = true) :
    ∃ v, Asked cfg p nse bse v ∧ Affordable cfg p (quoteFor nse bse v) ∧
      (nextOrder cfg p nse bse).intent = hedgeIntent cfg p v (quoteFor nse bse v) := by
  obtain ⟨hres, hatt, -⟩ := nextOrder_send h
  by_cases hasked : ∃ v, Asked cfg p nse bse v
  · obtain ⟨v, hv⟩ := hasked
    rw [nextOrder_of_asked hres hatt hv] at h ⊢
    refine ⟨v, hv, ?_, (candidateForVenue_send h).1⟩
    by_contra hdear
    rw [(candidateForVenue_dear hv.1 hdear).1] at h
    cases h
  · rw [(nextOrder_of_none hres hatt fun v hv => hasked ⟨v, hv⟩).1] at h
    cases h

/-- **When the estimate is no underestimate.**  For a pair built from fills of positive quantity and
price, what the policy sends loses at most the limit exactly when the residual is not long, or no
order is sent, or the rounding fits at the venue asked. -/
theorem neverUnderestimated_iff {p₀ : PairTrade} (h₀ : p₀.Untraded) {fills : List Fill}
    (hfills : ∀ f ∈ fills, 0 < f.fillQty ∧ 0 < f.fillPxPaise)
    (hforce : cfg.forceFlattenOnMaxLoss = false) (hp : p = fills.foldl PairTrade.applyFill p₀) :
    NeverUnderestimated cfg p nse bse ↔
      (0 < p.residual → p.hedgeAttempts < cfg.maxHedgeAttempts → ∀ v, Asked cfg p nse bse v →
        Affordable cfg p (quoteFor nse bse v) → RoundingFits cfg p (quoteFor nse bse v)) := by
  have hpriced : p.Priced := hp ▸ h₀.priced.foldl hfills
  constructor
  · intro h hlong hatt v hv hafford
    obtain ⟨hsend, -, hintent⟩ := @candidateForVenue_offer cfg p v _ ⟨hv.1, hafford⟩
    rw [NeverUnderestimated, nextOrder_of_asked hlong.ne' hatt hv, hintent] at h
    exact (hpriced.exactLoss_long hlong _).1 (h hsend)
  · intro h hsend
    obtain ⟨hres, hatt, -⟩ := nextOrder_send hsend
    obtain ⟨v, hv, hafford, hintent⟩ := nextOrder_asked hsend
    rw [hintent]
    rcases lt_or_gt_of_ne hres with hshort | hlong
    · refine (hpriced.exactLoss_short hshort hv.1.2.2).trans ?_
      have hle := hafford.resolve_right (by rw [hforce]; decide)
      exact_mod_cast hle
    · exact (hpriced.exactLoss_long hlong _).2 (h hlong hatt v hv hafford)

end Estimate

/-! ### A long residual bought at two prices -/

/-- Fifty shares bought at this price. -/
def boughtFifty (px : ℤ) : Fill :=
  { parentArbId := "P", clientOrderId := "B", instrumentId := 1, venue := .bse, side := .buy,
    fillPxPaise := px, fillQty := 50, tsFillNs := 0 }

/-- A pair that is to buy at BSE and sell at NSE. -/
def untradedPair : PairTrade :=
  { instrumentId := 1, intendedBuyVenue := .bse, intendedSellVenue := .nse }

/-- A hundred bought in two fills, for a sale that failed. -/
def boughtTwice (px px' : ℤ) : PairTrade :=
  [boughtFifty px, boughtFifty px'].foldl PairTrade.applyFill untradedPair

/-- Bought at 100 and at 101 the average is 100.5, and the policy reckons with 100: selling the
hundred at 80 loses 2050, and the limit is 2000. -/
theorem not_neverUnderestimated_twoPrices :
    (nextOrder {} (boughtTwice 100 101) (bidQuote .nse 80) (bidQuote .bse 80)).shouldSend = true ∧
      (boughtTwice 100 101).exactLoss
        (nextOrder {} (boughtTwice 100 101) (bidQuote .nse 80) (bidQuote .bse 80)).intent = 2050 ∧
      ¬ NeverUnderestimated {} (boughtTwice 100 101) (bidQuote .nse 80) (bidQuote .bse 80) := by
  have hsend : (nextOrder {} (boughtTwice 100 101) (bidQuote .nse 80)
      (bidQuote .bse 80)).shouldSend = true := by decide
  have hloss : (boughtTwice 100 101).exactLoss (nextOrder {} (boughtTwice 100 101)
      (bidQuote .nse 80) (bidQuote .bse 80)).intent = 2050 := by decide +kernel
  refine ⟨hsend, hloss, fun h => ?_⟩
  have hle := h hsend
  rw [hloss] at hle
  exact absurd hle (by decide +kernel)

/-- Bought at one price nothing is cut off. -/
theorem neverUnderestimated_onePrice :
    NeverUnderestimated {} (boughtTwice 100 100) (bidQuote .nse 80) (bidQuote .bse 80) := by
  have huntraded : untradedPair.Untraded := ⟨⟨rfl, rfl⟩, rfl, rfl⟩
  have hfills : ∀ f ∈ [boughtFifty 100, boughtFifty 100], 0 < f.fillQty ∧ 0 < f.fillPxPaise := by
    decide
  refine (neverUnderestimated_iff huntraded hfills rfl rfl).2 ?_
  rintro - - v hv -
  unfold RoundingFits
  cases v <;> decide

end Hft
