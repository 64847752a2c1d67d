import HftArb.Strategy.Arbitrage

/-!
# The arbitrage signal

`evaluate` compares the two directions by net edge and looks at the depth of the better one only
(`evaluate_trades`).  A better direction without depth therefore hides the other one:
`signalExact_iff` says when that loses a trade.  Both directions have an edge only in books that are
crossed, or against costs below the negative of the threshold (`signalExact_of_uncrossed`).

What a trade earns before fees is bounded by the costs and the threshold together.  The cost model
validates neither buffers nor their sum, so `neverAtLoss_iff` has to ask for it.
-/

namespace Hft

section Signal

variable {cfg : StrategyConfig} {costs : CostModel} {nse bse : BestQuote} {nowNs : ℕ}

/-- Buy at BSE and sell at NSE. -/
def sellNse (cfg : StrategyConfig) (costs : CostModel) (nse bse : BestQuote) (nowNs : ℕ) :
    ArbOpportunity :=
  tryDirection cfg costs nowNs nse.instrumentId .bse .nse bse.askPxPaise bse.askQty
    nse.bidPxPaise nse.bidQty

/-- Buy at NSE and sell at BSE. -/
def sellBse (cfg : StrategyConfig) (costs : CostModel) (nse bse : BestQuote) (nowNs : ℕ) :
    ArbOpportunity :=
  tryDirection cfg costs nowNs nse.instrumentId .nse .bse nse.askPxPaise nse.askQty
    bse.bidPxPaise bse.bidQty

/-- The direction that `evaluate` goes on with. -/
def bestDirection (cfg : StrategyConfig) (costs : CostModel) (nse bse : BestQuote) (nowNs : ℕ) :
    ArbOpportunity :=
  if (sellNse cfg costs nse bse nowNs).netEdgePaise ≥ (sellBse cfg costs nse bse nowNs).netEdgePaise
  then sellNse cfg costs nse bse nowNs
  else sellBse cfg costs nse bse nowNs

/-- Valid quotes of one instrument, neither of them too old. -/
structure Eligible (cfg : StrategyConfig) (nse bse : BestQuote) : Prop where
  valid : nse.valid = true ∧ bse.valid = true
  instrument : nse.instrumentId = bse.instrumentId
  fresh : nse.bookAgeUs ≤ cfg.maxBookAgeUs ∧ bse.bookAgeUs ≤ cfg.maxBookAgeUs

/-- The direction has the depth and the edge. -/
def Qualifies (cfg : StrategyConfig) (costs : CostModel) (o : ArbOpportunity) : Prop :=
  cfg.minVisibleQty ≤ o.qty ∧ max cfg.minNetEdgePaise costs.minNetEdgePaise ≤ o.netEdgePaise

/-- `evaluate` trades exactly when one of the directions qualifies, and then one that qualifies
with the largest net edge. -/
structure SignalExact (cfg : StrategyConfig) (costs : CostModel) (nse bse : BestQuote)
    (nowNs : ℕ) : Prop where
  trades : (evaluate cfg nse bse costs nowNs).shouldTrade = true ↔
    Qualifies cfg costs (sellNse cfg costs nse bse nowNs) ∨
      Qualifies cfg costs (sellBse cfg costs nse bse nowNs)
  best : (evaluate cfg nse bse costs nowNs).shouldTrade = true →
    ((evaluate cfg nse bse costs nowNs).opportunity = sellNse cfg costs nse bse nowNs ∨
      (evaluate cfg nse bse costs nowNs).opportunity = sellBse cfg costs nse bse nowNs) ∧
    Qualifies cfg costs (evaluate cfg nse bse costs nowNs).opportunity ∧
    ∀ o, o = sellNse cfg costs nse bse nowNs ∨ o = sellBse cfg costs nse bse nowNs →
      Qualifies cfg costs o →
        o.netEdgePaise ≤ (evaluate cfg nse bse costs nowNs).opportunity.netEdgePaise

/-! ### What `evaluate` decides -/

theorem eligible_of_trade (h : (evaluate cfg nse bse costs nowNs).shouldTrade = true) :
    Eligible cfg nse bse := by
  unfold evaluate at h
  by_cases hvalid : ¬ nse.valid ∨ ¬ bse.valid
  · rw [if_pos hvalid] at h
    cases h
  by_cases hinst : nse.instrumentId ≠ bse.instrumentId
  · rw [if_neg hvalid, if_pos hinst] at h
    cases h
  by_cases hage : nse.bookAgeUs > cfg.maxBookAgeUs ∨ bse.bookAgeUs > cfg.maxBookAgeUs
  · rw [if_neg hvalid, if_neg hinst, if_pos hage] at h
    cases h
  exact ⟨by simpa using hvalid, not_not.1 hinst, by omega⟩

theorem evaluate_eq (h : Eligible cfg nse bse) (costs : CostModel) (nowNs : ℕ) :
    evaluate cfg nse bse costs nowNs =
      let best := bestDirection cfg costs nse bse nowNs
      if best.qty < cfg.minVisibleQty then
        makeNoTrade "INSUFFICIENT_DEPTH" best.grossSpreadPaise best.netEdgePaise
      else if best.netEdgePaise < max cfg.minNetEdgePaise costs.minNetEdgePaise then
        makeNoTrade "EDGE_TOO_SMALL" best.grossSpreadPaise best.netEdgePaise
      else
        { shouldTrade := true
          opportunity := best
          reason := best.reason
          bestGrossSpreadPaise := best.grossSpreadPaise
          bestNetEdgePaise := best.netEdgePaise } := by
  have hvalid : ¬ (¬ nse.valid = true ∨ ¬ bse.valid = true) := by simpa using h.valid
  have hage : ¬ (nse.bookAgeUs > cfg.maxBookAgeUs ∨ bse.bookAgeUs > cfg.maxBookAgeUs) := by
    have := h.fresh
    omega
  unfold evaluate
  rw [if_neg hvalid, if_neg (not_not.2 h.instrument), if_neg hage]
  rfl

/-- The verdict is about the better direction. -/
theorem evaluate_trades (h : Eligible cfg nse bse) :
    ((evaluate cfg nse bse costs nowNs).shouldTrade = true ↔
        Qualifies cfg costs (bestDirection cfg costs nse bse nowNs)) ∧
      ((evaluate cfg nse bse costs nowNs).shouldTrade = true →
        (evaluate cfg nse bse costs nowNs).opportunity = bestDirection cfg costs nse bse nowNs) := by
  rw [evaluate_eq h]
  dsimp only
  unfold Qualifies
  by_cases hqty : (bestDirection cfg costs nse bse nowNs).qty < cfg.minVisibleQty
  · rw [if_pos hqty]
    exact ⟨⟨fun ht => Bool.noConfusion ht, fun hq => absurd hqty (not_lt.2 hq.1)⟩,
      fun ht => Bool.noConfusion ht⟩
  by_cases hedge : (bestDirection cfg costs nse bse nowNs).netEdgePaise <
      max cfg.minNetEdgePaise costs.minNetEdgePaise
  · rw [if_neg hqty, if_pos hedge]
    exact ⟨⟨fun ht => Bool.noConfusion ht, fun hq => absurd hedge (not_lt.2 hq.2)⟩,
      fun ht => Bool.noConfusion ht⟩
  rw [if_neg hqty, if_neg hedge]
  exact ⟨⟨fun _ => ⟨not_lt.1 hqty, not_lt.1 hedge⟩, fun _ => rfl⟩, fun _ => rfl⟩

/-- Neither direction has a larger edge than the better one. -/
theorem bestDirection_cases (cfg : StrategyConfig) (costs : CostModel) (nse bse : BestQuote)
    (nowNs : ℕ) :
    ((sellBse cfg costs nse bse nowNs).netEdgePaise ≤
          (sellNse cfg costs nse bse nowNs).netEdgePaise ∧
        bestDirection cfg costs nse bse nowNs = sellNse cfg costs nse bse nowNs) ∨
      ((sellNse cfg costs nse bse nowNs).netEdgePaise <
          (sellBse cfg costs nse bse nowNs).netEdgePaise ∧
        bestDirection cfg costs nse bse nowNs = sellBse cfg costs nse bse nowNs) := by
  unfold bestDirection
  split_ifs with h
  · exact Or.inl ⟨h, rfl⟩
  · exact Or.inr ⟨not_le.1 h, rfl⟩

/-! ### Completeness -/

/-- The direction with the larger edge, the sale at NSE if they are equal, has the depth, or the
other one does not qualify. -/
def BetterHasDepth (cfg : StrategyConfig) (costs : CostModel) (nse bse : BestQuote) (nowNs : ℕ) :
    Prop :=
  if (sellBse cfg costs nse bse nowNs).netEdgePaise ≤ (sellNse cfg costs nse bse nowNs).netEdgePaise
  then cfg.minVisibleQty ≤ (sellNse cfg costs nse bse nowNs).qty ∨
    ¬ Qualifies cfg costs (sellBse cfg costs nse bse nowNs)
  else cfg.minVisibleQty ≤ (sellBse cfg costs nse bse nowNs).qty ∨
    ¬ Qualifies cfg costs (sellNse cfg costs nse bse nowNs)

/-- Choosing `o` over `o'`: it is exact unless `o` lacks the depth and `o'` qualifies. -/
theorem qualifies_or_iff {o o' : ArbOpportunity} (hle : o'.netEdgePaise ≤ o.netEdgePaise) :
    (Qualifies cfg costs o ↔ Qualifies cfg costs o ∨ Qualifies cfg costs o') ↔
      cfg.minVisibleQty ≤ o.qty ∨ ¬ Qualifies cfg costs o' := by
  constructor
  · intro h
    by_cases ho' : Qualifies cfg costs o'
    · exact Or.inl (h.2 (Or.inr ho')).1
    · exact Or.inr ho'
  · intro h
    refine ⟨Or.inl, ?_⟩
    rintro (ho | ho')
    · exact ho
    · exact ⟨h.resolve_right (not_not.2 ho'), ho'.2.trans hle⟩

/-- The trade that is found is never the problem: the signal is exact if one is found whenever a
direction qualifies. -/
theorem signalExact_iff_best (h : Eligible cfg nse bse) : SignalExact cfg costs nse bse nowNs ↔
    (Qualifies cfg costs (bestDirection cfg costs nse bse nowNs) ↔
      Qualifies cfg costs (sellNse cfg costs nse bse nowNs) ∨
        Qualifies cfg costs (sellBse cfg costs nse bse nowNs)) := by
  obtain ⟨htrades, hopp⟩ := @evaluate_trades cfg costs nse bse nowNs h
  refine ⟨fun hs => htrades.symm.trans hs.trades, fun hq => ⟨htrades.trans hq, fun ht => ?_⟩⟩
  rw [hopp ht]
  rcases bestDirection_cases cfg costs nse bse nowNs with ⟨hle, heq⟩ | ⟨hlt, heq⟩
  · refine ⟨Or.inl heq, htrades.1 ht, ?_⟩
    rintro o (rfl | rfl) -
    · rw [heq]
    · rw [heq]
      exact hle
  · refine ⟨Or.inr heq, htrades.1 ht, ?_⟩
    rintro o (rfl | rfl) -
    · rw [heq]
      exact hlt.le
    · rw [heq]

/-- **When the signal is complete.**  For valid and fresh quotes of one instrument `evaluate` finds
a trade whenever there is one, and the best there is, exactly when the direction with the larger
edge has the depth or the other one does not qualify. -/
theorem signalExact_iff (h : Eligible cfg nse bse) :
    SignalExact cfg costs nse bse nowNs ↔ BetterHasDepth cfg costs nse bse nowNs := by
  rw [signalExact_iff_best h, BetterHasDepth]
  rcases bestDirection_cases cfg costs nse bse nowNs with ⟨hle, heq⟩ | ⟨hlt, heq⟩
  · rw [if_pos hle, heq, qualifies_or_iff hle]
  · rw [if_neg (not_le.2 hlt), heq, or_comm (a := Qualifies cfg costs (sellNse _ _ _ _ _)),
      qualifies_or_iff hlt.le]

/-- In books that are not crossed, with costs and threshold that are positive together, at most one
direction qualifies and the signal is complete. -/
theorem signalExact_of_uncrossed (h : Eligible cfg nse bse) (hnse : nse.bidPxPaise ≤ nse.askPxPaise)
    (hbse : bse.bidPxPaise ≤ bse.askPxPaise)
    (hcost : 0 < costs.allInCostPaise + max cfg.minNetEdgePaise costs.minNetEdgePaise) :
    SignalExact cfg costs nse bse nowNs := by
  -- the two edges add up to less than twice the threshold
  have hsum : (sellNse cfg costs nse bse nowNs).netEdgePaise +
      (sellBse cfg costs nse bse nowNs).netEdgePaise <
        2 * max cfg.minNetEdgePaise costs.minNetEdgePaise := by
    simp only [sellNse, sellBse, tryDirection]
    omega
  rw [signalExact_iff_best h]
  rcases bestDirection_cases cfg costs nse bse nowNs with ⟨hle, heq⟩ | ⟨hlt, heq⟩
  · have hother : ¬ Qualifies cfg costs (sellBse cfg costs nse bse nowNs) := fun hq => by
      have hedge := hq.2
      omega
    rw [heq, or_iff_left hother]
  · have hother : ¬ Qualifies cfg costs (sellNse cfg costs nse bse nowNs) := fun hq => by
      have hedge := hq.2
      omega
    rw [heq, or_iff_right hother]

/-- Costs of thirty paise, and a threshold of five. -/
def thirtyPaise : CostModel :=
  { feesPaisePerShare := 5, taxesPaisePerShare := 5, slippageBufferPaise := 5,
    hedgeRiskBufferPaise := 5, minNetEdgePaise := 5 }

/-- A crossed NSE book, with few shares at its bid. -/
def crossedNse : BestQuote := ⟨.nse, 1, 110300, 5, 110000, 100, 0⟩

/-- A BSE book within the NSE book. -/
def innerBse : BestQuote := ⟨.bse, 1, 110100, 100, 110110, 100, 0⟩

/-- Selling at NSE has the larger edge but not the depth of ten, so that nothing is traded although
a hundred could be bought at NSE and sold at BSE. -/
theorem not_signalExact_crossed :
    Eligible { minVisibleQty := 10 } crossedNse innerBse ∧
      ¬ SignalExact { minVisibleQty := 10 } thirtyPaise crossedNse innerBse 0 := by
  refine ⟨⟨⟨by decide, by decide⟩, by decide, by decide, by decide⟩, fun h => ?_⟩
  have hqualifies : Qualifies { minVisibleQty := 10 } thirtyPaise
      (sellBse { minVisibleQty := 10 } thirtyPaise crossedNse innerBse 0) :=
    ⟨by decide, by decide⟩
  exact absurd (h.trades.2 (Or.inr hqualifies)) (by decide)

/-- A depth of five is enough. -/
theorem signalExact_crossed :
    SignalExact { minVisibleQty := 5 } thirtyPaise crossedNse innerBse 0 := by
  refine (signalExact_iff ⟨⟨by decide, by decide⟩, by decide, by decide, by decide⟩).2 ?_
  rw [BetterHasDepth, if_pos (by decide)]
  exact Or.inl (by decide)

/-! ### Trading at a loss -/

/-- Whatever is traded sells above the buy price by at least the fees and taxes of both legs. -/
def NeverAtLoss (costs : CostModel) (cfg : StrategyConfig) : Prop :=
  ∀ nse bse nowNs, (evaluate cfg nse bse costs nowNs).shouldTrade = true →
    (evaluate cfg nse bse costs nowNs).opportunity.buyPricePaise <
        (evaluate cfg nse bse costs nowNs).opportunity.sellPricePaise ∧
      costs.roundTripPaise ≤ (evaluate cfg nse bse costs nowNs).opportunity.sellPricePaise -
        (evaluate cfg nse bse costs nowNs).opportunity.buyPricePaise

/-- What `validate` accepts. -/
theorem validate_iff : costs.validate.1 = true ↔ 0 < costs.feesPaisePerShare ∧
    0 < costs.taxesPaisePerShare ∧ 0 ≤ costs.minNetEdgePaise := by
  unfold CostModel.validate
  by_cases hfees : costs.feesPaisePerShare ≤ 0 ∨ costs.taxesPaisePerShare ≤ 0
  · rw [if_pos hfees]
    simp only [Bool.false_eq_true, false_iff]
    omega
  by_cases hedge : costs.minNetEdgePaise < 0
  · rw [if_neg hfees, if_pos hedge]
    simp only [Bool.false_eq_true, false_iff]
    omega
  rw [if_neg hfees, if_neg hedge]
  simp only [true_iff]
  omega

/-- The prices of a direction differ by its edge and the costs, and its depth is limited. -/
theorem bestDirection_spread (cfg : StrategyConfig) (costs : CostModel) (nse bse : BestQuote)
    (nowNs : ℕ) :
    (bestDirection cfg costs nse bse nowNs).sellPricePaise -
          (bestDirection cfg costs nse bse nowNs).buyPricePaise =
        (bestDirection cfg costs nse bse nowNs).netEdgePaise + costs.allInCostPaise ∧
      (bestDirection cfg costs nse bse nowNs).qty ≤ cfg.maxQty := by
  rcases bestDirection_cases cfg costs nse bse nowNs with ⟨-, heq⟩ | ⟨-, heq⟩
  · rw [heq]
    simp only [sellNse, tryDirection]
    omega
  · rw [heq]
    simp only [sellBse, tryDirection]
    omega

/-- Quotes at which selling at NSE earns this spread, and selling at BSE no more. -/
def spreadQuotes (spread qty : ℤ) : BestQuote × BestQuote :=
  (⟨.nse, 1, 2 + |spread| + spread, qty, 3 + 2 * |spread|, qty, 0⟩,
    ⟨.bse, 1, 1, qty, 2 + |spread|, qty, 0⟩)

/-- A spread that leaves just the threshold is traded. -/
theorem evaluate_spreadQuotes {spread : ℤ} (hqty : cfg.minVisibleQty ≤ cfg.maxQty)
    (hedge : max cfg.minNetEdgePaise costs.minNetEdgePaise ≤ spread - costs.allInCostPaise) :
    let quotes := spreadQuotes spread (max 1 cfg.minVisibleQty)
    (evaluate cfg quotes.1 quotes.2 costs nowNs).shouldTrade = true ∧
      (evaluate cfg quotes.1 quotes.2 costs nowNs).opportunity.sellPricePaise -
        (evaluate cfg quotes.1 quotes.2 costs nowNs).opportunity.buyPricePaise = spread := by
  intro quotes
  have habs := abs_nonneg spread
  have hneg := neg_abs_le spread
  have heligible : Eligible cfg quotes.1 quotes.2 := by
    refine ⟨⟨?_, ?_⟩, rfl, Nat.zero_le _, Nat.zero_le _⟩
    · simp only [quotes, spreadQuotes, BestQuote.valid, decide_eq_true_eq]
      exact ⟨nofun, one_ne_zero, by omega, by omega, by omega, by omega⟩
    · simp only [quotes, spreadQuotes, BestQuote.valid, decide_eq_true_eq]
      exact ⟨nofun, one_ne_zero, by omega, by omega, by omega, by omega⟩
  obtain ⟨htrades, hopp⟩ := @evaluate_trades cfg costs quotes.1 quotes.2 nowNs heligible
  have hbest : bestDirection cfg costs quotes.1 quotes.2 nowNs =
      sellNse cfg costs quotes.1 quotes.2 nowNs := by
    refine if_pos ?_
    simp only [quotes, spreadQuotes, sellNse, sellBse, tryDirection]
    omega
  have hqualifies : Qualifies cfg costs (bestDirection cfg costs quotes.1 quotes.2 nowNs) := by
    rw [hbest]
    constructor
    · simp only [quotes, spreadQuotes, sellNse, tryDirection]
      omega
    · simp only [quotes, spreadQuotes, sellNse, tryDirection]
      omega
  have htrade := htrades.2 hqualifies
  refine ⟨htrade, ?_⟩
  rw [hopp htrade, hbest]
  simp only [quotes, spreadQuotes, sellNse, tryDirection]
  omega

/-- **When a validated cost model never trades at a loss.**  With the threshold of the strategy
taken from the model, every trade earns the fees and taxes of both legs exactly when the buffers and
the threshold together are not negative, or the strategy cannot trade at all. -/
theorem neverAtLoss_iff (hvalid : costs.validate.1 = true)
    (hwired : cfg.minNetEdgePaise = costs.minNetEdgePaise) :
    NeverAtLoss costs cfg ↔
      0 ≤ costs.buffersPaise + costs.minNetEdgePaise ∨ cfg.maxQty < cfg.minVisibleQty := by
  obtain ⟨hfees, htaxes, hedge⟩ := validate_iff.1 hvalid
  have hround : 0 < costs.roundTripPaise := by
    unfold CostModel.roundTripPaise
    omega
  have hall : costs.allInCostPaise = costs.roundTripPaise + costs.buffersPaise := rfl
  constructor
  · intro h
    by_contra hnot
    rw [not_or, not_le, not_lt] at hnot
    obtain ⟨htrade, hspread⟩ := @evaluate_spreadQuotes cfg costs 0
      (costs.allInCostPaise + costs.minNetEdgePaise) hnot.2 (by rw [hwired, max_self]; omega)
    have hearned := (h _ _ _ htrade).2
    omega
  · intro h nse bse nowNs htrade
    obtain ⟨htrades, hopp⟩ := @evaluate_trades cfg costs nse bse nowNs (eligible_of_trade htrade)
    have hqualifies := htrades.1 htrade
    obtain ⟨hspread, hqty⟩ := bestDirection_spread cfg costs nse bse nowNs
    rw [hopp htrade]
    have hdepth := hqualifies.1
    have hnet := hqualifies.2
    rw [hwired, max_self] at hnet
    omega

/-- Fees and taxes of one paisa, and a slippage buffer of minus ten. -/
def negativeBuffer : CostModel :=
  { feesPaisePerShare := 1, taxesPaisePerShare := 1, slippageBufferPaise := -10 }

/-- The model is accepted, and buys at 105 to sell at 100. -/
theorem not_neverAtLoss_negativeBuffer :
    negativeBuffer.validate = (true, "OK") ∧
      ¬ NeverAtLoss negativeBuffer { minNetEdgePaise := negativeBuffer.minNetEdgePaise } := by
  refine ⟨by decide, fun h => ?_⟩
  exact absurd (h ⟨.nse, 1, 100, 10, 110, 10, 0⟩ ⟨.bse, 1, 90, 10, 105, 10, 0⟩ 0 (by decide)).1
    (by decide)

/-- With positive buffers no trade is at a loss. -/
theorem neverAtLoss_thirtyPaise :
    NeverAtLoss thirtyPaise { minNetEdgePaise := thirtyPaise.minNetEdgePaise } :=
  (neverAtLoss_iff (by decide) rfl).2 (Or.inl (by decide))

end Signal

end Hft
