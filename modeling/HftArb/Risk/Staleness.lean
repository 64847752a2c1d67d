import HftArb.Hedge.HedgePolicy

/-!
# Staleness guards

`best_quote` stores the age of a book in 32 bits of microseconds, and three consumers compare it
with their limit: `evaluate`, `check_order` and `candidate_for_venue`.  Each of them rejects a valid
quote as stale exactly when the stored age is above the limit (`evaluate_stale`, `checkOrder_stale`,
`candidateForVenue_stale`).  The stored age is the true one only below `2 ^ 32` microseconds, some
72 minutes (`stalenessExact_iff`).
-/

namespace Hft

/-- The age of the book in microseconds, in unbounded integers. -/
def OrderBook.ageUs (b : OrderBook ℤ) (nowNs : ℕ) : ℕ := (nowNs - b.lastUpdateNs) / 1000

/-- At time `nowNs` the guards with limit `limit` call the quote of `b` stale exactly when the book
is older than the limit.  `guard` is the comparison that all three make; they come to it with a
valid quote, when the conditions that each of them tests before are met. -/
structure StalenessExact (b : OrderBook ℤ) (nowNs limit : ℕ) : Prop where
  guard : limit < (b.bestQuote nowNs).bookAgeUs ↔ limit < b.ageUs nowNs
  evaluate_nse : (b.bestQuote nowNs).valid = true → ∀ cfg costs ts (other : BestQuote),
    cfg.maxBookAgeUs = limit → other.valid = true → other.instrumentId = b.instrumentId →
    other.bookAgeUs ≤ limit →
    ((evaluate cfg (b.bestQuote nowNs) other costs ts).reason = "STALE_BOOK" ↔
      limit < b.ageUs nowNs)
  evaluate_bse : (b.bestQuote nowNs).valid = true → ∀ cfg costs ts (other : BestQuote),
    cfg.maxBookAgeUs = limit → other.valid = true → other.instrumentId = b.instrumentId →
    other.bookAgeUs ≤ limit →
    ((evaluate cfg other (b.bestQuote nowNs) costs ts).reason = "STALE_BOOK" ↔
      limit < b.ageUs nowNs)
  checkOrder : (b.bestQuote nowNs).valid = true → ∀ (e : RiskEngine) positions o ts,
    e.cfg.maxBookAgeUs = limit → e.kill.enabled = true →
    ((e.checkOrder positions o (b.bestQuote nowNs) ts).1.rule = "STALE_BOOK" ↔
      limit < b.ageUs nowNs)
  candidateForVenue : (b.bestQuote nowNs).valid = true → ∀ cfg p v, cfg.maxBookAgeUs = limit →
    ((candidateForVenue cfg p v (b.bestQuote nowNs)).reason = "STALE_HEDGE_QUOTE" ↔
      limit < b.ageUs nowNs)

section Guards

variable {q nse bse : BestQuote}

theorem evaluate_stale (cfg : StrategyConfig) (costs : CostModel) (ts : ℕ) (hnse : nse.valid = true)
    (hbse : bse.valid = true) (hinst : nse.instrumentId = bse.instrumentId) :
    (evaluate cfg nse bse costs ts).reason = "STALE_BOOK" ↔
      cfg.maxBookAgeUs < nse.bookAgeUs ∨ cfg.maxBookAgeUs < bse.bookAgeUs := by
  unfold evaluate
  rw [if_neg (by simp [hnse, hbse]), if_neg (by simp [hinst])]
  by_cases hstale : nse.bookAgeUs > cfg.maxBookAgeUs ∨ bse.bookAgeUs > cfg.maxBookAgeUs
  · rw [if_pos hstale]
    exact iff_of_true rfl hstale
  · rw [if_neg hstale]
    refine iff_of_false ?_ hstale
    dsimp only
    split_ifs <;> simp [makeNoTrade, tryDirection]

theorem checkOrder_stale (e : RiskEngine) (positions : PositionBook) (o : OrderIntent) (ts : ℕ)
    (hkill : e.kill.enabled = true) (hq : q.valid = true) :
    (e.checkOrder positions o q ts).1.rule = "STALE_BOOK" ↔ e.cfg.maxBookAgeUs < q.bookAgeUs := by
  unfold RiskEngine.checkOrder RiskEngine.checkOrderIn RiskEngine.staticBlock
  rw [if_neg (by simp [hkill]), if_neg (by simp [hq])]
  by_cases hstale : q.bookAgeUs > e.cfg.maxBookAgeUs
  · rw [if_pos hstale]
    exact iff_of_true rfl hstale
  · rw [if_neg hstale]
    refine iff_of_false ?_ hstale
    split_ifs <;> simp [RiskDecision.block]
    split_ifs <;> simp [RiskDecision.approve]

theorem candidateForVenue_stale (cfg : RiskConfig) (p : PairTrade) (v : Venue)
    (hq : q.valid = true) : (candidateForVenue cfg p v q).reason = "STALE_HEDGE_QUOTE" ↔
      cfg.maxBookAgeUs < q.bookAgeUs := by
  unfold candidateForVenue
  rw [if_neg (by simp [hq])]
  by_cases hstale : q.bookAgeUs > cfg.maxBookAgeUs
  · rw [if_pos hstale]
    exact iff_of_true rfl hstale
  · rw [if_neg hstale]
    refine iff_of_false ?_ hstale
    dsimp only
    split_ifs <;> simp

end Guards

theorem OrderBook.bestQuote_bookAgeUs {b : OrderBook ℤ} {nowNs : ℕ} (ht : 0 < b.lastUpdateNs)
    (hnow : b.lastUpdateNs ≤ nowNs) : (b.bestQuote nowNs).bookAgeUs = b.ageUs nowNs % 2 ^ 32 := by
  unfold bestQuote ageUs
  exact if_pos ⟨ht, hnow⟩

/-- **When staleness is exact.**  The guards are right about a quote exactly when the book is not
older than the limit, or the low 32 bits of its age are above the limit as well. -/
theorem stalenessExact_iff (b : OrderBook ℤ) (nowNs limit : ℕ) (ht : 0 < b.lastUpdateNs)
    (hnow : b.lastUpdateNs ≤ nowNs) :
    StalenessExact b nowNs limit ↔
      b.ageUs nowNs ≤ limit ∨ limit < b.ageUs nowNs % 2 ^ 32 := by
  have hage := b.bestQuote_bookAgeUs ht hnow
  have hmod : b.ageUs nowNs % 2 ^ 32 ≤ b.ageUs nowNs := Nat.mod_le _ _
  constructor
  · intro h
    have hguard := h.guard
    rw [hage] at hguard
    omega
  · intro h
    have hiff : limit < (b.bestQuote nowNs).bookAgeUs ↔ limit < b.ageUs nowNs := by
      rw [hage]
      omega
    refine ⟨hiff, ?_, ?_, ?_, ?_⟩
    · rintro hvalid cfg costs ts other rfl hother hinst hfresh
      rw [evaluate_stale cfg costs ts hvalid hother hinst.symm, ← hiff]
      exact or_iff_left (by omega)
    · rintro hvalid cfg costs ts other rfl hother hinst hfresh
      rw [evaluate_stale cfg costs ts hother hvalid hinst, ← hiff]
      exact or_iff_right (by omega)
    · rintro hvalid e positions o ts rfl hkill
      rw [checkOrder_stale e positions o ts hkill hvalid, hiff]
    · rintro hvalid cfg p v rfl
      rw [candidateForVenue_stale cfg p v hvalid, hiff]

/-- An order of 10 at time 1. -/
def quoteEvent (orderId : ℕ) (side : Side) (px : ℤ) : BookEvent ℤ where
  tsExchangeNs := 0
  tsIngestNs := 1
  venue := .nse
  instrumentId := 1
  nativeToken := 1594
  eventType := .add
  orderId := orderId
  side := side
  pricePaise := px
  qty := 10
  nativePayload := []

/-- A book quoted 100 / 101, last updated at time 1. -/
def quotedBook : OrderBook ℤ :=
  ((OrderBook.new .nse 1).apply (quoteEvent 1 .buy 100)).apply (quoteEvent 2 .sell 101)

theorem stalenessExact_second : StalenessExact quotedBook 1000000001 250 :=
  (stalenessExact_iff quotedBook 1000000001 250 (by decide +kernel) (by decide +kernel)).2
    (by decide +kernel)

/-- After `2 ^ 32` microseconds without an event the book counts as fresh again, having been stale
since its 251st microsecond. -/
theorem stalenessExact_wraps :
    ¬ StalenessExact quotedBook (1 + 2 ^ 32 * 1000) 250 ∧
      (candidateForVenue {} {} .nse (quotedBook.bestQuote (1 + 251 * 1000))).reason =
        "STALE_HEDGE_QUOTE" ∧
      (candidateForVenue {} {} .nse (quotedBook.bestQuote (1 + 2 ^ 32 * 1000))).reason ≠
        "STALE_HEDGE_QUOTE" := by
  refine ⟨fun h => ?_, by decide +kernel, by decide +kernel⟩
  have hcand := h.candidateForVenue (by decide +kernel) {} {} .nse rfl
  exact absurd hcand (by decide +kernel)

end Hft
