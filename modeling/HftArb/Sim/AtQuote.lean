import HftArb.Sim.Opening

/-!
# Orders at the quote

The prices of the two legs are those of the best levels they were decided on, and their quantity
does not exceed these levels (`Started.atQuote`).  The first leg changes the book of its own venue
only, so that the second still meets its level (`AtQuote.submit`).  An order at the quote is filled
at its own price, and in one fill if the scenario lets it pass (`newFills_atQuote`,
`newFills_permitted`).
-/

namespace Hft

open Execution
open FiniteMap

/-- The intent asks for the price of the best level on the other side of its book, and for no more
than the level has. -/
structure AtQuote (g : MatchingEngine) (intent : OrderIntent) : Prop where
  price : 0 < intent.pricePaise
  level : ∃ b level, g.books.book intent.venue intent.instrumentId = some b ∧
    b.best (opposite intent.side) = some (intent.pricePaise, level) ∧ intent.qty ≤ level

namespace OrderBook

variable {b : OrderBook ℤ} {nowNs : ℕ}

theorem best_ask (h : 0 < (b.bestQuote nowNs).askPxPaise) :
    b.best .sell = some ((b.bestQuote nowNs).askPxPaise, (b.bestQuote nowNs).askQty) := by
  unfold bestQuote at h ⊢
  show front b.asks = _
  cases hfront : front b.asks with
  | none => simp [hfront] at h
  | some e => rfl

theorem best_bid (h : 0 < (b.bestQuote nowNs).bidPxPaise) :
    b.best .buy = some ((b.bestQuote nowNs).bidPxPaise, (b.bestQuote nowNs).bidQty) := by
  unfold bestQuote at h ⊢
  show front b.bids = _
  cases hfront : front b.bids with
  | none => simp [hfront] at h
  | some e => rfl

end OrderBook

/-! ### The legs of an execution -/

theorem Visible.venue {cfg : StrategyConfig} {costs : CostModel} {nse bse : BestQuote}
    {opp : ArbOpportunity}
    (h : Visible cfg costs nse bse opp) : (opp.buyVenue = .nse ∨ opp.buyVenue = .bse) ∧
      (opp.sellVenue = .nse ∨ opp.sellVenue = .bse) ∧ opp.buyVenue ≠ opp.sellVenue := by
  rcases h.venues with ⟨hb, hs⟩ | ⟨hb, hs⟩ <;> rw [hb, hs] <;> simp

namespace ReplayState

variable {cfg : SimConfig} {nowNs : ℕ} {s : ReplayState} {opp : ArbOpportunity}

/-- The quote that `execute_opportunity` looks at for a venue of the opportunity. -/
theorem Started.quote (h : Started cfg nowNs s opp) {v : Venue} (hv : v = .nse ∨ v = .bse) :
    ∃ b, s.gateway.books.book v opp.instrumentId = some b ∧
      quoteFor (s.quoteOr .nse opp.instrumentId nowNs) (s.quoteOr .bse opp.instrumentId nowNs) v =
        b.bestQuote nowNs ∧ (b.bestQuote nowNs).valid = true := by
  obtain ⟨hnseValid, hbseValid⟩ := h.visible.valid
  rcases hv with rfl | rfl
  · obtain ⟨q, hq⟩ := h.nseQuote
    obtain ⟨b, hb, heq⟩ := Option.map_eq_some_iff.1 hq
    have hquote : s.quoteOr .nse opp.instrumentId nowNs = b.bestQuote nowNs := by
      rw [quoteOr, hq, heq]
      rfl
    rw [hquote] at hnseValid ⊢
    exact ⟨b, hb, rfl, hnseValid⟩
  · obtain ⟨q, hq⟩ := h.bseQuote
    obtain ⟨b, hb, heq⟩ := Option.map_eq_some_iff.1 hq
    have hquote : s.quoteOr .bse opp.instrumentId nowNs = b.bestQuote nowNs := by
      rw [quoteOr, hq, heq]
      rfl
    rw [hquote] at hbseValid ⊢
    exact ⟨b, hb, rfl, hbseValid⟩

theorem Started.buy_atQuote (h : Started cfg nowNs s opp) : AtQuote s.gateway opp.buy := by
  obtain ⟨b, hb, hquote, hvalid⟩ := h.quote h.visible.venue.1
  have hpx := h.visible.buyPx
  have hqty := h.visible.qty.1
  rw [hquote] at hpx hqty
  simp only [BestQuote.valid, decide_eq_true_eq] at hvalid
  refine ⟨by rw [← hpx] at hvalid; exact hvalid.2.2.2.1, b, _, hb, ?_, hqty⟩
  exact (OrderBook.best_ask hvalid.2.2.2.1).trans (by rw [← hpx]; rfl)

theorem Started.sell_atQuote (h : Started cfg nowNs s opp) : AtQuote s.gateway opp.sell := by
  obtain ⟨b, hb, hquote, hvalid⟩ := h.quote h.visible.venue.2.1
  have hpx := h.visible.sellPx
  have hqty := h.visible.qty.2
  rw [hquote] at hpx hqty
  simp only [BestQuote.valid, decide_eq_true_eq] at hvalid
  refine ⟨by rw [← hpx] at hvalid; exact hvalid.2.2.1, b, _, hb, ?_, hqty⟩
  exact (OrderBook.best_bid hvalid.2.2.1).trans (by rw [← hpx]; rfl)

/-- Both legs are at the quote, and they go to different venues. -/
theorem Started.atQuote (h : Started cfg nowNs s opp) :
    AtQuote s.gateway (cfg.legs opp).1 ∧ AtQuote s.gateway (cfg.legs opp).2 ∧
      (cfg.legs opp).1.venue ≠ (cfg.legs opp).2.venue := by
  unfold SimConfig.legs
  split_ifs
  · exact ⟨h.sell_atQuote, h.buy_atQuote, h.visible.venue.2.2.symm⟩
  · exact ⟨h.buy_atQuote, h.sell_atQuote, h.visible.venue.2.2⟩

end ReplayState

/-! ### Fills -/

namespace MatchingEngine

variable {g : MatchingEngine} {order : Order} {intent : OrderIntent}

/-- An order leaves the books of the other venues alone. -/
theorem book_send (env : Env) {v : Venue} (hv : order.intent.venue ≠ v) (i : ℕ) :
    (g.send env order).2.books.book v i = g.books.book v i := by
  have hsending := send_sending env g order
  generalize g.send env order = res at hsending ⊢
  cases hsending with
  | reject ts hrefusal => rfl
  | matched ts hdisc hrole hbook =>
    show (g.books.setBook _ _ _).book v i = _
    rw [BookManager.book_setBook]
    exact if_neg fun h => hv h.1

theorem atQuote_send (h : AtQuote g intent) (env : Env) (hv : order.intent.venue ≠ intent.venue) :
    AtQuote (g.send env order).2 intent := by
  obtain ⟨b, level, hb, hbest, hqty⟩ := h.level
  exact ⟨h.price, b, level, by rw [book_send env hv]; exact hb, hbest, hqty⟩

end MatchingEngine

namespace OrderBook

/-- The fills of an order at the best price, whatever its quantity. -/
theorem price_matchIoc_atBest {b : OrderBook ℤ} (h : b.Wf) (walk : WalkOrder ℤ) {side : Side}
    {px level : ℤ} (hbest : b.best (opposite side) = some (px, level)) (hpx : 0 < px) (qty : ℤ) :
    ∀ f ∈ (b.matchIoc walk side px qty).2, f.pricePaise = px := by
  intro f hf
  by_cases hqty : 0 < qty
  · rw [matchIoc_atBest h walk hbest hpx hqty] at hf
    rw [List.mem_singleton.1 hf]
  · rw [matchIoc, if_pos (Or.inl (not_lt.1 hqty))] at hf
    cases hf

end OrderBook

/-- The scenario lets an order pass in full. -/
structure ScenarioConfig.Permits (sc : ScenarioConfig) (intent : OrderIntent) : Prop where
  connected : sc.disconnected intent.venue = false
  role : intent.role ∉ sc.rejectRolesOnce
  cap : ∀ cap ∈ sc.maxFillQtyByRole intent.role, intent.qty ≤ cap

theorem ScenarioConfig.Permits.capFillQty {sc : ScenarioConfig} {intent : OrderIntent}
    (h : sc.Permits intent) : sc.capFillQty intent.role intent.qty = intent.qty := by
  unfold ScenarioConfig.capFillQty
  have hcap := h.cap
  cases hrole : sc.maxFillQtyByRole intent.role with
  | none => rfl
  | some cap => exact min_eq_left (hcap cap hrole)

namespace Execution

variable {env : Env} {nowNs : ℕ} {x : Execution} {intent : OrderIntent}

/-- The fill of an order in full, at its own price. -/
def fullFill (intent : OrderIntent) (id : String) (ts : ℕ) : Fill where
  parentArbId := intent.parentArbId
  clientOrderId := id
  instrumentId := intent.instrumentId
  venue := intent.venue
  side := intent.side
  fillPxPaise := intent.pricePaise
  fillQty := intent.qty
  tsFillNs := ts

/-- **An order at the quote** is filled at its own price. -/
theorem newFills_atQuote (h : x.run.Sound) (hat : AtQuote x.run.gateway intent) :
    ∀ f ∈ x.newFills env nowNs intent, f.fillPxPaise = intent.pricePaise := by
  obtain ⟨b, level, hb, hbest, -⟩ := hat.level
  unfold newFills
  have hsending := MatchingEngine.send_sending env x.run.gateway
    (OrderManager.newOrder intent (x.run.oms.nextId intent) nowNs)
  generalize x.run.gateway.send env _ = res at hsending ⊢
  cases hsending with
  | reject ts hrefusal => exact fun f hf => nomatch hf
  | @matched b' ts hdisc hrole hbook =>
    have hsame : b' = b := Option.some.inj (hbook.symm.trans hb)
    subst hsame
    rw [MatchingEngine.fillsOf_matchReports]
    exact List.forall_mem_map.2 fun lf hlf =>
      OrderBook.price_matchIoc_atBest (h.books.book hb) _ hbest hat.price _ lf hlf

/-- Where the scenario lets it pass it is filled in full, in one fill. -/
theorem newFills_permitted (h : x.run.Sound) (hat : AtQuote x.run.gateway intent)
    (hpermits : x.run.gateway.scenario.Permits intent) (hqty : 0 < intent.qty) :
    ∃ ts, x.newFills env nowNs intent = [fullFill intent (x.run.oms.nextId intent) ts] := by
  obtain ⟨b, level, hb, hbest, hle⟩ := hat.level
  obtain ⟨ts, hsend⟩ := @MatchingEngine.send_matched _ _
    (OrderManager.newOrder intent (x.run.oms.nextId intent) nowNs)
    hpermits.connected hpermits.role hb env
  refine ⟨ts, ?_⟩
  have hcap : x.run.gateway.scenario.capFillQty intent.role intent.qty = intent.qty :=
    hpermits.capFillQty
  have hmatch := matchIoc_atBest (h.books.book hb) (env.walk x.run.gateway.sends) hbest hat.price
    hqty
  rw [min_eq_left hle] at hmatch
  unfold newFills
  rw [hsend, MatchingEngine.fillsOf_matchReports]
  show (OrderBook.matchIoc b _ intent.side intent.pricePaise
    (x.run.gateway.scenario.capFillQty intent.role intent.qty)).2.map _ = _
  rw [hcap, hmatch]
  rfl

end Execution

end Hft
