import HftArb.Book.WalkChoice
import HftArb.Sim.Ledger
import HftArb.Strategy.Signal

/-!
# How an execution comes about

`Visible` lists what it means that `evaluate` wants to trade: the two venues, the prices and
quantities of their quotes, and an edge that covers the costs.  The instrument that is traded is the
one whose event was read, since every book is filed under the venue and instrument of its header
(`Keyed`).
-/

namespace Hft

open Transition
open Std (ExtTreeMap)

/-! ### Headers -/

namespace BookManager

variable {m : BookManager} {v : Venue} {i : ℕ} {b : OrderBook ℤ}

/-- Every book is filed under the venue and instrument of its header. -/
def Keyed (m : BookManager) : Prop :=
  ∀ v i b, m.book v i = some b → b.venue = v ∧ b.instrumentId = i

theorem keyed_empty : Keyed {} := by
  intro v i b hb
  simp [book] at hb

theorem Keyed.setBook (h : m.Keyed) (hv : b.venue = v) (hi : b.instrumentId = i) :
    (m.setBook v i b).Keyed := by
  intro v' i' b' hb'
  rw [book_setBook] at hb'
  split_ifs at hb' with hkey
  · cases hb'
    exact ⟨hv.trans hkey.1, hi.trans hkey.2⟩
  · exact h v' i' b' hb'

theorem Keyed.onEvent (h : m.Keyed) (ev : BookEvent ℤ) : (m.onEvent ev).Keyed :=
  h.setBook (OrderBook.header_apply _ ev).1 (OrderBook.header_apply _ ev).2.1

/-- The header of a quote is that of its key. -/
theorem Keyed.quote (h : m.Keyed) {nowNs : ℕ} {q : BestQuote} (hq : m.quote v i nowNs = some q) :
    ∃ b, m.book v i = some b ∧ q = b.bestQuote nowNs ∧ q.venue = v ∧ q.instrumentId = i := by
  obtain ⟨b, hb, rfl⟩ := Option.map_eq_some_iff.1 hq
  exact ⟨b, hb, rfl, (h v i b hb).1, (h v i b hb).2⟩

end BookManager

namespace MatchingEngine

/-- The gateway keeps headers. -/
theorem keyed_send {g : MatchingEngine} (hwf : g.books.Wf) (h : g.books.Keyed) (env : Env)
    (order : Order) : (g.send env order).2.books.Keyed := by
  have hsending := send_sending env g order
  generalize g.send env order = res at hsending ⊢
  cases hsending with
  | reject ts hrefusal => exact h
  | matched ts hdisc hrole hbook =>
    have hheader := (matchIoc_spec (hwf.book hbook) (env.walk g.sends) order.intent.side
      order.intent.pricePaise (g.scenario.capFillQty order.intent.role order.intent.qty)).header
    obtain ⟨hv, hi⟩ := h _ _ _ hbook
    exact h.setBook (hheader.1.trans hv) (hheader.2.1.trans hi)

end MatchingEngine

namespace Execution

variable {env : Env} {nowNs : ℕ} {x x' : Execution}

theorem Steps.keyed (h : Steps env nowNs x x') (hs : x.run.Sound)
    (hk : x.run.gateway.books.Keyed) : x'.run.gateway.books.Keyed := by
  induction h with
  | refl => exact hk
  | tail hy hstep ih =>
    cases hstep with
    | quiet hq =>
      rw [hq.gateway]
      exact ih
    | submit intent hclear =>
      have hsound := Steps.sound hy hs
      rw [gateway_submit hsound]
      exact MatchingEngine.keyed_send hsound.books ih env _

end Execution

/-! ### The decision to trade -/

/-- What `evaluate` has seen when it wants to trade `opp`. -/
structure Visible (cfg : StrategyConfig) (costs : CostModel) (nse bse : BestQuote)
    (opp : ArbOpportunity) : Prop where
  venues : (opp.buyVenue = .bse ∧ opp.sellVenue = .nse) ∨
    (opp.buyVenue = .nse ∧ opp.sellVenue = .bse)
  valid : nse.valid = true ∧ bse.valid = true
  instrument : opp.instrumentId = nse.instrumentId ∧ nse.instrumentId = bse.instrumentId
  buyPx : opp.buyPricePaise = (quoteFor nse bse opp.buyVenue).askPxPaise
  sellPx : opp.sellPricePaise = (quoteFor nse bse opp.sellVenue).bidPxPaise
  qty : opp.qty ≤ (quoteFor nse bse opp.buyVenue).askQty ∧
    opp.qty ≤ (quoteFor nse bse opp.sellVenue).bidQty
  gross : opp.grossSpreadPaise = opp.sellPricePaise - opp.buyPricePaise
  edge : costs.allInCostPaise + max cfg.minNetEdgePaise costs.minNetEdgePaise ≤
    opp.grossSpreadPaise

theorem evaluate_visible {cfg : StrategyConfig} {nse bse : BestQuote} {costs : CostModel}
    {nowNs : ℕ} (h : (evaluate cfg nse bse costs nowNs).shouldTrade = true) :
    Visible cfg costs nse bse (evaluate cfg nse bse costs nowNs).opportunity := by
  have heligible := eligible_of_trade h
  obtain ⟨htrades, hbest⟩ := @evaluate_trades cfg costs nse bse nowNs heligible
  have hqualifies := htrades.1 h
  rw [hbest h]
  -- the two directions differ in nothing but the venues
  rcases bestDirection_cases cfg costs nse bse nowNs with ⟨-, heq⟩ | ⟨-, heq⟩
  · rw [heq] at hqualifies ⊢
    have hedge := hqualifies.2
    refine ⟨Or.inl ⟨rfl, rfl⟩, heligible.valid, ⟨rfl, heligible.instrument⟩, rfl, rfl, ⟨?_, ?_⟩,
      rfl, ?_⟩
    · exact (min_le_left _ _).trans (min_le_left _ _)
    · exact (min_le_left _ _).trans (min_le_right _ _)
    · simp only [sellNse, tryDirection] at hedge ⊢
      omega
  · rw [heq] at hqualifies ⊢
    have hedge := hqualifies.2
    refine ⟨Or.inr ⟨rfl, rfl⟩, heligible.valid, ⟨rfl, heligible.instrument⟩, rfl, rfl, ⟨?_, ?_⟩,
      rfl, ?_⟩
    · exact (min_le_left _ _).trans (min_le_left _ _)
    · exact (min_le_left _ _).trans (min_le_right _ _)
    · simp only [sellBse, tryDirection] at hedge ⊢
      omega

namespace ReplayState

variable {env : Env} {cfg : SimConfig} {maxTrades : ℤ} {s s' : ReplayState} {item : MdResult}
  {ev : BookEvent ℤ} {nse bse : BestQuote}

theorem sound_opened (h : s.Sound) (item : MdResult) (ev : BookEvent ℤ) (nse bse : BestQuote) :
    (s.opened cfg item ev nse bse).2.Sound := by
  obtain ⟨hq, -⟩ := quiet_onBookEvent (s := s) item ev
  refine ⟨hq.books h.books, ?_, ?_⟩
  · show (s.onBookEvent item ev).oms.KnownIds
    rw [hq.oms]
    exact h.known
  · show (s.onBookEvent item ev).oms.consumedFills = (s.onBookEvent item ev).oms.fills.length
    rw [hq.oms]
    exact h.taken

theorem gateway_onBookEvent (s : ReplayState) (item : MdResult) (ev : BookEvent ℤ) :
    (s.onBookEvent item ev).gateway = { s.gateway with books := s.gateway.books.onEvent ev } := by
  unfold onBookEvent
  dsimp only
  split_ifs <;> rfl

theorem keyed_onBookEvent (h : s.gateway.books.Keyed) (item : MdResult) (ev : BookEvent ℤ) :
    (s.onBookEvent item ev).gateway.books.Keyed := by
  rw [gateway_onBookEvent]
  exact h.onEvent ev

theorem ItemTurn.keyed (h : ItemTurn env cfg maxTrades s item s') (hs : s.Sound)
    (hk : s.gateway.books.Keyed) : s'.gateway.books.Keyed := by
  cases h with
  | skip h => exact hk
  | watch ev h hnoted =>
    rw [hnoted.gateway]
    exact keyed_onBookEvent hk item ev
  | execute ev nse bse h htrades =>
    have hsteps := executed_steps env cfg ev.tsIngestNs (s.opened cfg item ev nse bse).2
      (s.opened cfg item ev nse bse).1
    exact hsteps.keyed (sound_opened hs item ev nse bse) (keyed_onBookEvent hk item ev)

/-- The ledgers are balanced and every book is filed under its header. -/
structure Filed (s : ReplayState) : Prop where
  balanced : s.Balanced
  keyed : s.gateway.books.Keyed

theorem Filed.read (h : s.Filed) (md : MarketDataHandler) : { s with md := md }.Filed :=
  ⟨h.balanced.read md, h.keyed⟩

theorem Filed.turn (h : s.Filed) (ht : ItemTurn env cfg maxTrades s item s') : s'.Filed :=
  ⟨h.balanced.turn ht.turn, ht.keyed h.balanced.sound h.keyed⟩

/-- What holds when an execution starts. -/
structure Started (cfg : SimConfig) (nowNs : ℕ) (s : ReplayState) (opp : ArbOpportunity) : Prop where
  sound : s.Sound
  keyed : s.gateway.books.Keyed
  nseQuote : ∃ q, s.gateway.books.quote .nse opp.instrumentId nowNs = some q
  bseQuote : ∃ q, s.gateway.books.quote .bse opp.instrumentId nowNs = some q
  visible : Visible cfg.strategy cfg.costs (s.quoteOr .nse opp.instrumentId nowNs)
    (s.quoteOr .bse opp.instrumentId nowNs) opp

/-- The decision to trade is about the instrument of the event. -/
theorem Decides.instrument (h : Decides cfg s item ev nse bse) (hk : s.gateway.books.Keyed) :
    (s.opened cfg item ev nse bse).1.instrumentId = ev.instrumentId := by
  obtain ⟨b, -, -, -, hinst⟩ := (keyed_onBookEvent hk item ev).quote h.nseQuote
  exact (evaluate_visible h.trade).instrument.1.trans hinst

theorem Decides.started (h : Decides cfg s item ev nse bse) (hs : s.Filed) :
    Started cfg ev.tsIngestNs (s.opened cfg item ev nse bse).2 (s.opened cfg item ev nse bse).1 := by
  have hinst := h.instrument hs.keyed
  have hnse : (s.opened cfg item ev nse bse).2.gateway.books.quote .nse
      (s.opened cfg item ev nse bse).1.instrumentId ev.tsIngestNs = some nse := by
    rw [hinst]
    exact h.nseQuote
  have hbse : (s.opened cfg item ev nse bse).2.gateway.books.quote .bse
      (s.opened cfg item ev nse bse).1.instrumentId ev.tsIngestNs = some bse := by
    rw [hinst]
    exact h.bseQuote
  have hvisible := evaluate_visible h.trade
  refine ⟨sound_opened hs.balanced.sound item ev nse bse, keyed_onBookEvent hs.keyed item ev,
    ⟨nse, hnse⟩, ⟨bse, hbse⟩, ?_⟩
  rw [quoteOr, quoteOr, hnse, hbse]
  exact ⟨hvisible.venues, hvisible.valid, hvisible.instrument, hvisible.buyPx, hvisible.sellPx,
    hvisible.qty, hvisible.gross, hvisible.edge⟩

end ReplayState

namespace Simulator

open ReplayState

variable {sim : Simulator}

theorem filed_replayFor (hwf : sim.books.Wf) (hk : sim.books.Keyed) (call : ReplayCall)
    (turns : ℕ) : (sim.replayFor call turns).Filed :=
  replayFor_items (I := Filed) ⟨balanced_start hwf call.lines, hk⟩ (fun _ md hs _ => hs.read md)
    (fun _ _ md _ hs _ ht => (hs.read md).turn ht) turns

theorem afterRuns_keyed (cfg : SimConfig) (calls : List ReplayCall) :
    (afterRuns cfg calls).books.Keyed := by
  unfold afterRuns
  induction calls using List.reverseRecOn with
  | nil => exact BookManager.keyed_empty
  | append_singleton calls call ih =>
    rw [List.foldl_append]
    exact (filed_replayFor (afterRuns_spec cfg calls).1 ih call _).keyed

/-- Every run, of a simulator that may have run before, keeps the books filed. -/
theorem run_filed (cfg : SimConfig) (calls : List ReplayCall) (call : ReplayCall) (turns : ℕ) :
    ((afterRuns cfg calls).replayFor call turns).Filed :=
  filed_replayFor (afterRuns_spec cfg calls).1 (afterRuns_keyed cfg calls) call turns

end Simulator

end Hft
