import HftArb.Sim.Counts
import HftArb.Strategy.Signal

/-!
# The opportunities a run announces

Every row of `opportunities.csv` that names an opportunity is a decision of `evaluate` under a new
parent id (`signalled_replayFor`), so its columns fit together and its edge covers the costs
(`Announced.priced`).
-/

namespace Hft

/-- The columns of an opportunity fit together: its edge is what the spread leaves of the costs, and
reaches the thresholds, as the depth does. -/
structure ArbOpportunity.Priced (cfg : SimConfig) (o : ArbOpportunity) : Prop where
  spread : o.grossSpreadPaise = o.sellPricePaise - o.buyPricePaise
  edge : o.netEdgePaise = o.grossSpreadPaise - cfg.costs.allInCostPaise
  threshold : max cfg.strategy.minNetEdgePaise cfg.costs.minNetEdgePaise ≤ o.netEdgePaise
  depth : cfg.strategy.minVisibleQty ≤ o.qty ∧ o.qty ≤ cfg.strategy.maxQty
  venues : o.buyVenue = .nse ∧ o.sellVenue = .bse ∨ o.buyVenue = .bse ∧ o.sellVenue = .nse

/-- The opportunity of a decision to trade is priced. -/
theorem ReplayState.Signal.priced {cfg : SimConfig} {d : StrategyDecision}
    (h : ReplayState.Signal cfg d) : d.opportunity.Priced cfg := by
  obtain ⟨htrade, nse, bse, nowNs, rfl⟩ := h
  obtain ⟨htrades, hopp⟩ :=
    @evaluate_trades cfg.strategy cfg.costs nse bse nowNs (eligible_of_trade htrade)
  obtain ⟨hdepth, hthreshold⟩ := htrades.1 htrade
  obtain ⟨hspread, hqty⟩ := bestDirection_spread cfg.strategy cfg.costs nse bse nowNs
  rw [hopp htrade]
  rcases bestDirection_cases cfg.strategy cfg.costs nse bse nowNs with ⟨-, heq⟩ | ⟨-, heq⟩
  · rw [heq] at hdepth hthreshold hqty ⊢
    exact ⟨rfl, rfl, hthreshold, ⟨hdepth, hqty⟩, .inr ⟨rfl, rfl⟩⟩
  · rw [heq] at hdepth hthreshold hqty ⊢
    exact ⟨rfl, rfl, hthreshold, ⟨hdepth, hqty⟩, .inl ⟨rfl, rfl⟩⟩

/-- The parent id apart, a row that was announced is a decision of `evaluate`. -/
def StrategyDecision.Announced (cfg : SimConfig) (d : StrategyDecision) : Prop :=
  ∃ d₀ parent, ReplayState.Signal cfg d₀ ∧
    d = { d₀ with opportunity := { d₀.opportunity with parentArbId := parent } }

theorem StrategyDecision.Announced.priced {cfg : SimConfig} {d : StrategyDecision}
    (h : d.Announced cfg) : d.opportunity.Priced cfg := by
  obtain ⟨d₀, parent, hsignal, rfl⟩ := h
  obtain ⟨hspread, hedge, hthreshold, hdepth, hvenues⟩ := hsignal.priced
  exact ⟨hspread, hedge, hthreshold, hdepth, hvenues⟩

namespace ReplayState

variable {env : Env} {cfg : SimConfig} {maxTrades : ℤ} {s s' : ReplayState}

/-- The rows of `opportunities.csv` that name an opportunity. -/
def announcedRows (s : ReplayState) : List StrategyDecision :=
  s.logs.opportunities.filter StrategyDecision.shouldTrade

theorem Notes.opportunities (h : Notes env s s') : s'.logs.opportunities = s.logs.opportunities := by
  induction h with
  | refl => rfl
  | tail _ hnote ih =>
    rw [← ih]
    cases hnote with
    | silent h => rw [h.logs]
    | block ts severity rule instrumentId details htexts => rfl
    | leg nowNs intent hsendable hrole => rfl
    | hedge nowNs intent hsendable hrole => rfl

theorem announcedRows_announce {d : StrategyDecision} (htrade : d.shouldTrade = true) :
    ∃ parent, (s.announce d).2.announcedRows = s.announcedRows ++
      [{ d with opportunity := { d.opportunity with parentArbId := parent } }] := by
  refine ⟨(s.announce d).1.parentArbId, ?_⟩
  simp [announcedRows, announce, logOpportunity, htrade]

/-- What a turn announces. -/
theorem TurnWrites.announced (ht : TurnWrites env cfg maxTrades s s')
    (h : ∀ d ∈ s.announcedRows, d.Announced cfg) : ∀ d ∈ s'.announcedRows, d.Announced cfg := by
  have hannounce : ∀ {s₁ s₂ : ReplayState} {d : StrategyDecision}, Signal cfg d → Level s s₁ →
      s₂.logs.opportunities = (s₁.announce d).2.logs.opportunities →
        ∀ d ∈ s₂.announcedRows, d.Announced cfg := by
    intro s₁ s₂ d hsignal hlevel hrows
    obtain ⟨parent, heq⟩ := @announcedRows_announce s₁ d hsignal.1
    have hrows₂ : s₂.announcedRows = (s₁.announce d).2.announcedRows :=
      congrArg (List.filter _) hrows
    have hrows₁ : s₁.announcedRows = s.announcedRows := hlevel.announced
    rw [hrows₂, heq, hrows₁]
    exact List.forall_mem_append.2 ⟨h, List.forall_mem_singleton.2 ⟨d, parent, hsignal, rfl⟩⟩
  cases ht with
  | watched hwrites hlevel =>
    have hrows : s'.announcedRows = s.announcedRows := hlevel.announced
    rw [hrows]
    exact h
  | capped d hwrites hlevel hannounced hmax hsignal => exact hannounce hsignal hlevel rfl
  | executed nowNs d hwrites hlevel hannounced hmax hstarted hparent hsignal =>
    exact hannounce hsignal hlevel (executed_wrote hstarted hparent).notes.opportunities

end ReplayState

namespace Simulator

open ReplayState

end Simulator

end Hft
