import HftArb.Sim.Writes

/-!
# The counters of a run and its log files

`SimulatorResult` is what `hft_demo` prints and what the scenarios are judged by; the log files are
what is left of a run.  `run_counted`: they tell the same, at every point of every run.
-/

namespace Hft

open Transition

/-- The counters of the result are those of the log files. -/
structure ReplayState.Tallied (s : ReplayState) : Prop where
  riskBlocks : s.result.riskBlocks = s.logs.risks.length
  opportunities : s.result.opportunities = s.logs.opportunities.countP StrategyDecision.shouldTrade
  trades : s.result.trades = s.logs.pairs.length
  hedges : s.result.hedges = s.hedgeOrders
  finalState : s.result.finalState = (s.logs.pairs.getLast?.map fun p => p.state.text).getD ""

/-- The counters agree with the log files, and no limit of the run is exceeded. -/
structure ReplayState.Counted (cfg : SimConfig) (maxTrades : ℤ) (s : ReplayState) : Prop where
  tallied : s.Tallied
  /-- Every opportunity is traded, up to `max_trades`. -/
  capped : (s.result.trades : ℤ) = min (s.result.opportunities : ℤ) (max 0 maxTrades)
  /-- Two legs a trade. -/
  legs : s.legOrders ≤ 2 * s.result.trades
  /-- Every hedge is an attempt of a logged pair. -/
  hedged : (s.result.hedges : ℤ) ≤ (s.logs.pairs.map PairTrade.hedgeAttempts).sum
  attempts : ∀ p ∈ s.logs.pairs, p.hedgeAttempts ≤ max 0 cfg.risk.maxHedgeAttempts

namespace ReplayState

variable {env : Env} {cfg : SimConfig} {maxTrades : ℤ} {s s' : ReplayState}

theorem Tallied.write (h : s.Tallied) (hw : Write env s s') : s'.Tallied := by
  obtain ⟨hblocks, hopportunities, htrades, hhedges, hfinal⟩ := h
  cases hw with
  | note h =>
    cases h with
    | silent h =>
      exact ⟨by rw [h.result, h.logs]; exact hblocks, by rw [h.result, h.logs]; exact hopportunities,
        by rw [h.result, h.logs]; exact htrades,
        by rw [hedgeOrders, h.result, h.logs]; exact hhedges,
        by rw [h.result, h.logs]; exact hfinal⟩
    | block ts severity rule instrumentId details htexts =>
      refine ⟨?_, hopportunities, htrades, hhedges, hfinal⟩
      simp [riskBlock, hblocks]
    | leg nowNs intent hsend hrole =>
      have hcount := (@sendOrder_counts env _ intent hsend.sound nowNs).2
      rw [if_neg hrole, add_zero] at hcount
      exact ⟨hblocks, hopportunities, htrades, hhedges.trans hcount.symm, hfinal⟩
    | hedge nowNs intent hsend hrole =>
      have hcount := (@sendOrder_counts env _ intent hsend.sound nowNs).2
      rw [if_pos hrole, ← hhedges] at hcount
      exact ⟨hblocks, hopportunities, htrades, hcount.symm, hfinal⟩
  | watched d htrade hreason =>
    refine ⟨hblocks, ?_, htrades, hhedges, hfinal⟩
    simp [logOpportunity, hopportunities, htrade]
  | announced d htrade hreason =>
    refine ⟨hblocks, ?_, htrades, hhedges, hfinal⟩
    simp [announce, logOpportunity, hopportunities, htrade]
  | pair p hparent herror =>
    refine ⟨hblocks, hopportunities, ?_, hhedges, ?_⟩
    · simp [logPair, htrades]
    · simp [logPair]

theorem Tallied.writes (h : s.Tallied) (hw : Writes env s s') : s'.Tallied := by
  induction hw with
  | refl => exact h
  | tail _ hwrite ih => exact ih.write hwrite

/-- A turn keeps within the limits. -/
theorem Counted.turn (h : s.Counted cfg maxTrades) (ht : TurnWrites env cfg maxTrades s s') :
    s'.Counted cfg maxTrades := by
  have htallied := h.tallied.writes ht.writes
  obtain ⟨-, hcapped, hlegs, hhedged, hattempts⟩ := h
  cases ht with
  | watched h hlevel =>
    refine ⟨htallied, ?_, ?_, ?_, ?_⟩
    · rw [hlevel.trades, hlevel.opportunities]
      exact hcapped
    · rw [legOrders, hlevel.orders, hlevel.trades]
      exact hlegs
    · rw [hlevel.hedges, hlevel.pairs]
      exact hhedged
    · rw [hlevel.pairs]
      exact hattempts
  | @capped s₁ d h hlevel hannounce hmax =>
    have hopportunities : (s₁.announce d).2.result.opportunities = s.result.opportunities + 1 :=
      congrArg (· + 1) hlevel.opportunities
    have htrades : (s₁.announce d).2.result.trades = s.result.trades := hlevel.trades
    rw [hlevel.trades] at hmax
    refine ⟨htallied, ?_, ?_, ?_, ?_⟩
    · rw [htrades, hopportunities]
      omega
    · rw [htrades]
      show s₁.logs.orders.countP _ ≤ _
      rw [hlevel.orders]
      exact hlegs
    · show (s₁.result.hedges : ℤ) ≤ (s₁.logs.pairs.map _).sum
      rw [hlevel.hedges, hlevel.pairs]
      exact hhedged
    · show ∀ p ∈ s₁.logs.pairs, _
      rw [hlevel.pairs]
      exact hattempts
  | @executed s₁ nowNs d h hlevel hannounce hmax hstarted hparent =>
    have hwrote := @executed_wrote env cfg _ _ _ hstarted hparent
    have hpairs := (executed_steps env cfg nowNs (s₁.announce d).2 (s₁.announce d).1).pairs
    generalize hx : (s₁.announce d).2.executed env cfg nowNs (s₁.announce d).1 = x at hwrote hpairs
    have hend : ((s₁.announce d).2.executeOpportunity env cfg nowNs (s₁.announce d).1).countTrade =
        (x.run.logPair x.pair).observe
          (.executed (cfg.legs (s₁.announce d).1).1 (cfg.legs (s₁.announce d).1).2 x.pair) := by
      rw [← hx]
      rfl
    rw [hend] at htallied ⊢
    have hopportunities : x.run.result.opportunities = s.result.opportunities + 1 :=
      hwrote.result.1.trans (congrArg (· + 1) hlevel.opportunities)
    have htrades : x.run.result.trades = s.result.trades := hwrote.result.2.trans hlevel.trades
    have hlogged : x.run.logs.pairs = s.logs.pairs := hpairs.trans hlevel.pairs
    have hcount := hwrote.legs
    have hlegs₁ : ReplayState.legOrders (s₁.announce d).2 = s.legOrders := by
      show s₁.logs.orders.countP _ = s.logs.orders.countP _
      rw [hlevel.orders]
    have hhedges₁ : (s₁.announce d).2.result.hedges = s.result.hedges := hlevel.hedges
    have hnone : (PairTrade.fromOpportunity (s₁.announce d).1).hedgeAttempts = 0 := rfl
    have hhedges := hwrote.hedges
    rw [hlevel.trades] at hmax
    refine ⟨htallied, ?_, ?_, ?_, ?_⟩
    · show ((x.run.result.trades + 1 : ℕ) : ℤ) = min (x.run.result.opportunities : ℤ) _
      rw [htrades, hopportunities]
      omega
    · show x.run.legOrders ≤ 2 * (x.run.result.trades + 1)
      rw [htrades]
      simp only at hcount
      omega
    · show (x.run.result.hedges : ℤ) ≤ ((x.run.logs.pairs ++ [x.pair]).map _).sum
      rw [hlogged, List.map_append, List.sum_append]
      simp only [hhedges₁, hnone] at hhedges
      simp only [List.map_cons, List.map_nil, List.sum_singleton]
      omega
    · show ∀ p ∈ x.run.logs.pairs ++ [x.pair], _
      rw [hlogged]
      refine List.forall_mem_append.2 ⟨hattempts, List.forall_mem_singleton.2 (hwrote.attempts ?_)⟩
      exact le_max_left _ _

end ReplayState

namespace Simulator

open ReplayState

theorem counted_replayFor (cfg : SimConfig) (calls : List ReplayCall) (call : ReplayCall)
    (turns : ℕ) : ((afterRuns cfg calls).replayFor call turns).Counted cfg call.maxTrades := by
  have hcfg := (afterRuns_spec cfg calls).2
  refine replayFor_writes (I := Counted cfg call.maxTrades) (afterRuns_spec cfg calls).1
    (afterRuns_keyed cfg calls) ?_ (fun s md h => ?_) (fun s s' _ h ht => ?_) turns
  · refine ⟨⟨rfl, rfl, rfl, rfl, rfl⟩, ?_, le_rfl, le_rfl, fun p hp => nomatch hp⟩
    show ((0 : ℕ) : ℤ) = min ((0 : ℕ) : ℤ) (max 0 call.maxTrades)
    omega
  · exact ⟨⟨h.tallied.riskBlocks, h.tallied.opportunities, h.tallied.trades, h.tallied.hedges,
      h.tallied.finalState⟩, h.capped, h.legs, h.hedged, h.attempts⟩
  · rw [hcfg] at ht
    exact h.turn ht

/-- **The counters of a run agree with its log files**, at every point of every run of a simulator
that may have run before: every blocked order and unhealthy feed is a row of `risk_events.csv`, every
trade a row of `pair_trades.csv`, every hedge a row of `orders.csv`; all opportunities are traded up
to `max_trades`, with two legs each and no more hedges than the limit allows. -/
theorem run_counted (cfg : SimConfig) (calls : List ReplayCall) (call : ReplayCall) (turns : ℕ) :
    ((afterRuns cfg calls).replayFor call turns).Counted cfg call.maxTrades :=
  counted_replayFor cfg calls call turns

end Simulator

end Hft
