import HftArb.Sim.Legs

/-!
# Exhausted hedging

`next_order` gives the verdict to kill when a pair has used up its hedge attempts, but the loop of
`hedge_until_flat` stops before it asks.  `run_exhausted`: whenever a run returns from
`hedge_until_flat` with a residual and no attempts left, the pair is in `ERROR_RECOVERY` and the
kill switch is still on.  `exhaustionKills_disconnect` is a run that trades on after that.
-/

namespace Hft

open Execution

/-- A pair that is left with a residual and no attempts has tripped the kill switch. -/
def ExhaustionKills (cfg : RiskConfig) (pair : PairTrade) (kill : KillSwitch) : Prop :=
  pair.residual ≠ 0 → cfg.maxHedgeAttempts ≤ pair.hedgeAttempts →
    kill.enabled = false ∧ pair.state = .killSwitch

/-- How a block leaves its pair. -/
theorem HedgeShown.stopped {env : Env} {cfg : RiskConfig} {nowNs : ℕ} {x₀ : Execution}
    {pair : PairTrade} {kill : KillSwitch}
    (h : HedgeShown env cfg nowNs x₀ (.hedged pair kill)) : Stopped cfg pair kill := by
  cases h with
  | hedged hsteps hstop => exact hstop

namespace Simulator

/-- How every return of `hedge_until_flat` leaves its pair. -/
theorem stopped_of_hedged (cfg : SimConfig) (calls : List ReplayCall) (call : ReplayCall)
    (turns : ℕ) {pair : PairTrade} {kill : KillSwitch}
    (h : .hedged pair kill ∈ ((afterRuns cfg calls).replayFor call turns).trace) :
    Stopped cfg.risk pair kill := by
  have hblock := run_block cfg calls call turns _ h
  have hin := mem_ofParent h
  generalize ofParent _ _ = b at hblock hin
  cases hblock with
  | execution hs hshow =>
    have hhedge := hshow.mem hin
    simp only [reduceCtorEq, exists_false, or_self, false_or, or_false] at hhedge
    exact HedgeShown.stopped hhedge

/-- **Exhausted hedging does not kill.**  Whenever `hedge_until_flat` returns in a run with a
residual and without attempts left, the policy's verdict on the pair is to kill, and yet the pair is
in `ERROR_RECOVERY` and the kill switch is on. -/
theorem run_exhausted (cfg : SimConfig) (calls : List ReplayCall) (call : ReplayCall) (turns : ℕ)
    (pair : PairTrade) (kill : KillSwitch)
    (h : .hedged pair kill ∈ ((afterRuns cfg calls).replayFor call turns).trace)
    (hres : pair.residual ≠ 0) (hatt : cfg.risk.maxHedgeAttempts ≤ pair.hedgeAttempts) :
    ¬ ExhaustionKills cfg.risk pair kill ∧
      kill.enabled = true ∧ pair.state = .errorRecovery ∧
      ∀ nse bse, (nextOrder cfg.risk pair nse bse).kill = true ∧
        (nextOrder cfg.risk pair nse bse).reason = "MAX_HEDGE_ATTEMPTS" := by
  have hleft : pair.state = .errorRecovery ∧ kill.enabled = true := by
    rcases (stopped_of_hedged cfg calls call turns h).stuck hres with hleft | ⟨-, -, hlt⟩
    · exact hleft
    · omega
  refine ⟨fun hkills => ?_, hleft.2, hleft.1, nextOrder_maxAttempts hres hatt⟩
  have hoff := (hkills hres hatt).1
  rw [hleft.2] at hoff
  cases hoff

/-- The pair and the kill switch at a return of `hedge_until_flat`. -/
def returned : Observation → Option (PairTrade × KillSwitch)
  | .hedged pair kill => some (pair, kill)
  | _ => none

/-- With NSE out of reach the sale and three hedges are rejected. -/
theorem run_exhausted_disconnect :
    let cfg : SimConfig := { scenario := .fromName "gateway_disconnect_nse" }
    ∃ pair kill, pair.residual = 50 ∧ pair.hedgeAttempts = 3 ∧
      ¬ ExhaustionKills cfg.risk pair kill := by
  intro cfg
  have hpair : ∃ r ∈ ((afterRuns cfg []).replayFor crossedMarket 4).trace.filterMap returned,
      r.1.residual = 50 ∧ r.1.hedgeAttempts = 3 := by decide +kernel
  obtain ⟨⟨pair, kill⟩, hmem, hres, hatt⟩ := hpair
  obtain ⟨o, ho, heq⟩ := List.mem_filterMap.1 hmem
  cases o <;> cases heq
  refine ⟨pair, kill, hres, hatt, ?_⟩
  exact (run_exhausted cfg [] crossedMarket 4 pair kill ho (by rw [hres]; decide) hatt.ge).1

/-- After such a return the next opportunity buys on top of the residual. -/
theorem exhaustionKills_disconnect :
    let cfg : SimConfig := { scenario := .fromName "gateway_disconnect_nse" }
    let trace := ((afterRuns cfg []).replayFor crossedMarket 5).trace
    alphaOrders "SIM-ARB-1-2" trace ≠ [] ∧
      ¬ ∀ pair kill, .hedged pair kill ∈ trace → ExhaustionKills cfg.risk pair kill := by
  intro cfg trace
  have hrun : alphaOrders "SIM-ARB-1-2" trace ≠ [] ∧
      ∃ r ∈ trace.filterMap returned, ¬ (r.1.residual ≠ 0 →
        cfg.risk.maxHedgeAttempts ≤ r.1.hedgeAttempts →
          r.2.enabled = false ∧ r.1.state = .killSwitch) := by decide +kernel
  obtain ⟨hlater, ⟨pair, kill⟩, hmem, hfails⟩ := hrun
  obtain ⟨o, ho, heq⟩ := List.mem_filterMap.1 hmem
  cases o <;> cases heq
  exact ⟨hlater, fun hall => hfails (hall pair kill ho)⟩

end Simulator

end Hft
