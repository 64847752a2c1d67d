import HftArb.Sim.AtQuote
import HftArb.Sim.Observations
import HftArb.Sim.RiskGate

/-!
# A pair at the prices it was decided on

If both legs are approved and the scenario lets them pass, each is filled in full at its own price
(`sendOne_filled`), the pair is flat after the second leg and nothing is left to hedge.  What the
instrument has gained is then read off the two fills (`run_cleanPair`).
-/

namespace Hft

open Execution

namespace Execution

variable {env : Env} {nowNs : ℕ} {x x' : Execution} {intent : OrderIntent} {nse bse : BestQuote}

/-- A leg that was sent and filled in full, at `ts`. -/
structure FilledLeg (env : Env) (nowNs : ℕ) (x : Execution) (intent : OrderIntent) (ts : ℕ)
    (x' : Execution) : Prop where
  sound : x'.run.Sound
  fills : x'.run.oms.fills =
    x.run.oms.fills ++ [fullFill intent (x.run.oms.nextId intent) ts]
  intents : ∀ k, x'.run.oms.intentOf k =
    if k = x.run.oms.nextId intent then some intent else x.run.oms.intentOf k
  scenario : x'.run.gateway.scenario = x.run.gateway.scenario
  gateway : ∃ order : Order, order.intent = intent ∧
    x'.run.gateway = (x.run.gateway.send env order).2
  result : x'.run.result = x.run.result

/-- **A leg at the quote** that is approved and that the scenario lets pass is filled in full. -/
theorem sendOne_filled (h : x.run.Sound) (hat : AtQuote x.run.gateway intent)
    (hpermits : x.run.gateway.scenario.Permits intent)
    (happ : (x.legCheck nowNs nse bse intent).approved = true) :
    ∃ ts, FilledLeg env nowNs x intent ts (sendOne env nowNs nse bse x intent) := by
  rcases sendOne_cases env nowNs nse bse x intent with ⟨hno, -⟩ | ⟨-, heq⟩
  · exact absurd (happ.symm.trans hno) (by decide)
  · rw [heq]
    have hqty : 0 < intent.qty := (RiskEngine.checkOrder_approved.1 happ).1.qty.1
    have hchecked : (x.checkLeg nowNs (quoteFor nse bse intent.venue) intent).2.run.Sound :=
      ⟨h.books, h.known, h.taken⟩
    have hsubmitted := submit_submitted hchecked env nowNs intent
    obtain ⟨ts, hnew⟩ := @newFills_permitted env nowNs _ _ hchecked hat hpermits hqty
    have hgateway := gateway_submit hchecked env nowNs intent
    obtain ⟨b, level, hb, -, -⟩ := hat.level
    obtain ⟨ts', hsend⟩ := @MatchingEngine.send_matched _ _
      (OrderManager.newOrder intent (x.run.oms.nextId intent) nowNs)
      hpermits.connected hpermits.role hb env
    refine ⟨ts, ?_, ?_, ?_, ?_, ?_, ?_⟩ <;> rw [failLeg_run]
    · exact hsubmitted.sound
    · rw [hsubmitted.fills, hnew]
      rfl
    · exact intentOf_submit hchecked env nowNs intent
    · rw [hgateway]
      exact congrArg (fun res => res.2.scenario) hsend
    · exact ⟨_, rfl, hgateway⟩
    · rfl

end Execution

namespace ReplayState

variable {env : Env} {cfg : SimConfig} {nowNs : ℕ} {s : ReplayState} {opp : ArbOpportunity}

/-- The two legs were filled in full, each by one fill under an order of its own. -/
structure FilledLegs (first second : OrderIntent) (m m' : OrderManager) (f₁ f₂ : Fill) : Prop where
  fills : m'.fills = m.fills ++ [f₁, f₂]
  firstFill : ∃ ts, f₁ = fullFill first f₁.clientOrderId ts
  secondFill : ∃ ts, f₂ = fullFill second f₂.clientOrderId ts
  orders : m'.intentOf f₁.clientOrderId = some first ∧ m'.intentOf f₂.clientOrderId = some second
  distinct : f₁.clientOrderId ≠ f₂.clientOrderId
  fresh : m.intentOf f₁.clientOrderId = none ∧ m.intentOf f₂.clientOrderId = none

theorem sendLegs_filled (h : Started cfg nowNs s opp)
    (happ : (s.legChecks env cfg nowNs opp).1.approved = true ∧
      (s.legChecks env cfg nowNs opp).2.approved = true)
    (hpermits : s.gateway.scenario.Permits (cfg.legs opp).1 ∧
      s.gateway.scenario.Permits (cfg.legs opp).2) :
    ∃ f₁ f₂, FilledLegs (cfg.legs opp).1 (cfg.legs opp).2 s.oms
        (s.sendLegs env nowNs opp (cfg.legs opp).1 (cfg.legs opp).2).run.oms f₁ f₂ ∧
      (s.sendLegs env nowNs opp (cfg.legs opp).1 (cfg.legs opp).2).run.result = s.result := by
  obtain ⟨hat₁, hat₂, hvenues⟩ := h.atQuote
  obtain ⟨ts₁, hfirst⟩ := @sendOne_filled env _ ⟨s, .fromOpportunity opp⟩ _ _ _ h.sound hat₁
    hpermits.1 happ.1
  generalize hx : Execution.sendOne env nowNs (s.quoteOr .nse opp.instrumentId nowNs)
    (s.quoteOr .bse opp.instrumentId nowNs) ⟨s, .fromOpportunity opp⟩ (cfg.legs opp).1 = x at hfirst
  -- the first leg has left the book of the second alone
  have hat : AtQuote x.run.gateway (cfg.legs opp).2 := by
    obtain ⟨order, hintent, hgateway⟩ := hfirst.gateway
    rw [hgateway]
    exact MatchingEngine.atQuote_send hat₂ env (by rw [hintent]; exact hvenues)
  have hpermits₂ : x.run.gateway.scenario.Permits (cfg.legs opp).2 := by
    rw [hfirst.scenario]
    exact hpermits.2
  have happ₂ := happ.2
  simp only [legChecks, hx] at happ₂
  obtain ⟨ts₂, hsecond⟩ := @sendOne_filled env _ _ _ _ _ hfirst.sound hat hpermits₂ happ₂
  have hrun : s.sendLegs env nowNs opp (cfg.legs opp).1 (cfg.legs opp).2 =
      Execution.sendOne env nowNs (s.quoteOr .nse opp.instrumentId nowNs)
        (s.quoteOr .bse opp.instrumentId nowNs) x (cfg.legs opp).2 := by rw [← hx]; rfl
  rw [hrun]
  have hnone : x.run.oms.intentOf (x.run.oms.nextId (cfg.legs opp).2) = none :=
    OrderManager.intentOf_nextId hfirst.sound.known _
  have hsome : x.run.oms.intentOf (s.oms.nextId (cfg.legs opp).1) = some (cfg.legs opp).1 := by
    rw [hfirst.intents]
    exact if_pos rfl
  have hne : s.oms.nextId (cfg.legs opp).1 ≠ x.run.oms.nextId (cfg.legs opp).2 := fun heq => by
    rw [← heq, hsome] at hnone
    cases hnone
  refine ⟨fullFill (cfg.legs opp).1 (s.oms.nextId (cfg.legs opp).1) ts₁,
    fullFill (cfg.legs opp).2 (x.run.oms.nextId (cfg.legs opp).2) ts₂,
    ⟨?_, ⟨ts₁, rfl⟩, ⟨ts₂, rfl⟩, ⟨?_, ?_⟩, hne, ?_, ?_⟩,
    hsecond.result.trans hfirst.result⟩
  · rw [hsecond.fills, hfirst.fills, List.append_assoc]
    rfl
  · rw [hsecond.intents]
    exact (if_neg hne).trans hsome
  · rw [hsecond.intents]
    exact if_pos rfl
  · exact OrderManager.intentOf_nextId h.sound.known _
  · have hold := hfirst.intents (x.run.oms.nextId (cfg.legs opp).2)
    rw [hnone] at hold
    exact (hold.trans (if_neg hne.symm)).symm

/-- The fills of the two legs cancel in quantity and leave the spread. -/
theorem sum_legs (cfg : SimConfig) (opp : ArbOpportunity) (id₁ id₂ : String) (ts₁ ts₂ : ℕ) :
    let fs := [fullFill (cfg.legs opp).1 id₁ ts₁, fullFill (cfg.legs opp).2 id₂ ts₂]
    (fs.map Fill.signedQty).sum = 0 ∧
      (fs.map Fill.cash).sum = opp.qty * (opp.sellPricePaise - opp.buyPricePaise) := by
  intro fs
  simp only [fs, SimConfig.legs]
  split_ifs <;>
    simp only [List.map_cons, List.map_nil, List.sum_cons, List.sum_nil, Fill.signedQty, Fill.cash,
      Fill.notional, fullFill, ArbOpportunity.sell, ArbOpportunity.buy, Side.sign] <;>
    constructor <;> ring

/-- What an execution did in which both legs were filled in full. -/
structure CleanPair (cfg : SimConfig) (opp : ArbOpportunity) (s s' : ReplayState) : Prop where
  fills : ∃ f₁ f₂, FilledLegs (cfg.legs opp).1 (cfg.legs opp).2 s.oms s'.oms f₁ f₂
  pair : ∃ p, s'.logs.pairs = s.logs.pairs ++ [p] ∧ p.parentId = opp.parentArbId ∧ p.state = .flat
  sent : submissions s'.trace = submissions s.trace ++ [(cfg.legs opp).1, (cfg.legs opp).2]
  hedges : s'.result.hedges = s.result.hedges
  cash : s'.oms.positions.cashPaise opp.instrumentId =
    s.oms.positions.cashPaise opp.instrumentId + opp.qty * opp.grossSpreadPaise
  edge : opp.qty * (cfg.costs.allInCostPaise +
      max cfg.strategy.minNetEdgePaise cfg.costs.minNetEdgePaise) ≤
    opp.qty * opp.grossSpreadPaise

theorem submissions_legsShown {rd : RiskDecision × RiskDecision}
    (h : rd.1.approved = true ∧ rd.2.approved = true) :
    submissions (legsShown cfg opp rd) = [(cfg.legs opp).1, (cfg.legs opp).2] := by
  rw [legsShown, legShown, legShown, h.1, h.2]
  rfl

/-- **An execution at the quote.** -/
theorem executeOpportunity_clean (h : Started cfg nowNs s opp)
    (happ : (s.legChecks env cfg nowNs opp).1.approved = true ∧
      (s.legChecks env cfg nowNs opp).2.approved = true)
    (hpermits : s.gateway.scenario.Permits (cfg.legs opp).1 ∧
      s.gateway.scenario.Permits (cfg.legs opp).2) :
    CleanPair cfg opp s (s.executeOpportunity env cfg nowNs opp).countTrade := by
  obtain ⟨f₁, f₂, hfilled, hresult⟩ := sendLegs_filled h happ hpermits
  have htrace := (sendLegs_spec env cfg nowNs s opp).trace
  have hsteps := sendLegs_steps env cfg nowNs s opp
  obtain ⟨cur, ht⟩ := hsteps.tracks (tracks_start h.sound opp)
  have hexecuted : s.executed env cfg nowNs opp =
      hedgeLegs env cfg.risk nowNs (s.sendLegs env nowNs opp (cfg.legs opp).1 (cfg.legs opp).2) :=
    rfl
  obtain ⟨homs, -, -, -, -, hpairs, hshown⟩ := executeOpportunity_eq env cfg nowNs s opp
  generalize s.sendLegs env nowNs opp (cfg.legs opp).1 (cfg.legs opp).2 = x at *
  rw [List.nil_append] at ht
  have hcur : cur = [f₁, f₂] := List.append_cancel_left (ht.fills.symm.trans hfilled.fills)
  subst hcur
  obtain ⟨ts₁, hf₁⟩ := hfilled.firstFill
  obtain ⟨ts₂, hf₂⟩ := hfilled.secondFill
  obtain ⟨hqty, hcash⟩ := sum_legs cfg opp f₁.clientOrderId f₂.clientOrderId ts₁ ts₂
  rw [← hf₁, ← hf₂] at hqty hcash
  have hres : x.pair.residual = 0 := ht.totals.residual.trans hqty
  -- with nothing left to hedge the pair is flat
  have hflat : s.executed env cfg nowNs opp =
      { x with pair := { x.pair with state := .flat } } := by
    rw [hexecuted, hedgeLegs]
    simp only [hres, ne_eq, not_true_eq_false, if_false, if_true]
  have hinst : x.pair.instrumentId = opp.instrumentId := hsteps.sameTrade.instrumentId
  rw [hflat] at homs hpairs hshown
  have hgain : 0 < opp.qty := by
    have hpos := (RiskEngine.checkOrder_approved.1 happ.1).1.qty.1
    rwa [(legs_own cfg opp _ (Or.inl rfl)).2.2.2] at hpos
  refine ⟨⟨f₁, f₂, ?_⟩, ⟨{ x.pair with state := .flat }, ?_, ?_, rfl⟩, ?_, ?_, ?_, ?_⟩
  · show FilledLegs _ _ s.oms (s.executeOpportunity env cfg nowNs opp).oms f₁ f₂
    rw [homs]
    exact hfilled
  · show (s.executeOpportunity env cfg nowNs opp).logs.pairs = _
    rw [hpairs, ht.pairs]
  · exact hsteps.sameTrade.parentId
  · show submissions (s.executeOpportunity env cfg nowNs opp).trace = _
    rw [hshown, htrace, submissions_append, submissions_append, submissions_legsShown happ]
    exact List.append_nil _
  · show (s.executed env cfg nowNs opp).run.result.hedges = _
    rw [hflat, hresult]
  · show (s.executeOpportunity env cfg nowNs opp).oms.positions.cashPaise _ = _
    rw [homs, ht.cashPaise, ht.totals.cash, hcash, if_pos hinst, h.visible.gross]
  · exact mul_le_mul_of_nonneg_left h.visible.edge hgain.le

end ReplayState

/-! ### The scenario of a run -/

/-- The scenario `sc'` is `sc` after some of its rejections. -/
def ScenarioConfig.Later (sc sc' : ScenarioConfig) : Prop :=
  ∃ roles ⊆ sc.rejectRolesOnce, sc' = { sc with rejectRolesOnce := roles }

namespace ScenarioConfig

variable {sc sc' sc'' : ScenarioConfig} {intent : OrderIntent}

theorem Later.refl (sc : ScenarioConfig) : Later sc sc := ⟨_, subset_rfl, rfl⟩

theorem Later.trans (h : Later sc sc') (h' : Later sc' sc'') : Later sc sc'' := by
  obtain ⟨roles, hsub, rfl⟩ := h
  obtain ⟨roles', hsub', rfl⟩ := h'
  exact ⟨roles', hsub'.trans hsub, rfl⟩

/-- What a scenario lets pass it lets pass later. -/
theorem Later.permits (h : Later sc sc') (hp : sc.Permits intent) : sc'.Permits intent := by
  obtain ⟨roles, hsub, rfl⟩ := h
  exact ⟨hp.connected, fun hrole => hp.role (hsub hrole), hp.cap⟩

theorem later_shouldReject (sc : ScenarioConfig) (role : OrderRole) :
    Later sc (sc.shouldReject role).2 := by
  unfold shouldReject
  split_ifs
  · exact ⟨_, Finset.erase_subset _ _, rfl⟩
  · exact .refl sc

end ScenarioConfig

theorem MatchingEngine.later_send (env : Env) (g : MatchingEngine) (order : Order) :
    g.scenario.Later (g.send env order).2.scenario := by
  have hrole := g.scenario.later_shouldReject order.intent.role
  unfold send
  dsimp only
  split_ifs
  · exact .refl _
  · exact hrole
  · split <;> exact hrole

theorem Execution.Steps.later {env : Env} {nowNs : ℕ} {x x' : Execution}
    (h : Steps env nowNs x x') (hs : x.run.Sound) :
    x.run.gateway.scenario.Later x'.run.gateway.scenario := by
  induction h with
  | refl => exact .refl _
  | tail hy hstep ih =>
    cases hstep with
    | quiet hq =>
      rw [hq.gateway]
      exact ih
    | submit intent hclear =>
      rw [gateway_submit (Steps.sound hy hs)]
      exact ih.trans (MatchingEngine.later_send env _ _)

theorem ReplayState.ItemTurn.later {env : Env} {cfg : SimConfig} {maxTrades : ℤ}
    {s s' : ReplayState} {item : MdResult} (h : ItemTurn env cfg maxTrades s item s')
    (hs : s.Sound) : s.gateway.scenario.Later s'.gateway.scenario := by
  have hevent : ∀ ev, (s.onBookEvent item ev).gateway.scenario = s.gateway.scenario := fun ev => by
    rw [gateway_onBookEvent]
  cases h with
  | skip h => exact .refl _
  | watch ev h hnoted =>
    rw [hnoted.gateway, hevent]
    exact .refl _
  | execute ev nse bse h htrades =>
    rw [← hevent ev]
    have hsteps := executed_steps env cfg ev.tsIngestNs (s.opened cfg item ev nse bse).2
      (s.opened cfg item ev nse bse).1
    exact Steps.later hsteps (sound_opened hs item ev nse bse)

/-! ### Runs -/

namespace Simulator

open ReplayState

/-- The scenario of a run is the configured one, after some of its rejections. -/
theorem run_later (cfg : SimConfig) (calls : List ReplayCall) (call : ReplayCall) (n : ℕ) :
    cfg.scenario.Later ((afterRuns cfg calls).replayFor call n).gateway.scenario := by
  refine (replayFor_from (I := fun s => s.Filed ∧ cfg.scenario.Later s.gateway.scenario)
    (Nat.zero_le n) ⟨run_filed cfg calls call 0, ?_⟩ ?_ ?_).2
  · show cfg.scenario.Later (afterRuns cfg calls).cfg.scenario
    rw [(afterRuns_spec cfg calls).2]
    exact .refl _
  · rintro s md ⟨hs, hlater⟩ -
    exact ⟨hs.read md, hlater⟩
  · rintro s item md s' ⟨hs, hlater⟩ - hturn
    exact ⟨(hs.read md).turn hturn, hlater.trans (hturn.later (hs.read md).balanced.sound)⟩

theorem hedges_onBookEvent (s : ReplayState) (item : MdResult) (ev : BookEvent ℤ) :
    (s.onBookEvent item ev).result.hedges = s.result.hedges := by
  unfold onBookEvent
  dsimp only
  split_ifs <;> rfl

/-- **A visible arbitrage is executed at the price it was decided on.**  Suppose that in some turn
of a run, of a simulator that may have run before, `evaluate` wants to trade, that `max_trades` is
not reached, so that the risk engine is asked, that it approves both legs, and that the scenario, as
configured or as it is at that moment, lets both pass in full.  Then each leg gets one fill, of the
whole quantity and at its own price, the pair ends flat with no hedge order sent, and the cash of
the instrument rises by quantity times spread, which covers costs and minimum edge. -/
theorem run_cleanPair (cfg : SimConfig) (calls : List ReplayCall) (call : ReplayCall) (n : ℕ)
    {item : MdResult} {md : MarketDataHandler} {ev : BookEvent ℤ} {nse bse : BestQuote}
    {s s₁ : ReplayState} {opp : ArbOpportunity} (hs : s = (afterRuns cfg calls).replayFor call n)
    (hnext : s.md.next = (some item, md))
    (hdecides : Decides cfg { s with md := md } item ev nse bse)
    (hopened : { s with md := md }.opened cfg item ev nse bse = (opp, s₁))
    (htrades : s₁.result.trades < call.maxTrades)
    (happ : (s₁.legChecks call.env cfg ev.tsIngestNs opp).1.approved = true ∧
      (s₁.legChecks call.env cfg ev.tsIngestNs opp).2.approved = true)
    (hpermits : ∀ leg, leg = (cfg.legs opp).1 ∨ leg = (cfg.legs opp).2 →
      cfg.scenario.Permits leg ∨ s.gateway.scenario.Permits leg) :
    CleanPair cfg opp s ((afterRuns cfg calls).replayFor call (n + 1)) := by
  have hfiled := run_filed cfg calls call n
  have hlater := run_later cfg calls call n
  have hsucc := @replayFor_succ (afterRuns cfg calls) call n _ _ (hs ▸ hnext)
  rw [(afterRuns_spec cfg calls).2] at hsucc
  rw [← hs] at hfiled hlater hsucc
  have hexecutes : ({ s with md := md } : ReplayState).onItem call.env cfg call.maxTrades item =
      (s₁.executeOpportunity call.env cfg ev.tsIngestNs opp).countTrade := by
    rw [onItem_decides hdecides (by rw [hopened]; exact htrades), hopened]
  have hstarted := hdecides.started (hfiled.read md)
  rw [hopened] at hstarted
  -- the event has changed nothing but the books
  obtain ⟨hquiet, -⟩ := quiet_onBookEvent (s := { s with md := md }) item ev
  have hs₁ : s₁ = (({ s with md := md } : ReplayState).opened cfg item ev nse bse).2 := by
    rw [hopened]
  have homs : s₁.oms = s.oms := by rw [hs₁]; exact hquiet.oms
  have hpairs : s₁.logs.pairs = s.logs.pairs := by rw [hs₁]; exact hquiet.logs.2
  have htrace : s₁.trace = s.trace := by rw [hs₁]; exact hquiet.trace
  have hhedges : s₁.result.hedges = s.result.hedges := by
    rw [hs₁]
    exact hedges_onBookEvent _ item ev
  have hscenario : s₁.gateway.scenario = s.gateway.scenario := by
    rw [hs₁]
    show (onBookEvent _ item ev).gateway.scenario = _
    rw [gateway_onBookEvent]
  have hpass : ∀ leg, leg = (cfg.legs opp).1 ∨ leg = (cfg.legs opp).2 →
      s₁.gateway.scenario.Permits leg := by
    intro leg hleg
    rw [hscenario]
    rcases hpermits leg hleg with hconfigured | hnow
    · exact hlater.permits hconfigured
    · exact hnow
  have hclean := executeOpportunity_clean hstarted happ ⟨hpass _ (Or.inl rfl), hpass _ (Or.inr rfl)⟩
  rw [hsucc, hexecutes]
  obtain ⟨hfills, hpair, hsent, hunhedged, hcash, hedge⟩ := hclean
  rw [homs] at hfills hcash
  rw [hpairs] at hpair
  rw [htrace] at hsent
  rw [hhedges] at hunhedged
  exact ⟨hfills, hpair, hsent, hunhedged, hcash, hedge⟩

/-- The decision that a state is about to take. -/
def nextDecision (cfg : SimConfig) (s : ReplayState) :
    Option (MdResult × BookEvent ℤ × BestQuote × BestQuote) :=
  s.md.next.1.bind fun item => item.event.bind fun ev =>
    let books := ({ s with md := s.md.next.2 }.onBookEvent item ev).gateway.books
    (books.quote .nse ev.instrumentId ev.tsIngestNs).bind fun nse =>
      (books.quote .bse ev.instrumentId ev.tsIngestNs).bind fun bse =>
        if s.md.next.2.health.isHealthy .nse ev.instrumentId = true ∧
            s.md.next.2.health.isHealthy .bse ev.instrumentId = true ∧
            (evaluate cfg.strategy nse bse cfg.costs ev.tsIngestNs).shouldTrade = true then
          some (item, ev, nse, bse)
        else none

theorem nextDecision_some {cfg : SimConfig} {s : ReplayState} {item : MdResult} {ev : BookEvent ℤ}
    {nse bse : BestQuote} (h : nextDecision cfg s = some (item, ev, nse, bse)) :
    s.md.next = (some item, s.md.next.2) ∧
      Decides cfg { s with md := s.md.next.2 } item ev nse bse := by
  obtain ⟨item', hitem, h⟩ := Option.bind_eq_some_iff.1 h
  obtain ⟨ev', hev, h⟩ := Option.bind_eq_some_iff.1 h
  obtain ⟨nse', hnse, h⟩ := Option.bind_eq_some_iff.1 h
  obtain ⟨bse', hbse, h⟩ := Option.bind_eq_some_iff.1 h
  split_ifs at h with hif
  cases h
  exact ⟨Prod.ext hitem rfl, hev, hnse, hbse, ⟨hif.1, hif.2.1⟩, hif.2.2⟩

/-- The clean scenario lets everything pass. -/
theorem permits_clean (leg : OrderIntent) : ({} : ScenarioConfig).Permits leg :=
  ⟨by simp [ScenarioConfig.disconnected], by simp, by simp⟩

/-- In the clean scenario the fourth event of the crossed market is traded at 100 against 120. -/
theorem run_cleanPair_crossed :
    ∃ opp : ArbOpportunity, opp.buyPricePaise = 100 ∧ opp.sellPricePaise = 120 ∧ opp.qty = 50 ∧
      CleanPair {} opp ((afterRuns {} []).replayFor crossedMarket 3)
        ((afterRuns {} []).replayFor crossedMarket 4) := by
  have hrun : ∃ d ∈ (nextDecision {} ((afterRuns {} []).replayFor crossedMarket 3)).toList,
      let s := (afterRuns {} []).replayFor crossedMarket 3
      let o := ({ s with md := s.md.next.2 } : ReplayState).opened {} d.1 d.2.1 d.2.2.1 d.2.2.2
      (o.1.buyPricePaise = 100 ∧ o.1.sellPricePaise = 120 ∧ o.1.qty = 50) ∧
        o.2.result.trades < crossedMarket.maxTrades ∧
        (o.2.legChecks crossedMarket.env {} d.2.1.tsIngestNs o.1).1.approved = true ∧
        (o.2.legChecks crossedMarket.env {} d.2.1.tsIngestNs o.1).2.approved = true := by
    decide +kernel
  obtain ⟨s, hs⟩ : ∃ s, s = (afterRuns {} []).replayFor crossedMarket 3 := ⟨_, rfl⟩
  rw [← hs] at hrun ⊢
  obtain ⟨⟨item, ev, nse, bse⟩, hd, hprices, htrades, happ⟩ := hrun
  obtain ⟨hnext, hdecides⟩ := nextDecision_some (Option.mem_toList.1 hd)
  exact ⟨_, hprices.1, hprices.2.1, hprices.2.2,
    run_cleanPair {} [] crossedMarket 3 hs hnext hdecides rfl htrades happ
      fun leg _ => Or.inl (permits_clean leg)⟩

end Simulator

end Hft
