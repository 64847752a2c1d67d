import HftArb.Sim.Blocks

/-!
# The risk gate of a hedge

`candidate_for_venue` sizes a hedge by residual, depth and `max_order_qty`; `check_order` then has
its own list of limits.  `staticBlock_hedge` compares the two on one order: what is left to chance is
the kill switch, the notional and the order rate.  `run_hedgeGate` carries this to every hedge point
of every run, where the position cap is met because a hedge moves the position back towards the one
the pair started from; `hedgeGate_notional` is a run in which the notional blocks a hedge.
-/

namespace Hft

open Execution

/-! ### One order -/

section Order

variable {cfg : RiskConfig} {p : PairTrade} {v : Venue} {q : BestQuote} {e : RiskEngine}
  {positions : PositionBook} {nowNs : ℕ}

/-- The quantity of a hedge does not exceed the residual, and its side reduces it. -/
theorem hedgeIntent_effect (hres : p.residual ≠ 0) (hqty : 0 < (hedgeIntent cfg p v q).qty) :
    (0 < p.residual ∧ -p.residual ≤ RiskEngine.signedEffect (hedgeIntent cfg p v q) ∧
        RiskEngine.signedEffect (hedgeIntent cfg p v q) < 0) ∨
      (p.residual < 0 ∧ 0 < RiskEngine.signedEffect (hedgeIntent cfg p v q) ∧
        RiskEngine.signedEffect (hedgeIntent cfg p v q) ≤ -p.residual) := by
  unfold RiskEngine.signedEffect
  rcases lt_or_gt_of_ne hres with hneg | hpos
  · right
    have hle : (hedgeIntent cfg p v q).qty ≤ -p.residual := by
      simp only [hedgeIntent, if_neg hneg.not_gt]
      omega
    have hside : (hedgeIntent cfg p v q).side = .buy := if_neg hneg.not_gt
    rw [if_pos hside]
    omega
  · left
    have hle : (hedgeIntent cfg p v q).qty ≤ p.residual := by
      simp only [hedgeIntent, if_pos hpos]
      omega
    have hside : (hedgeIntent cfg p v q).side = .sell := if_pos hpos
    rw [if_neg (by rw [hside]; decide)]
    omega

/-- A position that is the residual away from one within the cap stays within it when hedged. -/
theorem abs_hedged_le {net residual effect cap : ℤ} (hnow : |net| ≤ cap)
    (hstart : |net - residual| ≤ cap)
    (heffect : (0 < residual ∧ -residual ≤ effect ∧ effect < 0) ∨
      (residual < 0 ∧ 0 < effect ∧ effect ≤ -residual)) : |net + effect| ≤ cap := by
  rw [abs_le] at hnow hstart ⊢
  omega

/-- **A hedge and the limits.**  Kill switch and notional aside, an order of the policy meets every
limit before the order rate. -/
theorem staticBlock_hedge (hcfg : e.cfg = cfg) (hband : 0 ≤ cfg.priceBandPaise)
    (hsend : (candidateForVenue cfg p v q).shouldSend = true)
    (hcap : |positions.netQty p.instrumentId +
      RiskEngine.signedEffect (hedgeIntent cfg p v q)| ≤ cfg.maxPositionQty) :
    e.staticBlock id positions (hedgeIntent cfg p v q) q =
      if ¬ e.kill.enabled then some (.block "KILL_SWITCH" e.kill.reason)
      else if (hedgeIntent cfg p v q).qty * (hedgeIntent cfg p v q).pricePaise >
          cfg.maxNotionalPaise then
        some (.block "MAX_NOTIONAL" "order notional too high")
      else none := by
  obtain ⟨-, hvalid, hage, hqty⟩ := candidateForVenue_send hsend
  have hquote : 0 < q.bidPxPaise ∧ 0 < q.askPxPaise := by
    simp only [BestQuote.valid, decide_eq_true_eq] at hvalid
    exact ⟨hvalid.2.2.1, hvalid.2.2.2.1⟩
  have hlimit : ¬ ((hedgeIntent cfg p v q).qty ≤ 0 ∨
      (hedgeIntent cfg p v q).qty > e.cfg.maxOrderQty) := by
    have hle : (hedgeIntent cfg p v q).qty ≤ cfg.maxOrderQty := by
      simp only [hedgeIntent]
      split_ifs <;> exact min_le_right _ _
    rw [hcfg]
    omega
  have hprice : ¬ (hedgeIntent cfg p v q).pricePaise ≤ 0 := by
    simp only [hedgeIntent]
    split_ifs <;> omega
  have hbuy : ¬ ((hedgeIntent cfg p v q).side = .buy ∧ q.askPxPaise > 0 ∧
      (hedgeIntent cfg p v q).pricePaise > q.askPxPaise + e.cfg.priceBandPaise) := by
    rw [hcfg]
    simp only [hedgeIntent]
    split_ifs
    · simp
    · omega
  have hsell : ¬ ((hedgeIntent cfg p v q).side = .sell ∧ q.bidPxPaise > 0 ∧
      (hedgeIntent cfg p v q).pricePaise < q.bidPxPaise - e.cfg.priceBandPaise) := by
    rw [hcfg]
    simp only [hedgeIntent]
    split_ifs
    · omega
    · simp
  have hfresh : ¬ q.bookAgeUs > e.cfg.maxBookAgeUs := by
    rw [hcfg]
    omega
  have hposition : ¬ |positions.netQty (hedgeIntent cfg p v q).instrumentId +
      RiskEngine.signedEffect (hedgeIntent cfg p v q)| > e.cfg.maxPositionQty := by
    rw [hcfg]
    exact hcap.not_gt
  unfold RiskEngine.staticBlock
  simp only [id, RiskEngine.effectIn_id]
  rw [if_neg (not_not.2 hvalid), if_neg hfresh, if_neg hlimit, if_neg hprice, if_neg hposition,
    if_neg hbuy, if_neg hsell, hcfg]

end Order

/-! ### Runs -/

/-- The position after a hedge is within the cap. -/
theorem hedge_within {env : Env} {cfg : SimConfig} {nowNs : ℕ} {s : ReplayState}
    {opp : ArbOpportunity} {y : Execution} {v : Venue} {q : BestQuote} (hs : s.Guarded cfg)
    (hsteps : Steps env nowNs ⟨s, .fromOpportunity opp⟩ y) (hres : y.pair.residual ≠ 0)
    (hqty : 0 < (hedgeIntent cfg.risk y.pair v q).qty) :
    |y.run.oms.positions.netQty y.pair.instrumentId +
      RiskEngine.signedEffect (hedgeIntent cfg.risk y.pair v q)| ≤ cfg.risk.maxPositionQty := by
  obtain ⟨cur, ht⟩ := hsteps.tracks (tracks_start hs.balanced.sound opp)
  have hcapped := hs.steps hsteps
  have hcap : max cfg.risk.maxPositionQty 0 = cfg.risk.maxPositionQty :=
    max_eq_left (hcapped.residual hres)
  have hnow := hcapped.now y.pair.instrumentId
  have hstart := hs.now y.pair.instrumentId
  have hnet := ht.netQty y.pair.instrumentId
  rw [if_pos rfl] at hnet
  rw [hcap] at hnow hstart
  refine abs_hedged_le hnow ?_ (hedgeIntent_effect hres hqty)
  rwa [hnet, add_sub_cancel_right]

/-- What `check_order` says to an order of the policy. -/
theorem HedgeShown.check {env : Env} {cfg : SimConfig} {nowNs : ℕ} {s : ReplayState}
    {opp : ArbOpportunity} {h : HedgePoint} (hs : s.Guarded cfg)
    (hband : 0 ≤ cfg.risk.priceBandPaise)
    (hshow : HedgeShown env cfg.risk nowNs ⟨s, .fromOpportunity opp⟩ (.hedging h))
    (hsend : (h.decision cfg.risk).shouldSend = true) :
    h.risk.staticBlock id h.positions (h.decision cfg.risk).intent
        (quoteFor h.nse h.bse (h.decision cfg.risk).intent.venue) =
      if ¬ h.risk.kill.enabled then some (.block "KILL_SWITCH" h.risk.kill.reason)
      else if (h.decision cfg.risk).intent.qty * (h.decision cfg.risk).intent.pricePaise >
          cfg.risk.maxNotionalPaise then
        some (.block "MAX_NOTIONAL" "order notional too high")
      else none := by
  cases hshow with
  | @hedging y hsteps hres =>
    obtain ⟨-, -, v, heq⟩ := nextOrder_send hsend
    change (y.hedgePoint nowNs).decision cfg.risk = _ at heq
    rw [heq] at hsend ⊢
    obtain ⟨hintent, -, -, hqty⟩ := candidateForVenue_send hsend
    rw [hintent]
    exact staticBlock_hedge (hsteps.riskCfg.trans hs.riskCfg) hband hsend
      (hedge_within hs hsteps hres hqty)

/-- Only the kill switch and the order rate stop an order of the policy. -/
def GateOpen (cfg : RiskConfig) (h : HedgePoint) : Prop :=
  (h.decision cfg).shouldSend = true → (h.check cfg).1.approved = true ∨
    h.risk.kill.enabled = false ∨
    (h.risk.limiter.allow (h.decision cfg).intent.instrumentId h.nowNs).1 = false

namespace Simulator

/-- **The risk gate of a hedge.**  At every hedge point of every run an order of the policy is
approved if and only if the kill switch is on, the notional is within its limit and the order rate
allows it; nothing else blocks it. -/
theorem run_hedgeGate (cfg : SimConfig) (hband : 0 ≤ cfg.risk.priceBandPaise)
    (calls : List ReplayCall) (call : ReplayCall) (turns : ℕ) (h : HedgePoint)
    (hmem : .hedging h ∈ ((afterRuns cfg calls).replayFor call turns).trace)
    (hsend : (h.decision cfg.risk).shouldSend = true) :
    ((h.check cfg.risk).1.approved = true ↔
      h.risk.kill.enabled = true ∧
        (h.decision cfg.risk).intent.qty * (h.decision cfg.risk).intent.pricePaise ≤
          cfg.risk.maxNotionalPaise ∧
        (h.risk.limiter.allow (h.decision cfg.risk).intent.instrumentId h.nowNs).1 = true) ∧
      (h.check cfg.risk).1.rule ∈ ["APPROVED", "KILL_SWITCH", "MAX_NOTIONAL", "ORDER_RATE"] := by
  have hblock := run_block cfg calls call turns _ hmem
  have hin := mem_ofParent hmem
  generalize ofParent _ _ = b at hblock hin
  cases hblock with
  | @execution env nowNs s opp x obs hs hshow =>
    have hhedge := hshow.mem hin
    simp only [reduceCtorEq, exists_false, or_self, false_or, or_false] at hhedge
    have hstatic := HedgeShown.check hs hband hhedge hsend
    constructor
    · unfold HedgePoint.check
      rw [RiskEngine.checkOrder_approved, ← RiskEngine.staticBlock_eq_none, hstatic]
      simp only [RiskEngine.ite_some_eq_none, not_not, not_lt, and_true, gt_iff_lt, and_assoc]
    · unfold HedgePoint.check
      rw [RiskEngine.rule_checkOrder, hstatic]
      split_ifs <;> simp [RiskDecision.block]

/-- The hedge point of an observation. -/
def hedgePoint : Observation → Option HedgePoint
  | .hedging h => some h
  | _ => none

/-- Under the default limits the first hedge after a rejected sale is approved. -/
theorem run_hedgeGate_rejected :
    let cfg : SimConfig := { scenario := .fromName "bse_buy_fills_nse_sell_reject" }
    ∃ h : HedgePoint, (h.decision cfg.risk).shouldSend = true ∧
      (h.check cfg.risk).1.approved = true ∧
      ((h.check cfg.risk).1.approved = true ↔
        h.risk.kill.enabled = true ∧
          (h.decision cfg.risk).intent.qty * (h.decision cfg.risk).intent.pricePaise ≤
            cfg.risk.maxNotionalPaise ∧
          (h.risk.limiter.allow (h.decision cfg.risk).intent.instrumentId h.nowNs).1 = true) := by
  intro cfg
  have hpoint : ∃ h ∈ ((afterRuns cfg []).replayFor crossedMarket 4).trace.filterMap hedgePoint,
      (h.decision cfg.risk).shouldSend = true ∧ (h.check cfg.risk).1.approved = true := by
    decide +kernel
  obtain ⟨h, hmem, hsend, happ⟩ := hpoint
  obtain ⟨o, ho, heq⟩ := List.mem_filterMap.1 hmem
  cases o <;> cases heq
  exact ⟨h, hsend, happ,
    (run_hedgeGate cfg (by decide) [] crossedMarket 4 h ho hsend).1⟩

/-- The purchase is within the notional limit; the sale that would hedge it is not. -/
theorem hedgeGate_notional :
    let cfg : SimConfig := { risk := { maxNotionalPaise := 5500 } }
    ¬ ∀ h, .hedging h ∈ ((afterRuns cfg []).replayFor crossedMarket 4).trace →
      GateOpen cfg.risk h := by
  intro cfg hopen
  have hpoint : ∃ h ∈ ((afterRuns cfg []).replayFor crossedMarket 4).trace.filterMap hedgePoint,
      ¬ ((h.decision cfg.risk).shouldSend = true → (h.check cfg.risk).1.approved = true ∨
        h.risk.kill.enabled = false ∨
        (h.risk.limiter.allow (h.decision cfg.risk).intent.instrumentId h.nowNs).1 = false) := by
    decide +kernel
  obtain ⟨h, hmem, hblocked⟩ := hpoint
  obtain ⟨o, ho, heq⟩ := List.mem_filterMap.1 hmem
  cases o <;> cases heq
  exact hblocked (hopen h ho)

end Simulator

end Hft
