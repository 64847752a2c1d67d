import HftArb.Sim.Blocks

/-!
# The two legs of a pair

`send_one` checks a leg just before it sends it, and sends the other leg whatever the verdict was.
`run_legByLeg` says what follows for the orders of a pair in every run; `allOrNothing_notional` is a
run in which one leg is sent and the other blocked.
-/

namespace Hft

open Execution

/-- The check of an alpha leg. -/
def Observation.legVerdict : Observation → Option (OrderIntent × RiskDecision)
  | .leg intent rd => some (intent, rd)
  | _ => none

/-- The submission of an alpha order. -/
def Observation.alphaOrder : Observation → Option OrderIntent
  | .sent intent =>
      if intent.role = .alphaBuy ∨ intent.role = .alphaSell then some intent else none
  | _ => none

/-- The alpha legs that were checked under a parent id, with the verdicts. -/
def legVerdicts (parent : String) (trace : List Observation) : List (OrderIntent × RiskDecision) :=
  (ofParent parent trace).filterMap Observation.legVerdict

/-- The alpha orders that were submitted under a parent id. -/
def alphaOrders (parent : String) (trace : List Observation) : List OrderIntent :=
  (ofParent parent trace).filterMap Observation.alphaOrder

/-- A leg that is blocked holds back the whole pair. -/
def AllOrNothing (parent : String) (trace : List Observation) : Prop :=
  (∃ v ∈ legVerdicts parent trace, v.2.approved = false) → alphaOrders parent trace = []

/-- The legs that were approved. -/
def approvedLegs (verdicts : List (OrderIntent × RiskDecision)) : List OrderIntent :=
  (verdicts.filter fun v => v.2.approved).map Prod.fst

/-- An execution that starts in the run has sent the two legs, and has hedged the pair if that has
left it unequal. -/
structure SentAndHedged (sim : Simulator) (call : ReplayCall) (turns : ℕ)
    (first second : OrderIntent) (pair : PairTrade) (nowNs : ℕ) (s : ReplayState)
    (opp : ArbOpportunity) : Prop where
  starts : sim.Starts call turns nowNs s opp
  parent : opp.parentArbId = pair.parentId
  legs : (first, second) = sim.cfg.legs opp
  ends : (s.executed call.env sim.cfg nowNs opp).pair = pair
  hedges : (s.sendLegs call.env nowNs opp first second).pair.residual ≠ 0 →
    ∃ kill, .hedged pair kill ∈ (sim.replayFor call turns).trace

/-- What holds of the legs and the end of an execution. -/
structure LegByLeg (trace : List Observation) (first second : OrderIntent) (pair : PairTrade) :
    Prop where
  checked : (legVerdicts pair.parentId trace).map Prod.fst = [first, second]
  submitted : alphaOrders pair.parentId trace = approvedLegs (legVerdicts pair.parentId trace)
  common : (∃ v ∈ legVerdicts pair.parentId trace, v.2.Common) →
    alphaOrders pair.parentId trace = []
  nothing : alphaOrders pair.parentId trace = [] → pair.boughtQty = 0 ∧ pair.soldQty = 0
  flat : pair.residual = 0 → pair.state = .flat
  hedged : pair.residual ≠ 0 → (pair.state = .errorRecovery ∨ pair.state = .killSwitch) ∧
    ∃ kill, .hedged pair kill ∈ trace

/-! ### Blocks -/

section Block

variable {env : Env} {cfg : SimConfig} {nowNs : ℕ} {s : ReplayState} {opp : ArbOpportunity}
  {x₀ : Execution} {intent : OrderIntent} {rd : RiskDecision} {obs : List Observation}

theorem legVerdict_legShown :
    (legShown intent rd).filterMap Observation.legVerdict = [(intent, rd)] := by
  unfold legShown
  split_ifs <;> rfl

theorem alphaOrder_legShown (h : intent.role = .alphaBuy ∨ intent.role = .alphaSell) :
    (legShown intent rd).filterMap Observation.alphaOrder =
      if rd.approved then [intent] else [] := by
  unfold legShown
  split_ifs <;> simp [List.filterMap_cons, Observation.alphaOrder, h]

/-- The hedge checks no leg and sends no alpha order. -/
theorem HedgeShown.not_alpha {cfg : RiskConfig} {o : Observation}
    (h : HedgeShown env cfg nowNs x₀ o) : o.legVerdict = none ∧ o.alphaOrder = none := by
  cases h with
  | hedging h hres => exact ⟨rfl, rfl⟩
  | sent h hsend =>
    obtain ⟨v, q, hintent⟩ := hedgePoint_intent hsend
    rw [hintent]
    exact ⟨rfl, rfl⟩
  | hedged h hstop => exact ⟨rfl, rfl⟩

theorem role_legs (cfg : SimConfig) (opp : ArbOpportunity) :
    ∀ leg, leg = (cfg.legs opp).1 ∨ leg = (cfg.legs opp).2 →
      leg.role = .alphaBuy ∨ leg.role = .alphaSell := by
  intro leg hleg
  unfold SimConfig.legs at hleg
  split_ifs at hleg <;> rcases hleg with rfl | rfl <;>
    first | exact Or.inl rfl | exact Or.inr rfl

/-- What a block shows of the legs. -/
theorem block_legs {x : Execution} (h : s.Shows env cfg nowNs opp x obs) :
    let b := ReplayState.legsShown cfg opp (s.legChecks env cfg nowNs opp) ++ obs ++
      [.executed (cfg.legs opp).1 (cfg.legs opp).2 (s.executed env cfg nowNs opp).pair]
    let verdicts := [((cfg.legs opp).1, (s.legChecks env cfg nowNs opp).1),
      ((cfg.legs opp).2, (s.legChecks env cfg nowNs opp).2)]
    b.filterMap Observation.legVerdict = verdicts ∧
      b.filterMap Observation.alphaOrder = approvedLegs verdicts := by
  have hnone : obs.filterMap Observation.legVerdict = [] ∧
      obs.filterMap Observation.alphaOrder = [] :=
    ⟨List.filterMap_eq_nil_iff.2 fun o ho => (HedgeShown.not_alpha (h.hedge.hedge o ho)).1,
      List.filterMap_eq_nil_iff.2 fun o ho => (HedgeShown.not_alpha (h.hedge.hedge o ho)).2⟩
  refine ⟨?_, ?_⟩
  · simp only [ReplayState.legsShown, List.filterMap_append, legVerdict_legShown, hnone.1]
    rfl
  · simp only [ReplayState.legsShown, List.filterMap_append, hnone.2,
      alphaOrder_legShown (role_legs cfg opp _ (Or.inl rfl)),
      alphaOrder_legShown (role_legs cfg opp _ (Or.inr rfl))]
    unfold approvedLegs
    split_ifs <;> simp_all [Observation.alphaOrder]

theorem nil_of_approvedLegs {first second : OrderIntent} {rd : RiskDecision × RiskDecision} :
    approvedLegs [(first, rd.1), (second, rd.2)] = [] ↔
      rd.1.approved = false ∧ rd.2.approved = false := by
  simp [approvedLegs]

end Block

namespace Simulator

/-- The execution behind an end that a run shows. -/
theorem executed_sentAndHedged {sim : Simulator} {call : ReplayCall} {turns : ℕ}
    {first second : OrderIntent} {pair : PairTrade}
    (h : .executed first second pair ∈ (sim.replayFor call turns).trace) :
    ∃ nowNs s opp, SentAndHedged sim call turns first second pair nowNs s opp := by
  obtain ⟨nowNs, s, opp, hstarts, hlegs, hpair, hsub⟩ := executed_starts h
  obtain ⟨x, obs, hshow⟩ := ReplayState.executed_shows call.env sim.cfg nowNs s opp
  refine ⟨nowNs, s, opp, hstarts, ?_, hlegs, hpair, fun hres => ?_⟩
  · rw [← hpair]
    exact (ReplayState.executed_steps call.env sim.cfg nowNs s opp).sameTrade.parentId.symm
  · have hsends : s.sendLegs call.env nowNs opp first second = x := by rw [hshow.sends, ← hlegs]
    rw [hsends] at hres
    have hhedged := hshow.hedge.hedged hres
    rw [hpair] at hhedged
    refine ⟨(s.executed call.env sim.cfg nowNs opp).run.risk.kill, hsub ?_⟩
    rw [hshow.trace]
    exact List.mem_append_right _ (List.mem_append_left _ (List.mem_append_right _ hhedged))

/-- **Leg by leg.**  In every run, of a simulator that may have run before, both legs of an executed
opportunity are checked, and exactly those that are approved are submitted; the kill switch and the
quantity limit hold back both legs or none; legs that are left unequal are hedged; and an execution
that ends with a residual has hedged it and ends in `ERROR_RECOVERY` or `KILL_SWITCH`. -/
theorem run_legByLeg (cfg : SimConfig) (calls : List ReplayCall) (call : ReplayCall) (turns : ℕ)
    (first second : OrderIntent) (pair : PairTrade)
    (h : .executed first second pair ∈ ((afterRuns cfg calls).replayFor call turns).trace) :
    (∃ nowNs s opp, SentAndHedged (afterRuns cfg calls) call turns first second pair nowNs s opp) ∧
      LegByLeg ((afterRuns cfg calls).replayFor call turns).trace first second pair := by
  refine ⟨executed_sentAndHedged h, ?_⟩
  have hblock := run_block cfg calls call turns _ h
  have hmem := mem_ofParent h
  generalize ((afterRuns cfg calls).replayFor call turns).trace = trace at h hblock hmem ⊢
  have hsub : ∀ o ∈ ofParent pair.parentId trace, o ∈ trace := fun o ho => List.mem_of_mem_filter ho
  have hverdicts : legVerdicts pair.parentId trace =
      (ofParent pair.parentId trace).filterMap Observation.legVerdict := rfl
  have horders : alphaOrders pair.parentId trace =
      (ofParent pair.parentId trace).filterMap Observation.alphaOrder := rfl
  change Block cfg (ofParent pair.parentId trace) at hblock
  change _ ∈ ofParent pair.parentId trace at hmem
  generalize ofParent pair.parentId trace = b at hblock hmem hsub hverdicts horders
  cases hblock with
  | @execution env nowNs s opp x obs hs hshow =>
    obtain ⟨hfirst, hsecond, hpair⟩ := hshow.ends hmem
    obtain ⟨hlegs, hsent⟩ := block_legs hshow
    rw [hlegs] at hverdicts
    rw [hsent] at horders
    refine ⟨?_, ?_, ?_, ?_, ?_, ?_⟩
    · rw [hverdicts, hfirst, hsecond]
      rfl
    · rw [horders, hverdicts]
    · rw [horders, hverdicts, nil_of_approvedLegs]
      intro hcommon
      exact hshow.legs.common (by simpa using hcommon)
    · rw [horders, nil_of_approvedLegs, hpair]
      rintro ⟨hno₁, hno₂⟩
      have hblocked := hshow.legs.blocked hno₁ hno₂
      have hres : x.pair.residual = 0 := by
        rw [PairTrade.residual, hblocked.1, hblocked.2]
        rfl
      have huntouched := hshow.hedge.untouched hres
      exact ⟨huntouched.1.trans hblocked.1, huntouched.2.trans hblocked.2⟩
    · rw [hpair]
      exact hshow.hedge.flat
    · rw [hpair]
      intro hres
      have hleft : x.pair.residual ≠ 0 := fun hflat => hres <| by
        obtain ⟨hbought, hsold⟩ := hshow.hedge.untouched hflat
        rw [PairTrade.residual, hbought, hsold]
        exact hflat
      exact ⟨hshow.hedge.stuck hres, _, hsub _ (List.mem_append_left _ (List.mem_append_right _
        (hshow.hedge.hedged hleft)))⟩

/-- With a limit on the notional between the two prices the purchase is sent and the sale blocked.
-/
theorem allOrNothing_notional :
    let cfg : SimConfig := { risk := { maxNotionalPaise := 5500 } }
    ¬ AllOrNothing "SIM-ARB-1-1" ((afterRuns cfg []).replayFor crossedMarket 4).trace := by
  unfold AllOrNothing
  decide +kernel

/-- The legs and the pair at the end of an execution. -/
def ended : Observation → Option (OrderIntent × OrderIntent × PairTrade)
  | .executed first second pair => some (first, second, pair)
  | _ => none

/-- With the sale first it is the first leg that is blocked. -/
theorem run_legByLeg_sellFirst :
    let cfg : SimConfig :=
      { risk := { maxNotionalPaise := 5500 }
        scenario := { sendSellFirst := true } }
    let trace := ((afterRuns cfg []).replayFor crossedMarket 4).trace
    ∃ first second pair, first.role = .alphaSell ∧ pair.residual = 50 ∧
      alphaOrders pair.parentId trace = [second] ∧
      (∃ nowNs s opp,
        SentAndHedged (afterRuns cfg []) crossedMarket 4 first second pair nowNs s opp) ∧
      LegByLeg trace first second pair := by
  intro cfg trace
  have hend : ∃ e ∈ trace.filterMap ended, e.1.role = .alphaSell ∧ e.2.2.residual = 50 ∧
      alphaOrders e.2.2.parentId trace = [e.2.1] := by decide +kernel
  obtain ⟨⟨first, second, pair⟩, hmem, hrole, hres, hsent⟩ := hend
  obtain ⟨o, ho, heq⟩ := List.mem_filterMap.1 hmem
  cases o <;> cases heq
  exact ⟨first, second, pair, hrole, hres, hsent,
    run_legByLeg cfg [] crossedMarket 4 first second pair ho⟩

end Simulator

end Hft
