import HftArb.Sim.PositionCap

/-!
# What an execution shows

The observations of an execution are those of its two legs and then those of its hedge.  A leg shows
its check and, if it is approved, its submission (`legShown`).  The hedge shows the points of its
loop, the orders of the policy, and last how it has left the pair (`HedgeShown`, `Stopped`).
-/

namespace Hft

open Transition

namespace Execution

variable {env : Env} {nowNs : ℕ} {x₀ x x' : Execution} {intent : OrderIntent}

/-! ### The legs -/

/-- The observations of a leg. -/
def legShown (intent : OrderIntent) (rd : RiskDecision) : List Observation :=
  .leg intent rd :: if rd.approved then [.sent intent] else []

/-- The verdict of `check_order` on a leg. -/
def legCheck (nowNs : ℕ) (nse bse : BestQuote) (x : Execution) (intent : OrderIntent) :
    RiskDecision :=
  (x.run.risk.checkOrder x.run.oms.positions intent (quoteFor nse bse intent.venue) nowNs).1

/-- What `send_one` shows and changes. -/
structure SentOne (x : Execution) (intent : OrderIntent) (rd : RiskDecision) (x' : Execution) :
    Prop where
  trace : x'.run.trace = x.run.trace ++ legShown intent rd
  kill : x'.run.risk.kill = x.run.risk.kill
  cfg : x'.run.risk.cfg = x.run.risk.cfg
  blocked : rd.approved = false →
    x'.pair.boughtQty = x.pair.boughtQty ∧ x'.pair.soldQty = x.pair.soldQty

theorem sendOne_spec (env : Env) (nowNs : ℕ) (nse bse : BestQuote) (x : Execution)
    (intent : OrderIntent) :
    SentOne x intent (x.legCheck nowNs nse bse intent) (sendOne env nowNs nse bse x intent) := by
  rcases sendOne_cases env nowNs nse bse x intent with ⟨happ, heq⟩ | ⟨happ, heq⟩
  · rw [heq]
    refine ⟨?_, RiskEngine.kill_checkOrder, RiskEngine.cfg_checkOrder, fun _ => ⟨rfl, rfl⟩⟩
    rw [legShown, show (x.legCheck nowNs nse bse intent).approved = false from happ]
    rfl
  · rw [heq]
    refine ⟨?_, ?_, ?_, fun hno => absurd (happ.symm.trans hno) (by decide)⟩
    · rw [failLeg_run, legShown, show (x.legCheck nowNs nse bse intent).approved = true from happ,
        if_pos rfl, ← List.singleton_append, ← List.append_assoc]
      rfl
    · rw [failLeg_run]
      exact RiskEngine.kill_checkOrder
    · rw [failLeg_run]
      exact RiskEngine.cfg_checkOrder

/-! ### The hedge loop -/

/-- How `hedge_until_flat` leaves a pair and the kill switch. -/
structure Stopped (cfg : RiskConfig) (pair : PairTrade) (kill : KillSwitch) : Prop where
  flat : pair.residual = 0 → pair.state = .flat
  stuck : pair.residual ≠ 0 → (pair.state = .errorRecovery ∧ kill.enabled = true) ∨
    (pair.state = .killSwitch ∧ kill.enabled = false ∧
      pair.hedgeAttempts < cfg.maxHedgeAttempts)

/-- The observations that the hedge of an execution may show. -/
inductive HedgeShown (env : Env) (cfg : RiskConfig) (nowNs : ℕ) (x₀ : Execution) :
    Observation → Prop
  | hedging {y : Execution} (h : Steps env nowNs x₀ y) (hres : y.pair.residual ≠ 0) :
      HedgeShown env cfg nowNs x₀ (.hedging (y.hedgePoint nowNs))
  | sent {y : Execution} (h : Steps env nowNs x₀ y)
      (hsend : ((y.hedgePoint nowNs).decision cfg).shouldSend = true) :
      HedgeShown env cfg nowNs x₀ (.sent ((y.hedgePoint nowNs).decision cfg).intent)
  | hedged {y : Execution} (h : Steps env nowNs x₀ y)
      (hstop : Stopped cfg y.pair y.run.risk.kill) :
      HedgeShown env cfg nowNs x₀ (.hedged y.pair y.run.risk.kill)

/-- The loop of `hedge_until_flat` is at `x`; `past` was shown before the hedge. -/
structure Hedging (env : Env) (cfg : RiskConfig) (nowNs : ℕ) (x₀ : Execution)
    (past : List Observation) (x : Execution) : Prop where
  steps : Steps env nowNs x₀ x
  trace : ∃ obs, x.run.trace = past ++ obs ∧ ∀ o ∈ obs, HedgeShown env cfg nowNs x₀ o
  state : x.pair.residual ≠ 0 → x.pair.state = .hedging
  kill : x.pair.residual ≠ 0 → x.run.risk.kill.enabled = true

/-- The loop of `hedge_until_flat` has been left at `x`. -/
structure Left (env : Env) (cfg : RiskConfig) (nowNs : ℕ) (x₀ : Execution)
    (past : List Observation) (x : Execution) : Prop where
  steps : Steps env nowNs x₀ x
  trace : ∃ obs, x.run.trace = past ++ obs ∧ ∀ o ∈ obs, HedgeShown env cfg nowNs x₀ o
  stuck : x.pair.residual ≠ 0 →
    ((x.pair.state = .hedging ∨ x.pair.state = .errorRecovery) ∧ x.run.risk.kill.enabled = true) ∨
      (x.pair.state = .killSwitch ∧ x.run.risk.kill.enabled = false ∧
        x.pair.hedgeAttempts < cfg.maxHedgeAttempts)

variable {cfg : RiskConfig} {past : List Observation}

/-- A turn that goes on shows its point and the order it sends. -/
theorem Hedging.yield (h : Hedging env cfg nowNs x₀ past x)
    (hbody : hedgeBody env cfg nowNs x = .yield x') : Hedging env cfg nowNs x₀ past x' := by
  have hsteps := h.steps.trans (hedgeBody_steps env cfg nowNs x _ hbody)
  have hturn := hedgeBody_turn env cfg nowNs x
  rw [hbody] at hturn
  obtain ⟨obs, htrace, hobs⟩ := h.trace
  cases hturn with
  | sent hres hatt hsend happ =>
    refine ⟨hsteps, ⟨obs ++ [.hedging (x.hedgePoint nowNs),
      .sent ((x.hedgePoint nowNs).decision cfg).intent], ?_, ?_⟩, ?_, fun _ => ?_⟩
    · change (x.run.trace ++ [_]) ++ [_] = _
      rw [htrace]
      simp
    · refine List.forall_mem_append.2 ⟨hobs, List.forall_mem_cons.2 ⟨.hedging h.steps hres, ?_⟩⟩
      exact List.forall_mem_singleton.2 (.sent h.steps hsend)
    · exact PairTrade.state_foldl _ fun _ => h.state hres
    · exact (congrArg KillSwitch.enabled RiskEngine.kill_checkOrder).trans (h.kill hres)

/-- A turn that stops with a residual has used up the attempts, has found no order or had it
blocked, or has tripped the kill switch. -/
theorem Hedging.done (h : Hedging env cfg nowNs x₀ past x)
    (hbody : hedgeBody env cfg nowNs x = .done x') : Left env cfg nowNs x₀ past x' := by
  have hsteps := h.steps.trans (hedgeBody_steps env cfg nowNs x _ hbody)
  have hturn := hedgeBody_turn env cfg nowNs x
  rw [hbody] at hturn
  obtain ⟨obs, htrace, hobs⟩ := h.trace
  have hasked : x.pair.residual ≠ 0 → ∃ obs, (x.asked nowNs).run.trace = past ++ obs ∧
      ∀ o ∈ obs, HedgeShown env cfg nowNs x₀ o := fun hres => by
    refine ⟨obs ++ [.hedging (x.hedgePoint nowNs)], ?_, ?_⟩
    · rw [← List.append_assoc, ← htrace]
      rfl
    · exact List.forall_mem_append.2 ⟨hobs, List.forall_mem_singleton.2 (.hedging h.steps hres)⟩
  cases hturn with
  | finished hguard =>
    exact ⟨hsteps, h.trace, fun hres => Or.inl ⟨Or.inl (h.state hres), h.kill hres⟩⟩
  | kill hres hatt hkill => exact ⟨hsteps, hasked hres, fun _ => Or.inr ⟨rfl, rfl, hatt⟩⟩
  | noOrder hres hatt hsend =>
    exact ⟨hsteps, hasked hres, fun _ => Or.inl ⟨Or.inr rfl, h.kill hres⟩⟩
  | blocked hres hatt hsend happ =>
    refine ⟨hsteps, hasked hres, fun _ => Or.inl ⟨Or.inr rfl, ?_⟩⟩
    exact (congrArg KillSwitch.enabled RiskEngine.kill_checkOrder).trans (h.kill hres)

/-- What `hedge_until_flat` shows and how it leaves the pair. -/
theorem Hedging.hedgeUntilFlat (h : Hedging env cfg nowNs x₀ past x) :
    ∃ obs, (x.hedgeUntilFlat env cfg nowNs).run.trace = past ++ obs ∧
      (∀ o ∈ obs, HedgeShown env cfg nowNs x₀ o) ∧
      .hedged (x.hedgeUntilFlat env cfg nowNs).pair
        (x.hedgeUntilFlat env cfg nowNs).run.risk.kill ∈ obs ∧
      Stopped cfg (x.hedgeUntilFlat env cfg nowNs).pair
        (x.hedgeUntilFlat env cfg nowNs).run.risk.kill := by
  have hleft := (hedge_ends env cfg nowNs x).induct (I := Hedging env cfg nowNs x₀ past)
    (R := Left env cfg nowNs x₀ past) h (fun _ _ hs hbody => hs.yield hbody)
    (fun _ _ hs hbody => hs.done hbody)
  unfold Execution.hedgeUntilFlat
  generalize runLoop (hedgeBody env cfg nowNs) _ x = y at hleft ⊢
  obtain ⟨obs, htrace, hobs⟩ := hleft.trace
  have hsteps : Steps env nowNs x₀ y.settle := hleft.steps.trans quiet_settle.step
  have hres : y.settle.pair.residual = y.pair.residual := rfl
  have hstop : Stopped cfg y.settle.pair y.settle.run.risk.kill := by
    constructor
    · rw [hres]
      intro hflat
      exact if_pos hflat
    · rw [hres]
      intro hopen
      have hstate : y.settle.pair.state =
          if y.pair.state = .hedging then .errorRecovery else y.pair.state := if_neg hopen
      rcases hleft.stuck hopen with ⟨hs | hs, hkill⟩ | ⟨hs, hkill, hatt⟩
      · exact Or.inl ⟨by rw [hstate, hs]; rfl, hkill⟩
      · exact Or.inl ⟨by rw [hstate, hs]; rfl, hkill⟩
      · exact Or.inr ⟨by rw [hstate, hs]; rfl, hkill, hatt⟩
  refine ⟨obs ++ [.hedged y.settle.pair y.settle.run.risk.kill], ?_, ?_, ?_, hstop⟩
  · rw [← List.append_assoc, ← htrace]
    rfl
  · exact List.forall_mem_append.2 ⟨hobs, List.forall_mem_singleton.2 (.hedged hsteps hstop)⟩
  · exact List.mem_append_right _ (List.mem_singleton_self _)

end Execution

/-! ### Executions -/

namespace ReplayState

open Execution

variable {env : Env} {cfg : SimConfig} {nowNs : ℕ} {s : ReplayState} {opp : ArbOpportunity}

/-- The verdicts on the two legs, in the order they are checked. -/
def legChecks (env : Env) (cfg : SimConfig) (nowNs : ℕ) (s : ReplayState) (opp : ArbOpportunity) :
    RiskDecision × RiskDecision :=
  let nse := s.quoteOr .nse opp.instrumentId nowNs
  let bse := s.quoteOr .bse opp.instrumentId nowNs
  let x : Execution := ⟨s, .fromOpportunity opp⟩
  (x.legCheck nowNs nse bse (cfg.legs opp).1,
    (x.sendOne env nowNs nse bse (cfg.legs opp).1).legCheck nowNs nse bse (cfg.legs opp).2)

/-- The observations of both legs. -/
def legsShown (cfg : SimConfig) (opp : ArbOpportunity) (rd : RiskDecision × RiskDecision) :
    List Observation :=
  legShown (cfg.legs opp).1 rd.1 ++ legShown (cfg.legs opp).2 rd.2

/-- What the two legs show and change. -/
structure SentLegs (cfg : SimConfig) (s : ReplayState) (opp : ArbOpportunity)
    (rd : RiskDecision × RiskDecision) (x : Execution) : Prop where
  trace : x.run.trace = s.trace ++ legsShown cfg opp rd
  common : rd.1.Common ∨ rd.2.Common → rd.1.approved = false ∧ rd.2.approved = false
  kill : x.pair.residual ≠ 0 → x.run.risk.kill.enabled = true
  blocked : rd.1.approved = false → rd.2.approved = false →
    x.pair.boughtQty = 0 ∧ x.pair.soldQty = 0

theorem sendLegs_spec (env : Env) (cfg : SimConfig) (nowNs : ℕ) (s : ReplayState)
    (opp : ArbOpportunity) :
    SentLegs cfg s opp (s.legChecks env cfg nowNs opp)
      (s.sendLegs env nowNs opp (cfg.legs opp).1 (cfg.legs opp).2) := by
  have h₁ := sendOne_spec env nowNs (s.quoteOr .nse opp.instrumentId nowNs)
    (s.quoteOr .bse opp.instrumentId nowNs) ⟨s, .fromOpportunity opp⟩ (cfg.legs opp).1
  have h₂ := sendOne_spec env nowNs (s.quoteOr .nse opp.instrumentId nowNs)
    (s.quoteOr .bse opp.instrumentId nowNs) (Execution.sendOne env nowNs
      (s.quoteOr .nse opp.instrumentId nowNs) (s.quoteOr .bse opp.instrumentId nowNs)
      ⟨s, .fromOpportunity opp⟩ (cfg.legs opp).1) (cfg.legs opp).2
  have hblocked : (s.legChecks env cfg nowNs opp).1.approved = false →
      (s.legChecks env cfg nowNs opp).2.approved = false →
      (s.sendLegs env nowNs opp (cfg.legs opp).1 (cfg.legs opp).2).pair.boughtQty = 0 ∧
        (s.sendLegs env nowNs opp (cfg.legs opp).1 (cfg.legs opp).2).pair.soldQty = 0 :=
    fun hno₁ hno₂ => ⟨(h₂.blocked hno₂).1.trans (h₁.blocked hno₁).1,
      (h₂.blocked hno₂).2.trans (h₁.blocked hno₁).2⟩
  refine ⟨?_, ?_, fun hres => ?_, hblocked⟩
  · rw [legsShown, ← List.append_assoc]
    exact h₂.trace.trans (congrArg (· ++ _) h₁.trace)
  · -- the two checks share kill switch, limits and quantity
    have hqty : (cfg.legs opp).2.qty = (cfg.legs opp).1.qty :=
      (legs_own cfg opp _ (Or.inr rfl)).2.2.2.trans (legs_own cfg opp _ (Or.inl rfl)).2.2.2.symm
    rintro (h | h)
    · exact ⟨RiskEngine.not_approved_of_common rfl rfl rfl h,
        RiskEngine.not_approved_of_common h₁.kill h₁.cfg hqty h⟩
    · exact ⟨RiskEngine.not_approved_of_common h₁.kill.symm h₁.cfg.symm hqty.symm h,
        RiskEngine.not_approved_of_common rfl rfl rfl h⟩
  · -- with the kill switch off neither leg would have been approved
    have hkill : (s.sendLegs env nowNs opp (cfg.legs opp).1 (cfg.legs opp).2).run.risk.kill =
        s.risk.kill := h₂.kill.trans h₁.kill
    rw [hkill]
    by_contra hoff
    have hno : ∀ (y : Execution) (q : BestQuote) (intent : OrderIntent),
        y.run.risk.kill = s.risk.kill →
        (y.run.risk.checkOrder y.run.oms.positions intent q nowNs).1.approved = false := by
      intro y q intent hy
      by_contra happ
      obtain ⟨hpre, -⟩ := RiskEngine.checkOrder_approved.1 (Bool.not_eq_false _ ▸ happ)
      exact hoff (hy ▸ hpre.kill)
    obtain ⟨hbought, hsold⟩ := hblocked (hno _ _ _ rfl) (hno _ _ _ h₁.kill)
    exact hres (by rw [PairTrade.residual, hbought, hsold]; rfl)

/-- What the hedge of the legs shows, and how it leaves the pair. -/
structure HedgedLegs (env : Env) (cfg : RiskConfig) (nowNs : ℕ) (x₀ x : Execution)
    (obs : List Observation) (x' : Execution) : Prop where
  trace : x'.run.trace = x.run.trace ++ obs
  hedge : ∀ o ∈ obs, HedgeShown env cfg nowNs x₀ o
  untouched : x.pair.residual = 0 →
    x'.pair.boughtQty = x.pair.boughtQty ∧ x'.pair.soldQty = x.pair.soldQty
  hedged : x.pair.residual ≠ 0 → .hedged x'.pair x'.run.risk.kill ∈ obs
  flat : x'.pair.residual = 0 → x'.pair.state = .flat
  stuck : x'.pair.residual ≠ 0 → x'.pair.state = .errorRecovery ∨ x'.pair.state = .killSwitch

theorem hedgeLegs_spec (cfg : RiskConfig) {x₀ x : Execution} (hsteps : Steps env nowNs x₀ x)
    (hkill : x.pair.residual ≠ 0 → x.run.risk.kill.enabled = true) :
    ∃ obs, HedgedLegs env cfg nowNs x₀ x obs (hedgeLegs env cfg nowNs x) := by
  unfold hedgeLegs
  dsimp only
  by_cases hres : x.pair.residual = 0
  · rw [if_neg (not_not.2 hres), if_pos hres]
    exact ⟨[], by simp, by simp, fun _ => ⟨rfl, rfl⟩, fun h => absurd hres h, fun _ => rfl,
      fun h => absurd hres h⟩
  · rw [if_pos hres]
    have hstart : Hedging env cfg nowNs x₀ x.run.trace
        { x with pair := { x.pair with state := .hedging } } :=
      ⟨hsteps.trans (quiet_setState .hedging).step, ⟨[], by simp, by simp⟩, fun _ => rfl,
        fun _ => hkill hres⟩
    obtain ⟨obs, htrace, hobs, hlast, hstop⟩ := hstart.hedgeUntilFlat
    generalize Execution.hedgeUntilFlat _ _ _ _ = y at htrace hobs hlast hstop ⊢
    refine ⟨obs, ?_⟩
    by_cases hflat : y.pair.residual = 0
    · rw [if_pos hflat]
      -- `settle` has set the state already
      have hset : { y.pair with state := .flat } = y.pair := by rw [← hstop.flat hflat]
      refine ⟨htrace, hobs, fun h => absurd h hres, fun _ => ?_, fun _ => rfl,
        fun h => absurd hflat h⟩
      exact hset ▸ hlast
    · rw [if_neg hflat]
      refine ⟨htrace, hobs, fun h => absurd h hres, fun _ => hlast, fun h => absurd h hflat,
        fun _ => ?_⟩
      rcases hstop.stuck hflat with ⟨hstate, -⟩ | ⟨hstate, -⟩
      · exact Or.inl hstate
      · exact Or.inr hstate

/-- What an execution shows: its legs and then its hedge. -/
structure Shows (env : Env) (cfg : SimConfig) (nowNs : ℕ) (s : ReplayState) (opp : ArbOpportunity)
    (x : Execution) (obs : List Observation) : Prop where
  sends : x = s.sendLegs env nowNs opp (cfg.legs opp).1 (cfg.legs opp).2
  legs : SentLegs cfg s opp (s.legChecks env cfg nowNs opp) x
  hedge : HedgedLegs env cfg.risk nowNs ⟨s, .fromOpportunity opp⟩ x obs
    (s.executed env cfg nowNs opp)

theorem executed_shows (env : Env) (cfg : SimConfig) (nowNs : ℕ) (s : ReplayState)
    (opp : ArbOpportunity) : ∃ x obs, s.Shows env cfg nowNs opp x obs := by
  have hlegs := sendLegs_spec env cfg nowNs s opp
  obtain ⟨obs, hhedge⟩ := hedgeLegs_spec cfg.risk (sendLegs_steps env cfg nowNs s opp) hlegs.kill
  exact ⟨_, obs, rfl, hlegs, hhedge⟩

/-- The observations of an execution. -/
theorem Shows.trace {x : Execution} {obs : List Observation} (h : s.Shows env cfg nowNs opp x obs) :
    (s.executeOpportunity env cfg nowNs opp).trace = s.trace ++
      (legsShown cfg opp (s.legChecks env cfg nowNs opp) ++ obs ++
        [.executed (cfg.legs opp).1 (cfg.legs opp).2 (s.executed env cfg nowNs opp).pair]) := by
  rw [(executeOpportunity_eq env cfg nowNs s opp).2.2.2.2.2.2, h.hedge.trace, h.legs.trace]
  simp only [List.append_assoc]

end ReplayState

end Hft
