import HftArb.Sim.Accounts
import HftArb.Sim.Submission

/-!
# The steps of an execution

Whatever path `execute_opportunity` takes, it moves in two kinds of step (`Step`): a quiet one,
which touches neither books nor ledgers, and the submission of an order of the pair that the risk
engine has cleared.  `executed_steps` is the one place where the branches of the source are split;
the invariants of an execution are then proved over `Steps`.

The hedge loop ends (`hedge_ends`): every turn that goes on uses up an attempt.
-/

namespace Hft

open Transition

/-! ### Rows of risk events -/

/-- The rule is one that `check_order` names, or a reason of the hedge policy. -/
def VerdictRule (rule : String) : Prop :=
  (∃ (e : RiskEngine) (positions : PositionBook) (o : OrderIntent) (q : BestQuote) (nowNs : ℕ),
      rule = (e.checkOrder positions o q nowNs).1.rule) ∨
    ∃ (cfg : RiskConfig) (p : PairTrade) (nse bse : BestQuote),
      rule = (nextOrder cfg p nse bse).reason

/-- Rows were added, each for a verdict. -/
def AddsVerdicts (rows rows' : List RiskEvent) : Prop :=
  ∃ new, rows' = rows ++ new ∧ ∀ r ∈ new, VerdictRule r.ruleName

theorem AddsVerdicts.refl (rows : List RiskEvent) : AddsVerdicts rows rows :=
  ⟨[], by simp, by simp⟩

theorem AddsVerdicts.trans {rows rows' rows'' : List RiskEvent} (h : AddsVerdicts rows rows')
    (h' : AddsVerdicts rows' rows'') : AddsVerdicts rows rows'' := by
  obtain ⟨new, rfl, hnew⟩ := h
  obtain ⟨new', rfl, hnew'⟩ := h'
  exact ⟨new ++ new', List.append_assoc .., List.forall_mem_append.2 ⟨hnew, hnew'⟩⟩

theorem AddsVerdicts.append (rows : List RiskEvent) {r : RiskEvent} (h : VerdictRule r.ruleName) :
    AddsVerdicts rows (rows ++ [r]) := ⟨[r], rfl, List.forall_mem_singleton.2 h⟩

theorem HedgePoint.verdictRule_check (h : HedgePoint) (cfg : RiskConfig) :
    VerdictRule (h.check cfg).1.rule := Or.inl ⟨_, _, _, _, _, rfl⟩

theorem HedgePoint.verdictRule_reason (h : HedgePoint) (cfg : RiskConfig) :
    VerdictRule (h.decision cfg).reason := Or.inr ⟨_, _, _, _, rfl⟩

namespace Execution

variable {env : Env} {nowNs : ℕ} {x x' x'' : Execution} {intent : OrderIntent}

theorem verdictRule_checkLeg (q : BestQuote) : VerdictRule (x.checkLeg nowNs q intent).1.rule :=
  Or.inl ⟨_, _, _, _, _, rfl⟩

/-- The step changed neither books, orders, positions nor ledgers. -/
structure Quiet (x x' : Execution) : Prop where
  gateway : x'.run.gateway = x.run.gateway
  oms : x'.run.oms = x.run.oms
  ids : x'.run.ids = x.run.ids
  md : x'.run.md = x.run.md
  riskCfg : x'.run.risk.cfg = x.run.risk.cfg
  logs : x'.run.logs.fills = x.run.logs.fills ∧ x'.run.logs.pairs = x.run.logs.pairs
  risks : AddsVerdicts x.run.logs.risks x'.run.logs.risks
  pair : x.pair.SameTrade x'.pair
  bought : x'.pair.boughtQty = x.pair.boughtQty ∧
    x'.pair.boughtNotionalPaise = x.pair.boughtNotionalPaise
  sold : x'.pair.soldQty = x.pair.soldQty ∧ x'.pair.soldNotionalPaise = x.pair.soldNotionalPaise

/-- The risk engine has cleared an order of the pair. -/
structure Cleared (x : Execution) (intent : OrderIntent) : Prop where
  parent : intent.parentArbId = x.pair.parentId
  instrument : intent.instrumentId = x.pair.instrumentId
  side : intent.side ≠ .unknown
  qty : 0 < intent.qty
  position : |x.run.oms.positions.netQty intent.instrumentId + RiskEngine.signedEffect intent| ≤
    x.run.risk.cfg.maxPositionQty

/-- A step of an execution. -/
inductive Step (env : Env) (nowNs : ℕ) : Execution → Execution → Prop
  | quiet {x x' : Execution} (h : Quiet x x') : Step env nowNs x x'
  | submit {x : Execution} (intent : OrderIntent) (h : Cleared x intent) :
      Step env nowNs x (x.submit env nowNs intent).1

/-- Any number of steps. -/
abbrev Steps (env : Env) (nowNs : ℕ) : Execution → Execution → Prop :=
  Relation.ReflTransGen (Step env nowNs)

theorem Quiet.step (h : Quiet x x') : Steps env nowNs x x' := .single (.quiet h)

theorem sameTrade_submit (env : Env) (nowNs : ℕ) (x : Execution) (intent : OrderIntent) :
    x.pair.SameTrade (x.submit env nowNs intent).1.pair := PairTrade.sameTrade_foldl _ _

theorem Steps.sameTrade (h : Steps env nowNs x x') : x.pair.SameTrade x'.pair := by
  induction h with
  | refl => exact .refl _
  | tail _ hstep ih =>
    refine ih.trans ?_
    cases hstep with
    | quiet h => exact h.pair
    | submit intent h => exact sameTrade_submit env nowNs _ intent

theorem riskCfg_submit (env : Env) (nowNs : ℕ) (x : Execution) (intent : OrderIntent) :
    (x.submit env nowNs intent).1.run.risk = x.run.risk := rfl

theorem Steps.riskCfg (h : Steps env nowNs x x') : x'.run.risk.cfg = x.run.risk.cfg := by
  induction h with
  | refl => rfl
  | tail _ hstep ih =>
    refine Eq.trans ?_ ih
    cases hstep with
    | quiet h => exact h.riskCfg
    | submit intent h => exact congrArg RiskEngine.cfg (riskCfg_submit env nowNs _ intent)

theorem Steps.md (h : Steps env nowNs x x') : x'.run.md = x.run.md := by
  induction h with
  | refl => rfl
  | tail _ hstep ih =>
    refine Eq.trans ?_ ih
    cases hstep with
    | quiet h => exact h.md
    | submit intent h => rfl

/-- Rows of pairs are logged at the end only. -/
theorem Steps.pairs (h : Steps env nowNs x x') : x'.run.logs.pairs = x.run.logs.pairs := by
  induction h with
  | refl => rfl
  | tail _ hstep ih =>
    refine Eq.trans ?_ ih
    cases hstep with
    | quiet h => exact h.logs.2
    | submit intent h => rfl

/-- The rows of risk events are those of verdicts. -/
theorem Steps.risks (h : Steps env nowNs x x') :
    AddsVerdicts x.run.logs.risks x'.run.logs.risks := by
  induction h with
  | refl => exact .refl _
  | tail _ hstep ih =>
    refine ih.trans ?_
    cases hstep with
    | quiet h => exact h.risks
    | submit intent h => exact .refl _

/-- Between the steps the order manager is sound. -/
theorem Steps.sound (h : Steps env nowNs x x') (hs : x.run.Sound) : x'.run.Sound := by
  induction h with
  | refl => exact hs
  | tail _ hstep ih =>
    cases hstep with
    | quiet hq =>
      refine ⟨?_, ?_, ?_⟩
      · rw [hq.gateway]
        exact ih.books
      · rw [hq.oms]
        exact ih.known
      · rw [hq.oms]
        exact ih.taken
    | submit intent hclear => exact (submit_submitted ih env nowNs intent).sound

/-! ### The branches of the source -/

theorem quiet_checkLeg (q : BestQuote) : Quiet x (x.checkLeg nowNs q intent).2 :=
  ⟨rfl, rfl, rfl, rfl, RiskEngine.cfg_checkOrder, ⟨rfl, rfl⟩, .refl _, .refl _, ⟨rfl, rfl⟩, rfl,
    rfl⟩

theorem quiet_blockLeg {rd : RiskDecision} (hrule : VerdictRule rd.rule) :
    Quiet x (x.blockLeg nowNs intent rd) :=
  ⟨rfl, rfl, rfl, rfl, rfl, ⟨rfl, rfl⟩, .append _ hrule, ⟨rfl, rfl, rfl, rfl⟩, ⟨rfl, rfl⟩, rfl,
    rfl⟩

theorem failLeg_run (x : Execution) (o : Order) : (x.failLeg o).run = x.run := by
  unfold failLeg
  split_ifs <;> rfl

theorem quiet_failLeg (o : Order) : Quiet x (x.failLeg o) := by
  unfold failLeg
  split_ifs <;>
    exact ⟨rfl, rfl, rfl, rfl, rfl, ⟨rfl, rfl⟩, .refl _, ⟨rfl, rfl, rfl, rfl⟩, ⟨rfl, rfl⟩, rfl,
      rfl⟩

theorem quiet_observe (o : Observation) : Quiet x { x with run := x.run.observe o } :=
  ⟨rfl, rfl, rfl, rfl, rfl, ⟨rfl, rfl⟩, .refl _, .refl _, ⟨rfl, rfl⟩, rfl, rfl⟩

theorem quiet_disable (reason : String) : Quiet x (x.disable reason) :=
  ⟨rfl, rfl, rfl, rfl, rfl, ⟨rfl, rfl⟩, .refl _, .refl _, ⟨rfl, rfl⟩, rfl, rfl⟩

theorem quiet_attempted {risk : RiskEngine} (h : risk.cfg = x.run.risk.cfg) :
    Quiet x (x.attempted risk) :=
  ⟨rfl, rfl, rfl, rfl, h, ⟨rfl, rfl⟩, .refl _, ⟨rfl, rfl, rfl, rfl⟩, ⟨rfl, rfl⟩, rfl, rfl⟩

theorem quiet_countHedge : Quiet x x.countHedge :=
  ⟨rfl, rfl, rfl, rfl, rfl, ⟨rfl, rfl⟩, .refl _, .refl _, ⟨rfl, rfl⟩, rfl, rfl⟩

theorem quiet_stopHedging {rule : String} (hrule : VerdictRule rule) (state : PairState)
    (severity details : String) : Quiet x (x.stopHedging nowNs state severity rule details) :=
  ⟨rfl, rfl, rfl, rfl, rfl, ⟨rfl, rfl⟩, .append _ hrule, ⟨rfl, rfl, rfl, rfl⟩, ⟨rfl, rfl⟩, rfl,
    rfl⟩

theorem quiet_settle : Quiet x x.settle :=
  ⟨rfl, rfl, rfl, rfl, rfl, ⟨rfl, rfl⟩, .refl _, ⟨rfl, rfl, rfl, rfl⟩, ⟨rfl, rfl⟩, rfl, rfl⟩

theorem quiet_setState (state : PairState) :
    Quiet x { x with pair := { x.pair with state := state } } :=
  ⟨rfl, rfl, rfl, rfl, rfl, ⟨rfl, rfl⟩, .refl _, ⟨rfl, rfl, rfl, rfl⟩, ⟨rfl, rfl⟩, rfl, rfl⟩

theorem cleared_of_approved {q : BestQuote} (risk : RiskEngine)
    (happ : (risk.checkOrder x.run.oms.positions intent q nowNs).1.approved = true)
    (hcfg : x.run.risk.cfg = risk.cfg) (hside : intent.side ≠ .unknown)
    (hown : intent.parentArbId = x.pair.parentId ∧ intent.instrumentId = x.pair.instrumentId) :
    Cleared x intent := by
  obtain ⟨hpre, -⟩ := RiskEngine.checkOrder_approved.1 happ
  exact ⟨hown.1, hown.2, hside, hpre.qty.1, by rw [hcfg]; exact hpre.position⟩

/-- What `send_one` does. -/
theorem sendOne_cases (env : Env) (nowNs : ℕ) (nse bse : BestQuote) (x : Execution)
    (intent : OrderIntent) :
    let checked := x.checkLeg nowNs (quoteFor nse bse intent.venue) intent
    (checked.1.approved = false ∧
        sendOne env nowNs nse bse x intent = checked.2.blockLeg nowNs intent checked.1) ∨
      (checked.1.approved = true ∧ sendOne env nowNs nse bse x intent =
        (checked.2.submit env nowNs intent).1.failLeg (checked.2.submit env nowNs intent).2) := by
  intro checked
  unfold sendOne
  change (_ ∧ (if ¬ checked.1.approved = true then _ else _) = _) ∨
    (_ ∧ (if ¬ checked.1.approved = true then _ else _) = _)
  by_cases happ : checked.1.approved = true
  · exact Or.inr ⟨happ, if_neg (not_not.2 happ)⟩
  · exact Or.inl ⟨Bool.not_eq_true _ ▸ happ, if_pos happ⟩

theorem sendOne_steps (nse bse : BestQuote) (hside : intent.side ≠ .unknown)
    (hown : intent.parentArbId = x.pair.parentId ∧ intent.instrumentId = x.pair.instrumentId) :
    Steps env nowNs x (sendOne env nowNs nse bse x intent) := by
  have hchecked : Steps env nowNs x
      (x.checkLeg nowNs (quoteFor nse bse intent.venue) intent).2 := (quiet_checkLeg _).step
  rcases sendOne_cases env nowNs nse bse x intent with ⟨-, heq⟩ | ⟨happ, heq⟩
  · rw [heq]
    exact hchecked.trans (quiet_blockLeg (verdictRule_checkLeg _)).step
  · rw [heq]
    have hclear : Cleared (x.checkLeg nowNs (quoteFor nse bse intent.venue) intent).2 intent :=
      cleared_of_approved x.run.risk happ RiskEngine.cfg_checkOrder hside hown
    exact (hchecked.tail (.submit intent hclear)).trans (quiet_failLeg _).step

theorem sound_sendOne (hs : x.run.Sound) (nse bse : BestQuote) :
    (sendOne env nowNs nse bse x intent).run.Sound := by
  rcases sendOne_cases env nowNs nse bse x intent with ⟨-, heq⟩ | ⟨-, heq⟩
  · rw [heq]
    exact ⟨hs.books, hs.known, hs.taken⟩
  · rw [heq, failLeg_run]
    have hchecked : (x.checkLeg nowNs (quoteFor nse bse intent.venue) intent).2.run.Sound :=
      ⟨hs.books, hs.known, hs.taken⟩
    exact (submit_submitted hchecked env nowNs intent).sound

/-- What a turn of the hedge loop does. -/
inductive HedgeTurn (env : Env) (cfg : RiskConfig) (nowNs : ℕ) (x : Execution) :
    ForInStep Execution → Prop
  | finished (h : ¬ (x.pair.residual ≠ 0 ∧ x.pair.hedgeAttempts < cfg.maxHedgeAttempts)) :
      HedgeTurn env cfg nowNs x (.done x)
  | kill (hres : x.pair.residual ≠ 0) (hatt : x.pair.hedgeAttempts < cfg.maxHedgeAttempts)
      (hkill : ((x.hedgePoint nowNs).decision cfg).kill = true) :
      HedgeTurn env cfg nowNs x
        (.done (((x.asked nowNs).disable ((x.hedgePoint nowNs).decision cfg).reason).stopHedging
          nowNs .killSwitch "CRITICAL" ((x.hedgePoint nowNs).decision cfg).reason
          "hedge policy kill"))
  | noOrder (hres : x.pair.residual ≠ 0) (hatt : x.pair.hedgeAttempts < cfg.maxHedgeAttempts)
      (hsend : ¬ ((x.hedgePoint nowNs).decision cfg).shouldSend = true) :
      HedgeTurn env cfg nowNs x
        (.done ((x.asked nowNs).stopHedging nowNs .errorRecovery "HIGH"
          ((x.hedgePoint nowNs).decision cfg).reason "no hedge order produced"))
  | blocked (hres : x.pair.residual ≠ 0) (hatt : x.pair.hedgeAttempts < cfg.maxHedgeAttempts)
      (hsend : ((x.hedgePoint nowNs).decision cfg).shouldSend = true)
      (happ : ¬ ((x.hedgePoint nowNs).check cfg).1.approved = true) :
      HedgeTurn env cfg nowNs x
        (.done (((x.asked nowNs).attempted ((x.hedgePoint nowNs).check cfg).2).stopHedging nowNs
          .errorRecovery "HIGH" ((x.hedgePoint nowNs).check cfg).1.rule
          ((x.hedgePoint nowNs).check cfg).1.details))
  | sent (hres : x.pair.residual ≠ 0) (hatt : x.pair.hedgeAttempts < cfg.maxHedgeAttempts)
      (hsend : ((x.hedgePoint nowNs).decision cfg).shouldSend = true)
      (happ : ((x.hedgePoint nowNs).check cfg).1.approved = true) :
      HedgeTurn env cfg nowNs x
        (.yield (((x.asked nowNs).attempted ((x.hedgePoint nowNs).check cfg).2).submit env nowNs
          ((x.hedgePoint nowNs).decision cfg).intent).1.countHedge)

theorem hedgeBody_turn (env : Env) (cfg : RiskConfig) (nowNs : ℕ) (x : Execution) :
    HedgeTurn env cfg nowNs x (hedgeBody env cfg nowNs x) := by
  unfold hedgeBody
  by_cases hguard : x.pair.residual ≠ 0 ∧ x.pair.hedgeAttempts < cfg.maxHedgeAttempts
  · rw [if_neg (not_not.2 hguard)]
    obtain ⟨hres, hatt⟩ := hguard
    dsimp only
    by_cases hkill : ((x.hedgePoint nowNs).decision cfg).kill = true
    · rw [if_pos hkill]
      exact .kill hres hatt hkill
    rw [if_neg hkill]
    by_cases hsend : ((x.hedgePoint nowNs).decision cfg).shouldSend = true
    · rw [if_neg (not_not.2 hsend)]
      by_cases happ : ((x.hedgePoint nowNs).check cfg).1.approved = true
      · rw [if_neg (not_not.2 happ)]
        exact .sent hres hatt hsend happ
      · rw [if_pos happ]
        exact .blocked hres hatt hsend happ
    · rw [if_pos hsend]
      exact .noOrder hres hatt hsend
  · rw [if_pos hguard]
    exact .finished hguard

/-- The verdict to kill is looked at first. -/
theorem hedgeBody_kill {cfg : RiskConfig} (hres : x.pair.residual ≠ 0)
    (hatt : x.pair.hedgeAttempts < cfg.maxHedgeAttempts)
    (hkill : ((x.hedgePoint nowNs).decision cfg).kill = true) :
    hedgeBody env cfg nowNs x =
      .done (((x.asked nowNs).disable ((x.hedgePoint nowNs).decision cfg).reason).stopHedging
        nowNs .killSwitch "CRITICAL" ((x.hedgePoint nowNs).decision cfg).reason
        "hedge policy kill") := by
  unfold hedgeBody
  rw [if_neg (not_not.2 ⟨hres, hatt⟩)]
  exact if_pos hkill

theorem hedgeAttempts_submit (env : Env) (nowNs : ℕ) (x : Execution) (intent : OrderIntent) :
    (x.submit env nowNs intent).1.pair.hedgeAttempts = x.pair.hedgeAttempts :=
  PairTrade.hedgeAttempts_foldl _ _

/-- A turn that goes on has used up an attempt. -/
theorem hedgeAttempts_yield {cfg : RiskConfig} (h : hedgeBody env cfg nowNs x = .yield x') :
    x'.pair.hedgeAttempts = x.pair.hedgeAttempts + 1 ∧
      x.pair.hedgeAttempts < cfg.maxHedgeAttempts := by
  have hturn := hedgeBody_turn env cfg nowNs x
  rw [h] at hturn
  cases hturn with
  | sent hres hatt hsend happ => exact ⟨hedgeAttempts_submit env nowNs _ _, hatt⟩

/-- The hedge loop ends within the attempts left. -/
theorem hedge_ends (env : Env) (cfg : RiskConfig) (nowNs : ℕ) (x : Execution) :
    Ends (hedgeBody env cfg nowNs) x (runLoop (hedgeBody env cfg nowNs)
      ((cfg.maxHedgeAttempts - x.pair.hedgeAttempts).toNat + 1) x) := by
  refine runLoop_ends (I := fun _ => True)
    (μ := fun x => (cfg.maxHedgeAttempts - x.pair.hedgeAttempts).toNat) (fun _ _ _ _ => trivial)
    (fun y y' _ hy => ?_) trivial (Nat.lt_succ_self _)
  obtain ⟨hatt, hlt⟩ := hedgeAttempts_yield hy
  omega

/-- What the policy sends is an order of the pair. -/
theorem hedgePoint_intent {cfg : RiskConfig}
    (hsend : ((x.hedgePoint nowNs).decision cfg).shouldSend = true) :
    ∃ v q, ((x.hedgePoint nowNs).decision cfg).intent = hedgeIntent cfg x.pair v q := by
  obtain ⟨-, -, v, heq⟩ := nextOrder_send hsend
  have hcand : (candidateForVenue cfg x.pair v
      (quoteFor (x.hedgePoint nowNs).nse (x.hedgePoint nowNs).bse v)).shouldSend = true := by
    rw [HedgePoint.decision, heq] at hsend
    exact hsend
  refine ⟨v, quoteFor (x.hedgePoint nowNs).nse (x.hedgePoint nowNs).bse v, ?_⟩
  rw [HedgePoint.decision, heq]
  exact (candidateForVenue_send hcand).1

/-- An order of the policy that is approved is a cleared order of the pair. -/
theorem hedgePoint_cleared {cfg : RiskConfig}
    (hsend : ((x.hedgePoint nowNs).decision cfg).shouldSend = true)
    (happ : ((x.hedgePoint nowNs).check cfg).1.approved = true) :
    Cleared ((x.asked nowNs).attempted ((x.hedgePoint nowNs).check cfg).2)
      ((x.hedgePoint nowNs).decision cfg).intent := by
  obtain ⟨v, q, hintent⟩ := hedgePoint_intent hsend
  refine cleared_of_approved x.run.risk happ RiskEngine.cfg_checkOrder ?_ ?_
  · rw [hintent]
    unfold hedgeIntent
    dsimp only
    split_ifs <;> decide
  · rw [hintent]
    exact ⟨rfl, rfl⟩

/-- Every turn of the hedge loop is made of steps, whether it goes on or stops. -/
theorem hedgeBody_steps (env : Env) (cfg : RiskConfig) (nowNs : ℕ) (x : Execution) :
    ∀ r, hedgeBody env cfg nowNs x = r →
      match r with
      | .done y => Steps env nowNs x y
      | .yield y => Steps env nowNs x y := by
  intro r hr
  have hturn := hedgeBody_turn env cfg nowNs x
  rw [hr] at hturn
  have hasked : Steps env nowNs x (x.asked nowNs) := (quiet_observe _).step
  have hreason := (x.hedgePoint nowNs).verdictRule_reason cfg
  have hrule := (x.hedgePoint nowNs).verdictRule_check cfg
  cases hturn with
  | finished h => exact .refl
  | kill hres hatt hkill =>
    exact hasked.trans ((quiet_disable _).step.trans (quiet_stopHedging hreason _ _ _).step)
  | noOrder hres hatt hsend => exact hasked.trans (quiet_stopHedging hreason _ _ _).step
  | blocked hres hatt hsend happ =>
    exact hasked.trans ((quiet_attempted RiskEngine.cfg_checkOrder).step.trans
      (quiet_stopHedging hrule _ _ _).step)
  | sent hres hatt hsend happ =>
    have hattempted : Steps env nowNs (x.asked nowNs)
        ((x.asked nowNs).attempted ((x.hedgePoint nowNs).check cfg).2) :=
      (quiet_attempted (x := x.asked nowNs) RiskEngine.cfg_checkOrder).step
    exact hasked.trans ((hattempted.tail (.submit _ (hedgePoint_cleared hsend happ))).trans
      quiet_countHedge.step)

theorem hedgeLoop_steps {cfg : RiskConfig} (h : Ends (hedgeBody env cfg nowNs) x x') :
    Steps env nowNs x x' := by
  refine h.induct (I := fun y => Steps env nowNs x y) (R := fun y => Steps env nowNs x y) .refl
    ?_ ?_
  · intro y y' hy hbody
    exact hy.trans (hedgeBody_steps env cfg nowNs y _ hbody)
  · intro y y' hy hbody
    exact hy.trans (hedgeBody_steps env cfg nowNs y _ hbody)

theorem hedgeUntilFlat_steps (env : Env) (cfg : RiskConfig) (nowNs : ℕ) (x : Execution) :
    Steps env nowNs x (x.hedgeUntilFlat env cfg nowNs) :=
  (hedgeLoop_steps (hedge_ends env cfg nowNs x)).trans quiet_settle.step

end Execution

namespace ReplayState

open Execution

variable {env : Env} {nowNs : ℕ}

/-- **The invariant rule of the hedge of the legs.**  What the loop and the last correction of the
state keep holds after it. -/
theorem hedgeLegs_induct {I : Execution → Prop} {cfg : RiskConfig} {x : Execution} (hx : I x)
    (hhedge : x.pair.residual ≠ 0 →
      I (({ x with pair := { x.pair with state := .hedging } } : Execution).hedgeUntilFlat env cfg
        nowNs))
    (hflat : ∀ y, I y → I { y with pair := { y.pair with state := .flat } }) :
    I (hedgeLegs env cfg nowNs x) := by
  have hhedged : I (if x.pair.residual ≠ 0 then
      ({ x with pair := { x.pair with state := .hedging } } : Execution).hedgeUntilFlat env cfg
        nowNs
    else x) := by
    split_ifs with hres
    · exact hhedge hres
    · exact hx
  unfold hedgeLegs
  dsimp only
  generalize (if x.pair.residual ≠ 0 then _ else x) = y at hhedged ⊢
  split_ifs
  · exact hflat y hhedged
  · exact hhedged

theorem hedgeLegs_steps (env : Env) (cfg : RiskConfig) (nowNs : ℕ) (x : Execution) :
    Steps env nowNs x (hedgeLegs env cfg nowNs x) :=
  hedgeLegs_induct (I := Steps env nowNs x) .refl
    (fun _ => (quiet_setState .hedging).step.trans (hedgeUntilFlat_steps env cfg nowNs _))
    fun _ hy => hy.trans (quiet_setState .flat).step

/-- The side, the pair and the quantity of a leg. -/
theorem legs_own (cfg : SimConfig) (opp : ArbOpportunity) :
    ∀ leg, leg = (cfg.legs opp).1 ∨ leg = (cfg.legs opp).2 →
      leg.side ≠ .unknown ∧ leg.parentArbId = opp.parentArbId ∧
        leg.instrumentId = opp.instrumentId ∧ leg.qty = opp.qty := by
  intro leg hleg
  unfold SimConfig.legs at hleg
  split_ifs at hleg <;> rcases hleg with rfl | rfl <;> exact ⟨nofun, rfl, rfl, rfl⟩

theorem firstLeg_steps (env : Env) (cfg : SimConfig) (nowNs : ℕ) (s : ReplayState)
    (opp : ArbOpportunity) (nse bse : BestQuote) :
    Steps env nowNs ⟨s, .fromOpportunity opp⟩
      (Execution.sendOne env nowNs nse bse ⟨s, .fromOpportunity opp⟩ (cfg.legs opp).1) := by
  obtain ⟨hside, hparent, hinst, -⟩ := legs_own cfg opp _ (Or.inl rfl)
  exact sendOne_steps nse bse hside ⟨hparent, hinst⟩

/-- After the first leg the second is still an order of the pair. -/
theorem secondLeg_own (env : Env) (cfg : SimConfig) (nowNs : ℕ) (s : ReplayState)
    (opp : ArbOpportunity) (nse bse : BestQuote) :
    let x := Execution.sendOne env nowNs nse bse ⟨s, .fromOpportunity opp⟩ (cfg.legs opp).1
    (cfg.legs opp).2.parentArbId = x.pair.parentId ∧
      (cfg.legs opp).2.instrumentId = x.pair.instrumentId := by
  intro x
  obtain ⟨-, hparent, hinst, -⟩ := legs_own cfg opp _ (Or.inr rfl)
  have hsame := (firstLeg_steps env cfg nowNs s opp nse bse).sameTrade
  exact ⟨hparent.trans hsame.parentId.symm, hinst.trans hsame.instrumentId.symm⟩

theorem sendLegs_steps (env : Env) (cfg : SimConfig) (nowNs : ℕ) (s : ReplayState)
    (opp : ArbOpportunity) :
    Steps env nowNs ⟨s, .fromOpportunity opp⟩
      (s.sendLegs env nowNs opp (cfg.legs opp).1 (cfg.legs opp).2) :=
  (firstLeg_steps env cfg nowNs s opp _ _).trans (sendOne_steps _ _
    (legs_own cfg opp _ (Or.inr rfl)).1 (secondLeg_own env cfg nowNs s opp _ _))

/-- The execution of an opportunity from its first to its last step. -/
def executed (env : Env) (cfg : SimConfig) (nowNs : ℕ) (s : ReplayState) (opp : ArbOpportunity) :
    Execution :=
  hedgeLegs env cfg.risk nowNs (s.sendLegs env nowNs opp (cfg.legs opp).1 (cfg.legs opp).2)

/-- **An execution is made of quiet steps and cleared submissions.** -/
theorem executed_steps (env : Env) (cfg : SimConfig) (nowNs : ℕ) (s : ReplayState)
    (opp : ArbOpportunity) :
    Steps env nowNs ⟨s, .fromOpportunity opp⟩ (s.executed env cfg nowNs opp) :=
  (sendLegs_steps env cfg nowNs s opp).trans (hedgeLegs_steps env cfg.risk nowNs _)

end ReplayState

end Hft
