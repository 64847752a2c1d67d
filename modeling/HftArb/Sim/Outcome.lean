import HftArb.Sim.Observations

/-!
# The outcome of a pair

The state of a pair is written by every fill, by every failed leg, by each way out of the hedge loop
and by the two corrections at the end.  `Unkilled` and `Verdict` follow it through the loop together
with what the policy has answered, so that the row logged at the end tells the truth about both
(`executeOpportunity_truthful`).
-/

namespace Hft

open Transition

/-- The hedge policy was asked and returned kill. -/
def KillShown (cfg : RiskConfig) (obs : List Observation) : Prop :=
  ∃ h, .hedging h ∈ obs ∧ (h.decision cfg).kill = true

namespace Execution

variable {env : Env} {cfg : RiskConfig} {nowNs : ℕ} {x x' : Execution} {past : List Observation}

/-- The loop of `hedge_until_flat` is at `x`, and the policy has not returned kill since `past`. -/
structure Unkilled (cfg : RiskConfig) (past : List Observation) (x : Execution) : Prop where
  trace : ∃ obs, x.run.trace = past ++ obs ∧ ¬ KillShown cfg obs
  state : x.pair.residual ≠ 0 → x.pair.state = .hedging

/-- The loop has been left at `x`: after a verdict to kill, or without one. -/
structure Verdict (cfg : RiskConfig) (past : List Observation) (x : Execution) : Prop where
  trace : ∃ obs, x.run.trace = past ++ obs ∧
    ((¬ KillShown cfg obs ∧
        (x.pair.residual ≠ 0 → x.pair.state = .hedging ∨ x.pair.state = .errorRecovery)) ∨
      (KillShown cfg obs ∧ x.pair.residual ≠ 0 ∧ x.pair.state = .killSwitch ∧
        x.run.risk.kill.enabled = false))

/-- A turn that does not kill shows no verdict to kill. -/
theorem not_killShown_append {obs : List Observation} (h : ¬ KillShown cfg obs) {o : Observation}
    (ho : ∀ p, o = .hedging p → (p.decision cfg).kill = false) : ¬ KillShown cfg (obs ++ [o]) := by
  rintro ⟨p, hp, hkill⟩
  rcases List.mem_append.1 hp with hp | hp
  · exact h ⟨p, hp, hkill⟩
  · rw [ho p (List.mem_singleton.1 hp).symm] at hkill
    cases hkill

/-- Where the loop goes on or stops without a kill, the policy has not returned one. -/
theorem kill_eq_false (hres : x.pair.residual ≠ 0)
    (hatt : x.pair.hedgeAttempts < cfg.maxHedgeAttempts) {r : ForInStep Execution}
    (hbody : hedgeBody env cfg nowNs x = r)
    (hr : r ≠ .done (((x.asked nowNs).disable ((x.hedgePoint nowNs).decision cfg).reason).stopHedging
        nowNs .killSwitch "CRITICAL" ((x.hedgePoint nowNs).decision cfg).reason
        "hedge policy kill")) : ((x.hedgePoint nowNs).decision cfg).kill = false := by
  by_contra hkill
  exact hr (hbody.symm.trans (hedgeBody_kill hres hatt (Bool.not_eq_false _ ▸ hkill)))

/-- After the policy has been asked. -/
theorem Unkilled.asked (h : Unkilled cfg past x)
    (hkill : ((x.hedgePoint nowNs).decision cfg).kill = false) :
    ∃ obs, (x.asked nowNs).run.trace = past ++ obs ∧ ¬ KillShown cfg obs := by
  obtain ⟨obs, htrace, hno⟩ := h.trace
  refine ⟨obs ++ [.hedging (x.hedgePoint nowNs)], ?_, not_killShown_append hno ?_⟩
  · rw [← List.append_assoc, ← htrace]
    rfl
  · rintro p hp
    cases hp
    exact hkill

theorem Unkilled.yield (h : Unkilled cfg past x)
    (hbody : hedgeBody env cfg nowNs x = .yield x') : Unkilled cfg past x' := by
  have hturn := hedgeBody_turn env cfg nowNs x
  rw [hbody] at hturn
  cases hturn with
  | sent hres hatt hsend happ =>
    obtain ⟨obs, htrace, hno⟩ := h.asked (kill_eq_false hres hatt hbody (by simp))
    refine ⟨⟨obs ++ [.sent ((x.hedgePoint nowNs).decision cfg).intent], ?_,
      not_killShown_append hno (by simp)⟩, ?_⟩
    · rw [← List.append_assoc, ← htrace]
      rfl
    · exact PairTrade.state_foldl _ fun _ => h.state hres

theorem Unkilled.done (h : Unkilled cfg past x)
    (hbody : hedgeBody env cfg nowNs x = .done x') : Verdict cfg past x' := by
  have hturn := hedgeBody_turn env cfg nowNs x
  rw [hbody] at hturn
  cases hturn with
  | finished hguard =>
    obtain ⟨obs, htrace, hno⟩ := h.trace
    exact ⟨obs, htrace, Or.inl ⟨hno, fun hres => Or.inl (h.state hres)⟩⟩
  | kill hres hatt hkill =>
    obtain ⟨obs, htrace, hno⟩ := h.trace
    refine ⟨obs ++ [.hedging (x.hedgePoint nowNs)], ?_, Or.inr ⟨?_, hres, rfl, rfl⟩⟩
    · rw [← List.append_assoc, ← htrace]
      rfl
    · exact ⟨_, List.mem_append_right _ (List.mem_singleton_self _), hkill⟩
  | noOrder hres hatt hsend =>
    have hkill : ((x.hedgePoint nowNs).decision cfg).kill = false :=
      kill_eq_false hres hatt hbody (by simp [stopHedging])
    obtain ⟨obs, htrace, hno⟩ := h.asked hkill
    exact ⟨obs, htrace, Or.inl ⟨hno, fun _ => Or.inr rfl⟩⟩
  | blocked hres hatt hsend happ =>
    have hkill : ((x.hedgePoint nowNs).decision cfg).kill = false :=
      kill_eq_false hres hatt hbody (by simp [stopHedging])
    obtain ⟨obs, htrace, hno⟩ := h.asked hkill
    exact ⟨obs, htrace, Or.inl ⟨hno, fun _ => Or.inr rfl⟩⟩

end Execution

/-- What the row of a pair has to say: its state, against its quantities and the verdicts shown. -/
structure Truthful (cfg : RiskConfig) (obs : List Observation) (pair : PairTrade)
    (kill : KillSwitch) : Prop where
  flat : pair.state = .flat ↔ pair.boughtQty = pair.soldQty
  stuck : pair.boughtQty ≠ pair.soldQty →
    (pair.state = .killSwitch ∨ pair.state = .errorRecovery) ∧ pair.residual ≠ 0
  killed : pair.state = .killSwitch ↔ KillShown cfg obs
  off : KillShown cfg obs → kill.enabled = false

/-- A pair that is flat without a verdict to kill. -/
theorem Truthful.of_flat {cfg : RiskConfig} {obs : List Observation} {pair : PairTrade}
    (kill : KillSwitch) (hno : ¬ KillShown cfg obs) (hres : pair.residual = 0)
    (hstate : pair.state = .flat) : Truthful cfg obs pair kill := by
  have heq : pair.boughtQty = pair.soldQty := sub_eq_zero.1 hres
  refine ⟨iff_of_true hstate heq, fun hne => absurd heq hne, iff_of_false ?_ hno,
    fun h => absurd h hno⟩
  rw [hstate]
  simp

namespace Execution

variable {env : Env} {cfg : RiskConfig} {nowNs : ℕ} {x : Execution} {past : List Observation}

/-- The end of `hedge_until_flat` corrects the state. -/
theorem Verdict.settle (h : Verdict cfg past x) : ∃ obs, x.settle.run.trace = past ++ obs ∧
    Truthful cfg obs x.settle.pair x.settle.run.risk.kill := by
  obtain ⟨obs, htrace, hverdict⟩ := h.trace
  have hres : x.settle.pair.residual = x.pair.residual := rfl
  refine ⟨obs ++ [.hedged x.settle.pair x.settle.run.risk.kill], ?_, ?_⟩
  · rw [← List.append_assoc, ← htrace]
    rfl
  rcases hverdict with ⟨hno, hstate⟩ | ⟨hkill, hopen, hstate, hoff⟩
  · have hno' := @not_killShown_append cfg obs hno
      (.hedged x.settle.pair x.settle.run.risk.kill) (by simp)
    by_cases hflat : x.pair.residual = 0
    · exact .of_flat _ hno' hflat (if_pos hflat)
    · have hne : x.settle.pair.boughtQty ≠ x.settle.pair.soldQty := fun heq =>
        hflat (sub_eq_zero.2 heq)
      have hsettled : x.settle.pair.state = .errorRecovery := by
        have hstate' : x.settle.pair.state =
            if x.pair.state = .hedging then .errorRecovery else x.pair.state := if_neg hflat
        rw [hstate']
        rcases hstate hflat with hs | hs
        · rw [if_pos hs]
        · rw [hs]
          rfl
      refine ⟨iff_of_false ?_ hne, fun _ => ⟨Or.inr hsettled, hflat⟩, iff_of_false ?_ hno',
        fun hshown => absurd hshown hno'⟩
      · rw [hsettled]
        simp
      · rw [hsettled]
        simp
  · have hne : x.settle.pair.boughtQty ≠ x.settle.pair.soldQty := fun heq =>
      hopen (sub_eq_zero.2 heq)
    have hsettled : x.settle.pair.state = .killSwitch := by
      have hstate' : x.settle.pair.state =
          if x.pair.state = .hedging then .errorRecovery else x.pair.state := if_neg hopen
      rw [hstate', hstate]
      rfl
    have hshown : KillShown cfg (obs ++ [.hedged x.settle.pair x.settle.run.risk.kill]) := by
      obtain ⟨p, hp, hk⟩ := hkill
      exact ⟨p, List.mem_append_left _ hp, hk⟩
    refine ⟨iff_of_false ?_ hne, fun _ => ⟨Or.inl hsettled, hopen⟩, iff_of_true hsettled hshown,
      fun _ => hoff⟩
    rw [hsettled]
    simp

theorem Unkilled.hedgeUntilFlat (h : Unkilled cfg past x) :
    ∃ obs, (x.hedgeUntilFlat env cfg nowNs).run.trace = past ++ obs ∧
      Truthful cfg obs (x.hedgeUntilFlat env cfg nowNs).pair
        (x.hedgeUntilFlat env cfg nowNs).run.risk.kill :=
  ((hedge_ends env cfg nowNs x).induct (I := Unkilled cfg past) (R := Verdict cfg past) h
    (fun _ _ hs hbody => hs.yield hbody) (fun _ _ hs hbody => hs.done hbody)).settle

end Execution

namespace ReplayState

open Execution

variable {env : Env} {nowNs : ℕ}

/-- What the hedge of the legs leaves. -/
theorem hedgeLegs_truthful (env : Env) (cfg : RiskConfig) (nowNs : ℕ) (x : Execution) :
    ∃ obs, (hedgeLegs env cfg nowNs x).run.trace = x.run.trace ++ obs ∧
      Truthful cfg obs (hedgeLegs env cfg nowNs x).pair
        (hedgeLegs env cfg nowNs x).run.risk.kill := by
  unfold hedgeLegs
  dsimp only
  by_cases hres : x.pair.residual = 0
  · have hnone : ¬ KillShown cfg [] := fun ⟨p, hp, _⟩ => List.not_mem_nil hp
    rw [if_neg (not_not.2 hres), if_pos hres]
    exact ⟨[], (List.append_nil _).symm, .of_flat _ hnone hres rfl⟩
  · rw [if_pos hres]
    have hstart : Unkilled cfg x.run.trace
        { x with pair := { x.pair with state := .hedging } } :=
      ⟨⟨[], (List.append_nil _).symm, fun ⟨p, hp, _⟩ => List.not_mem_nil hp⟩, fun _ => rfl⟩
    obtain ⟨obs, htrace, htruthful⟩ := @Unkilled.hedgeUntilFlat env cfg nowNs _ _ hstart
    generalize Execution.hedgeUntilFlat _ _ _ _ = y at htrace htruthful ⊢
    by_cases hflat : y.pair.residual = 0
    · -- the last correction finds the state as `settle` has left it
      have hsame : { y with pair := { y.pair with state := .flat } } = y := by
        have hstate := htruthful.flat.2 (sub_eq_zero.1 hflat)
        rw [← hstate]
      rw [if_pos hflat, hsame]
      exact ⟨obs, htrace, htruthful⟩
    · rw [if_neg hflat]
      exact ⟨obs, htrace, htruthful⟩

theorem not_killShown_legsShown (cfg : SimConfig) (opp : ArbOpportunity)
    (rd : RiskDecision × RiskDecision) : ¬ KillShown cfg.risk (legsShown cfg opp rd) := by
  rintro ⟨p, hp, -⟩
  unfold legsShown legShown at hp
  split_ifs at hp <;> simp at hp

/-- **The reported outcome of a pair is truthful.**  Every call of `execute_opportunity` logs one row:
it is `FLAT` exactly when as much was bought as sold, otherwise it is open in one of the two error
states, and it is `KILL_SWITCH` exactly when the policy returned kill in this call, after which the
kill switch is off. -/
theorem executeOpportunity_truthful (env : Env) (cfg : SimConfig) (nowNs : ℕ) (s : ReplayState)
    (opp : ArbOpportunity) : ∃ pair obs,
      (s.executeOpportunity env cfg nowNs opp).logs.pairs = s.logs.pairs ++ [pair] ∧
      (s.executeOpportunity env cfg nowNs opp).trace = s.trace ++ obs ∧
      (s.executeOpportunity env cfg nowNs opp).result.finalState = pair.state.text ∧
      pair.parentId = opp.parentArbId ∧
      Truthful cfg.risk obs pair (s.executeOpportunity env cfg nowNs opp).risk.kill := by
  have hlegs := sendLegs_spec env cfg nowNs s opp
  obtain ⟨obs, htrace, htruthful⟩ := hedgeLegs_truthful env cfg.risk nowNs
    (s.sendLegs env nowNs opp (cfg.legs opp).1 (cfg.legs opp).2)
  obtain ⟨-, -, hrisk, -, -, hpairs, hend⟩ := executeOpportunity_eq env cfg nowNs s opp
  have hsteps := executed_steps env cfg nowNs s opp
  -- neither the legs nor the end of the call are verdicts of the policy
  have hshown : KillShown cfg.risk (legsShown cfg opp (s.legChecks env cfg nowNs opp) ++ obs ++
      [.executed (cfg.legs opp).1 (cfg.legs opp).2 (s.executed env cfg nowNs opp).pair]) ↔
        KillShown cfg.risk obs := by
    constructor
    · rintro ⟨p, hp, hkill⟩
      rcases List.mem_append.1 hp with hp | hp
      · rcases List.mem_append.1 hp with hp | hp
        · exact absurd ⟨p, hp, hkill⟩ (not_killShown_legsShown cfg opp _)
        · exact ⟨p, hp, hkill⟩
      · cases List.mem_singleton.1 hp
    · rintro ⟨p, hp, hkill⟩
      exact ⟨p, List.mem_append_left _ (List.mem_append_right _ hp), hkill⟩
  refine ⟨(s.executed env cfg nowNs opp).pair,
    legsShown cfg opp (s.legChecks env cfg nowNs opp) ++ obs ++
      [.executed (cfg.legs opp).1 (cfg.legs opp).2 (s.executed env cfg nowNs opp).pair],
    ?_, ?_, rfl, hsteps.sameTrade.parentId, ?_⟩
  · rw [hpairs, hsteps.pairs]
  · rw [hend]
    change (hedgeLegs env cfg.risk nowNs _).run.trace ++ _ = _
    rw [htrace, hlegs.trace]
    simp only [List.append_assoc]
  · rw [hrisk]
    exact ⟨htruthful.flat, htruthful.stuck, htruthful.killed.trans hshown.symm,
      fun h => htruthful.off (hshown.1 h)⟩

end ReplayState

end Hft
