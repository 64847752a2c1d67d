import HftArb.Sim.Ledger

/-!
# The position cap over whole runs

`check_order` looks at the position before an order and at the full quantity of the order; fills
come in pieces.  `Guarded` says that the loop of `run_replay` is at a point where the risk engine
still works by the limits it was given and where no position has passed the cap.  Every execution
keeps it (`Steps.capped`), and so does every run.
-/

namespace Hft

open Execution

namespace ReplayState

variable {env : Env} {cfg : SimConfig} {s s' : ReplayState}

/-- The ledgers are balanced and the cap has held after every execution report. -/
structure Guarded (cfg : SimConfig) (s : ReplayState) : Prop where
  balanced : s.Balanced
  riskCfg : s.risk.cfg = cfg.risk
  now : s.oms.positions.Within cfg.risk.maxPositionQty
  trail : ∀ pb ∈ s.oms.trail, pb.Within cfg.risk.maxPositionQty

theorem Guarded.quiet (h : s.Guarded cfg) (hq : Quiet s s') : s'.Guarded cfg where
  balanced := h.balanced.quiet hq
  riskCfg := by rw [hq.risk, h.riskCfg]
  now := by rw [hq.oms]; exact h.now
  trail := by rw [hq.oms]; exact h.trail

/-- Reading an item touches neither limits nor positions. -/
theorem Guarded.read (h : s.Guarded cfg) (md : MarketDataHandler) :
    { s with md := md }.Guarded cfg :=
  ⟨h.balanced.read md, h.riskCfg, h.now, h.trail⟩

/-- Nothing has been traded yet when an execution starts. -/
theorem Guarded.capped (h : s.Guarded cfg) (opp : ArbOpportunity) :
    Capped cfg.risk.maxPositionQty ⟨s, .fromOpportunity opp⟩ :=
  ⟨h.now, h.trail, fun hres => absurd rfl hres⟩

/-- **The steps of an execution keep the cap.** -/
theorem Guarded.steps (h : s.Guarded cfg) {nowNs : ℕ} {opp : ArbOpportunity} {x : Execution}
    (hx : Steps env nowNs ⟨s, .fromOpportunity opp⟩ x) : Capped cfg.risk.maxPositionQty x := by
  refine hx.capped (tracks_start h.balanced.sound opp) (h.capped opp) ?_
  exact congrArg RiskConfig.maxPositionQty h.riskCfg

theorem Guarded.turn (h : s.Guarded cfg) (ht : Turn env cfg s s') : s'.Guarded cfg := by
  cases ht with
  | quiet hq => exact h.quiet hq
  | @execute s₁ nowNs opp hq hseq hparent =>
    have h₁ := h.quiet hq
    have hsteps := executed_steps env cfg nowNs s₁ opp
    have hcap := h₁.steps hsteps
    exact ⟨h.balanced.turn (.execute nowNs opp hq hseq hparent), hsteps.riskCfg.trans h₁.riskCfg,
      hcap.now, hcap.trail⟩

end ReplayState

namespace Simulator

open ReplayState

variable {sim : Simulator}

theorem guarded_start (h : sim.books.Wf) (lines : List Bytes) :
    (sim.start lines).Guarded sim.cfg where
  balanced := balanced_start h lines
  riskCfg := by
    unfold start
    dsimp only
    split_ifs <;> rfl
  now i := by simp [start, PositionBook.netQty, PositionBook.position]
  trail pb hpb := absurd hpb List.not_mem_nil

theorem guarded_replayFor (h : sim.books.Wf) (call : ReplayCall) (turns : ℕ) :
    (sim.replayFor call turns).Guarded sim.cfg :=
  replayFor_induct (I := Guarded sim.cfg) (guarded_start h call.lines)
    (fun _ _ hs => hs.read _) (fun _ _ hs ht => hs.turn ht) turns

/-- **The position cap.**  In every run, of a simulator that may have run before, no instrument's
net quantity is above the cap, neither now nor after any execution report received so far. -/
theorem run_positionCap (cfg : SimConfig) (hcap : 0 ≤ cfg.risk.maxPositionQty)
    (calls : List ReplayCall) (call : ReplayCall) (turns : ℕ) :
    ∀ pb, pb = ((afterRuns cfg calls).replayFor call turns).oms.positions ∨
        pb ∈ ((afterRuns cfg calls).replayFor call turns).oms.trail →
      ∀ i, |pb.netQty i| ≤ cfg.risk.maxPositionQty := by
  obtain ⟨hbooks, hsame⟩ := afterRuns_spec cfg calls
  have h := guarded_replayFor hbooks call turns
  rw [hsame] at h
  have hwithin : ∀ pb : PositionBook, pb.Within cfg.risk.maxPositionQty →
      ∀ i, |pb.netQty i| ≤ cfg.risk.maxPositionQty := fun pb hpb i => by
    have := hpb i
    rwa [max_eq_left hcap] at this
  rintro pb (rfl | hpb)
  · exact hwithin _ h.now
  · exact hwithin pb (h.trail pb hpb)

/-- A feed on which the bid of NSE is above the ask of BSE after the fourth event, and again after
the fifth, once the first opportunity has taken the ask. -/
def crossedMarket : ReplayCall where
  env := ⟨fun _ => 0, fun _ => .byId⟩
  lines := ["1,1,NSE,1,1,ADD,1,1,ADD,1,BUY,120,100", "1,2,NSE,1,2,ADD,1,1,ADD,2,SELL,130,100",
    "1,3,BSE,1,1,ADD,1,1,ADD,3,BUY,90,100", "1,4,BSE,1,2,ADD,1,1,ADD,4,SELL,100,50",
    "1,5,BSE,1,3,ADD,1,1,ADD,5,SELL,100,50"].map String.toList
  maxTrades := 10

/-- With NSE out of reach every sale is rejected, and the first purchase reaches the cap. -/
theorem run_positionCap_reached :
    let cfg : SimConfig :=
      { risk := { maxPositionQty := 50 }
        scenario := .fromName "gateway_disconnect_nse" }
    let s := (afterRuns cfg []).replayFor crossedMarket 4
    s.oms.positions.netQty 1 = 50 ∧
      ∀ pb, pb = s.oms.positions ∨ pb ∈ s.oms.trail → ∀ i, |pb.netQty i| ≤ 50 :=
  ⟨by decide +kernel, run_positionCap _ (by decide) [] crossedMarket 4⟩

end Simulator

end Hft
