import HftArb.Sim.Observations

/-!
# The blocks of a run

Parent ids are never reused, so what a run shows under one parent id is what one execution has
shown (`run_block`).  A property of runs then follows from one of executions.
-/

namespace Hft

open Execution

/-- The parent id of what is observed. -/
def Observation.parent : Observation → String
  | .leg intent _ => intent.parentArbId
  | .sent intent => intent.parentArbId
  | .hedging h => h.pair.parentId
  | .hedged pair _ => pair.parentId
  | .executed _ _ pair => pair.parentId

/-- What was observed under a parent id. -/
def ofParent (parent : String) (trace : List Observation) : List Observation :=
  trace.filter fun o => o.parent = parent

section OfParent

variable {parent : String} {l l' : List Observation}

theorem ofParent_append : ofParent parent (l ++ l') = ofParent parent l ++ ofParent parent l' :=
  List.filter_append ..

theorem ofParent_self (h : ∀ o ∈ l, o.parent = parent) : ofParent parent l = l := by
  simpa only [ofParent, List.filter_eq_self, decide_eq_true_eq] using h

theorem ofParent_none (h : ∀ o ∈ l, o.parent ≠ parent) : ofParent parent l = [] := by
  simpa only [ofParent, List.filter_eq_nil_iff, decide_eq_true_eq] using h

end OfParent

/-- What one execution shows that starts at a guarded point of a run. -/
inductive Block (cfg : SimConfig) : List Observation → Prop
  | execution {env : Env} {nowNs : ℕ} {s : ReplayState} {opp : ArbOpportunity} {x : Execution}
      {obs : List Observation} (hs : s.Guarded cfg) (h : s.Shows env cfg nowNs opp x obs) :
      Block cfg (ReplayState.legsShown cfg opp (s.legChecks env cfg nowNs opp) ++ obs ++
        [.executed (cfg.legs opp).1 (cfg.legs opp).2 (s.executed env cfg nowNs opp).pair])

namespace ReplayState

variable {env : Env} {cfg : SimConfig} {s s' : ReplayState}

theorem parent_legsShown {opp : ArbOpportunity} {rd : RiskDecision × RiskDecision} :
    ∀ o ∈ legsShown cfg opp rd, o.parent = opp.parentArbId := by
  have hleg : ∀ leg, leg = (cfg.legs opp).1 ∨ leg = (cfg.legs opp).2 → ∀ rd, ∀ o ∈ legShown leg rd,
      o.parent = opp.parentArbId := by
    intro leg hleg rd
    have hown := (legs_own cfg opp leg hleg).2.1
    refine List.forall_mem_cons.2 ⟨hown, ?_⟩
    split_ifs
    · exact List.forall_mem_singleton.2 hown
    · simp
  exact List.forall_mem_append.2 ⟨hleg _ (Or.inl rfl) _, hleg _ (Or.inr rfl) _⟩

theorem mem_legsShown {opp : ArbOpportunity} {rd : RiskDecision × RiskDecision} :
    ∀ o ∈ legsShown cfg opp rd, ∃ intent, o = .sent intent ∨ ∃ rd, o = .leg intent rd := by
  have hleg : ∀ leg rd, ∀ o ∈ legShown leg rd,
      ∃ intent, o = .sent intent ∨ ∃ rd, o = .leg intent rd := by
    intro leg rd
    refine List.forall_mem_cons.2 ⟨⟨leg, Or.inr ⟨rd, rfl⟩⟩, ?_⟩
    split_ifs
    · exact List.forall_mem_singleton.2 ⟨leg, Or.inl rfl⟩
    · simp
  exact List.forall_mem_append.2 ⟨hleg _ _, hleg _ _⟩

theorem parent_hedgeShown {cfg : RiskConfig} {nowNs : ℕ} {x₀ : Execution} {o : Observation}
    (h : HedgeShown env cfg nowNs x₀ o) : o.parent = x₀.pair.parentId := by
  cases h with
  | hedging h hres => exact h.sameTrade.parentId
  | sent h hsend =>
    obtain ⟨v, q, hintent⟩ := hedgePoint_intent hsend
    rw [hintent]
    exact h.sameTrade.parentId
  | hedged h hstop => exact h.sameTrade.parentId

/-- All of a block is under the parent id of the opportunity. -/
theorem Shows.parent {nowNs : ℕ} {opp : ArbOpportunity} {x : Execution} {obs : List Observation}
    (h : s.Shows env cfg nowNs opp x obs) :
    ∀ o ∈ legsShown cfg opp (s.legChecks env cfg nowNs opp) ++ obs ++
        [.executed (cfg.legs opp).1 (cfg.legs opp).2 (s.executed env cfg nowNs opp).pair],
      o.parent = opp.parentArbId := by
  refine List.forall_mem_append.2 ⟨List.forall_mem_append.2 ⟨parent_legsShown, fun o ho => ?_⟩,
    List.forall_mem_singleton.2 ?_⟩
  · exact parent_hedgeShown (h.hedge.hedge o ho)
  · exact (executed_steps env cfg nowNs s opp).sameTrade.parentId

/-- The hedge points and the return of `hedge_until_flat` in a block are those of the hedge, and the
end is its last observation. -/
theorem Shows.mem {nowNs : ℕ} {opp : ArbOpportunity} {x : Execution} {obs : List Observation}
    (h : s.Shows env cfg nowNs opp x obs) {o : Observation}
    (ho : o ∈ legsShown cfg opp (s.legChecks env cfg nowNs opp) ++ obs ++
      [.executed (cfg.legs opp).1 (cfg.legs opp).2 (s.executed env cfg nowNs opp).pair]) :
    (∃ intent, o = .sent intent ∨ ∃ rd, o = .leg intent rd) ∨
      HedgeShown env cfg.risk nowNs ⟨s, .fromOpportunity opp⟩ o ∨
      o = .executed (cfg.legs opp).1 (cfg.legs opp).2 (s.executed env cfg nowNs opp).pair := by
  rcases List.mem_append.1 ho with ho | ho
  · rcases List.mem_append.1 ho with ho | ho
    · exact Or.inl (mem_legsShown o ho)
    · exact Or.inr (Or.inl (h.hedge.hedge o ho))
  · exact Or.inr (Or.inr (List.mem_singleton.1 ho))

/-- A block has one end. -/
theorem Shows.ends {nowNs : ℕ} {opp : ArbOpportunity} {x : Execution} {obs : List Observation}
    {first second : OrderIntent} {pair : PairTrade} (h : s.Shows env cfg nowNs opp x obs)
    (hmem : .executed first second pair ∈
      legsShown cfg opp (s.legChecks env cfg nowNs opp) ++ obs ++
        [.executed (cfg.legs opp).1 (cfg.legs opp).2 (s.executed env cfg nowNs opp).pair]) :
    first = (cfg.legs opp).1 ∧ second = (cfg.legs opp).2 ∧
      pair = (s.executed env cfg nowNs opp).pair := by
  rcases h.mem hmem with ⟨_, heq | ⟨_, heq⟩⟩ | hshown | heq
  · cases heq
  · cases heq
  · cases hshown
  · simpa only [Observation.executed.injEq] using heq

/-- The run has shown nothing but blocks. -/
structure Blocks (cfg : SimConfig) (s : ReplayState) : Prop where
  issued : ∀ o ∈ s.trace, s.Issued o.parent
  block : ∀ o ∈ s.trace, Block cfg (ofParent o.parent s.trace)

theorem Blocks.quiet (h : s.Blocks cfg) (hq : Quiet s s') : s'.Blocks cfg where
  issued := by
    rw [hq.trace]
    exact fun o ho => (h.issued o ho).mono hq.ids
  block := by
    rw [hq.trace]
    exact h.block

/-- **An execution adds its block**, which has a new parent id. -/
theorem Blocks.turn (h : s.Blocks cfg) (hg : s.Guarded cfg) (ht : Turn env cfg s s') :
    s'.Blocks cfg := by
  cases ht with
  | quiet hq => exact h.quiet hq
  | @execute s₁ nowNs opp hq hseq hparent =>
    obtain ⟨x, obs, hshow⟩ := executed_shows env cfg nowNs s₁ opp
    have hown := hshow.parent
    have hblock := Block.execution (hg.quiet hq) hshow
    have htrace := hshow.trace
    generalize legsShown cfg opp _ ++ obs ++ _ = b at hown hblock htrace
    obtain ⟨cur, hids⟩ := (executed_steps env cfg nowNs s₁ opp).tracks
      (tracks_start (hg.quiet hq).balanced.sound opp)
    have hseq' : (s₁.executeOpportunity env cfg nowNs opp).countTrade.ids = s₁.ids := hids.ids
    have hno : ¬ s.Issued opp.parentArbId := not_issued hparent (by omega)
    have hnew : ∀ o ∈ s.trace, o.parent ≠ opp.parentArbId := fun o ho heq =>
      hno (heq ▸ h.issued o ho)
    change _ = s₁.trace ++ b at htrace
    rw [hq.trace] at htrace
    have htrace' : (s₁.executeOpportunity env cfg nowNs opp).countTrade.trace = s.trace ++ b :=
      htrace
    constructor <;> rw [htrace']
    · refine List.forall_mem_append.2 ⟨fun o ho => ?_, fun o ho => ?_⟩
      · exact (h.issued o ho).mono (by rw [hseq']; omega)
      · exact ⟨_, _, _, (hown o ho).trans hparent, by rw [hseq']⟩
    · refine List.forall_mem_append.2 ⟨fun o ho => ?_, fun o ho => ?_⟩
      · have hnone : ofParent o.parent b = [] := ofParent_none fun o' ho' heq =>
          hnew o ho (heq.symm.trans (hown o' ho'))
        rw [ofParent_append, hnone, List.append_nil]
        exact h.block o ho
      · rw [hown o ho, ofParent_append, ofParent_none hnew, ofParent_self hown]
        exact hblock

end ReplayState

namespace Simulator

open ReplayState

theorem blocks_replayFor {sim : Simulator} (h : sim.books.Wf) (call : ReplayCall) (turns : ℕ) :
    (sim.replayFor call turns).Blocks sim.cfg := by
  refine (replayFor_induct (I := fun s => s.Guarded sim.cfg ∧ s.Blocks sim.cfg)
    ⟨guarded_start h call.lines, ⟨by simp [start], by simp [start]⟩⟩ ?_ ?_ turns).2
  · exact fun _ _ hs => ⟨hs.1.read _, hs.2.issued, hs.2.block⟩
  · exact fun _ _ hs ht => ⟨hs.1.turn ht, hs.2.turn hs.1 ht⟩

/-- **What a run shows under a parent id is the block of one execution.** -/
theorem run_block (cfg : SimConfig) (calls : List ReplayCall) (call : ReplayCall) (turns : ℕ) :
    ∀ o ∈ ((afterRuns cfg calls).replayFor call turns).trace,
      Block cfg (ofParent o.parent ((afterRuns cfg calls).replayFor call turns).trace) := by
  obtain ⟨hbooks, hsame⟩ := afterRuns_spec cfg calls
  have h := (blocks_replayFor hbooks call turns).block
  rwa [hsame] at h

/-- Where a run starts to execute an opportunity, within a number of turns. -/
inductive Starts (sim : Simulator) (call : ReplayCall) (turns : ℕ) :
    ℕ → ReplayState → ArbOpportunity → Prop
  | turn {n : ℕ} {item : MdResult} {md : MarketDataHandler} {ev : BookEvent ℤ} {nse bse : BestQuote}
      (hn : n < turns) (hnext : (sim.replayFor call n).md.next = (some item, md))
      (h : Decides sim.cfg { sim.replayFor call n with md := md } item ev nse bse) :
      Starts sim call turns ev.tsIngestNs
        (opened sim.cfg { sim.replayFor call n with md := md } item ev nse bse).2
        (opened sim.cfg { sim.replayFor call n with md := md } item ev nse bse).1

/-- **Every execution that a run shows** starts in one of its turns. -/
theorem executed_starts {sim : Simulator} {call : ReplayCall} {turns : ℕ}
    {first second : OrderIntent} {pair : PairTrade}
    (h : .executed first second pair ∈ (sim.replayFor call turns).trace) :
    ∃ nowNs s opp, Starts sim call turns nowNs s opp ∧ (first, second) = sim.cfg.legs opp ∧
      (s.executed call.env sim.cfg nowNs opp).pair = pair ∧
        (s.executeOpportunity call.env sim.cfg nowNs opp).trace ⊆
          (sim.replayFor call turns).trace := by
  induction turns with
  | zero => cases h
  | succ n ih =>
    have hkeep : .executed first second pair ∈ (sim.replayFor call n).trace →
        (sim.replayFor call n).trace ⊆ (sim.replayFor call (n + 1)).trace →
        ∃ nowNs s opp, Starts sim call (n + 1) nowNs s opp ∧ (first, second) = sim.cfg.legs opp ∧
          (s.executed call.env sim.cfg nowNs opp).pair = pair ∧
            (s.executeOpportunity call.env sim.cfg nowNs opp).trace ⊆
              (sim.replayFor call (n + 1)).trace := by
      intro hold hsub
      obtain ⟨nowNs, s, opp, hstarts, hlegs, hpair, htrace⟩ := ih hold
      refine ⟨nowNs, s, opp, ?_, hlegs, hpair, fun o ho => hsub (htrace ho)⟩
      cases hstarts with
      | turn hn hnext hd => exact .turn (Nat.lt_succ_of_lt hn) hnext hd
    rcases replayFor_step sim call n with ⟨item, md, hnext, hturn⟩ | ⟨md, hend⟩
    · generalize sim.replayFor call (n + 1) = s' at h hkeep hturn ⊢
      cases hturn with
      | skip hnone => exact hkeep h fun o ho => ho
      | watch ev hev hnoted =>
        have hsame : s'.trace = (sim.replayFor call n).trace :=
          hnoted.trace.trans (quiet_onBookEvent item ev).1.trace
        rw [hsame] at h hkeep ⊢
        exact hkeep h fun o ho => ho
      | execute ev nse bse hd htrades =>
        have hopened : (opened sim.cfg { sim.replayFor call n with md := md } item ev nse
            bse).2.trace = (sim.replayFor call n).trace := (quiet_onBookEvent item ev).1.trace
        obtain ⟨x, obs, hshow⟩ := executed_shows call.env sim.cfg ev.tsIngestNs
          (opened sim.cfg { sim.replayFor call n with md := md } item ev nse bse).2
          (opened sim.cfg { sim.replayFor call n with md := md } item ev nse bse).1
        have htrace := hshow.trace
        rw [hopened] at htrace
        rcases List.mem_append.1 (htrace ▸ h) with hold | hnew
        · exact hkeep hold fun o ho => htrace ▸ List.mem_append_left _ ho
        · obtain ⟨hfirst, hsecond, hpair⟩ := hshow.ends hnew
          exact ⟨ev.tsIngestNs, _, _, .turn (Nat.lt_succ_self n) hnext hd,
            by rw [hfirst, hsecond], hpair.symm, fun o ho => ho⟩
    · rw [hend] at h hkeep ⊢
      exact hkeep h fun o ho => ho

/-- Every observation of a run belongs to its block. -/
theorem mem_ofParent {o : Observation} {trace : List Observation} (h : o ∈ trace) :
    o ∈ ofParent o.parent trace := List.mem_filter.2 ⟨h, by simp⟩

end Simulator

end Hft
