import HftArb.Sim.Replay
import HftArb.Sim.Report
import HftArb.Sim.Tracking

/-!
# One ledger seen five ways

Positions, pairs, fills, log and report count the same fills.  `Balanced` says so at the loop of
`run_replay`; every execution keeps it (`Balanced.execute`), since its fills carry a parent id that
no earlier pair or fill has.  `run_oneLedger` states the result for every run.
-/

namespace Hft

open Execution
open Std (ExtTreeMap)

namespace ReplayState

/-- The fills of a pair. -/
def ownFills (s : ReplayState) (p : PairTrade) : List Fill :=
  s.oms.fills.filter fun f => f.parentArbId = p.parentId

/-- The sum of `g` over the pairs of an instrument. -/
def pairSum (s : ReplayState) (g : PairTrade → ℤ) (i : ℕ) : ℤ :=
  ((s.logs.pairs.filter fun p => p.instrumentId = i).map g).sum

/-- **The five views agree.** -/
structure OneLedger (s : ReplayState) : Prop where
  netQty : ∀ i, s.oms.positions.netQty i = s.pairSum PairTrade.residual i
  cashPaise : ∀ i, s.oms.positions.cashPaise i =
    s.pairSum (fun p => p.soldNotionalPaise - p.boughtNotionalPaise) i
  totals : ∀ p ∈ s.logs.pairs, p.Totals (s.ownFills p)
  taken : s.oms.consumedFills = s.oms.fills.length
  rows : s.logs.fills = s.oms.fills.map Fill.row
  report : ∀ p ∈ s.logs.pairs, ∀ r, ((reportPnl s.logs.fills)[p.parentId]?).getD {} = r →
    r.buyQty = p.boughtQty ∧ r.sellQty = p.soldQty ∧ r.residualQty = p.residual ∧
      r.grossCashPaise = p.soldNotionalPaise - p.boughtNotionalPaise
  reported : ∀ parent ∈ reportPnl s.logs.fills, ∃ p ∈ s.logs.pairs, p.parentId = parent

/-- The parent id has been issued. -/
def Issued (s : ReplayState) (parent : String) : Prop :=
  ∃ idPrefix i n, parent = parentIdText idPrefix i n ∧ n ≤ s.ids.parentSeq

/-- The invariant of the loop of `run_replay`. -/
structure Balanced (s : ReplayState) : Prop where
  sound : s.Sound
  rows : s.logs.fills = s.oms.fills.map Fill.row
  issued : ∀ p ∈ s.logs.pairs, s.Issued p.parentId
  owner : ∀ f ∈ s.oms.fills, ∃ p ∈ s.logs.pairs, p.parentId = f.parentArbId
  side : ∀ f ∈ s.oms.fills, f.side ≠ .unknown
  totals : ∀ p ∈ s.logs.pairs, p.Totals (s.ownFills p)
  netQty : ∀ i, s.oms.positions.netQty i = s.pairSum PairTrade.residual i
  cashPaise : ∀ i, s.oms.positions.cashPaise i =
    s.pairSum (fun p => p.soldNotionalPaise - p.boughtNotionalPaise) i

variable {env : Env} {cfg : SimConfig} {s s' : ReplayState}

theorem Balanced.oneLedger (h : s.Balanced) : s.OneLedger where
  netQty := h.netQty
  cashPaise := h.cashPaise
  totals := h.totals
  taken := h.sound.taken
  rows := h.rows
  report p hp r hr := by
    subst hr
    have hown : (s.oms.fills.map Fill.row).filter (fun row => row.parentArbId = p.parentId) =
        (s.ownFills p).map Fill.row := by
      rw [List.filter_map]
      rfl
    rw [reportPnl_getD, h.rows, hown]
    obtain ⟨hbuy, hsell, hcash⟩ := report_fills (s.ownFills p) fun f hf =>
      h.side f (List.mem_of_mem_filter hf)
    have htot := h.totals p hp
    refine ⟨hbuy.trans htot.boughtQty.symm, hsell.trans htot.soldQty.symm, ?_, ?_⟩
    · rw [PnlRecord.residualQty, hbuy, hsell, PairTrade.residual, htot.boughtQty, htot.soldQty]
    · rw [hcash, htot.boughtNotionalPaise, htot.soldNotionalPaise]
  reported parent hmem := by
    obtain ⟨row, hrow, heq⟩ := mem_reportPnl hmem
    rw [h.rows] at hrow
    obtain ⟨f, hf, rfl⟩ := List.mem_map.1 hrow
    obtain ⟨p, hp, hown⟩ := h.owner f hf
    exact ⟨p, hp, hown.trans heq⟩

theorem Issued.mono {parent : String} (h : s.Issued parent)
    (hseq : s.ids.parentSeq ≤ s'.ids.parentSeq) : s'.Issued parent := by
  obtain ⟨idPrefix, i, n, heq, hle⟩ := h
  exact ⟨idPrefix, i, n, heq, hle.trans hseq⟩

/-- The next parent id has not been issued. -/
theorem not_issued {parent idPrefix : String} {i n : ℕ}
    (hparent : parent = parentIdText idPrefix i n) (hlt : s.ids.parentSeq < n) :
    ¬ s.Issued parent := by
  rintro ⟨idPrefix', i', n', heq, hle⟩
  have := parentIdText_inj (hparent.symm.trans heq)
  omega

theorem Balanced.quiet (h : s.Balanced) (hq : Quiet s s') : s'.Balanced := by
  obtain ⟨hfills, hpairs⟩ := hq.logs
  have hsum : ∀ g i, s'.pairSum g i = s.pairSum g i := fun g i => by
    unfold pairSum
    rw [hpairs]
  refine ⟨⟨hq.books h.sound.books, ?_, ?_⟩, ?_, ?_, ?_, ?_, ?_, ?_, ?_⟩
  · rw [hq.oms]
    exact h.sound.known
  · rw [hq.oms]
    exact h.sound.taken
  · rw [hfills, hq.oms]
    exact h.rows
  · rw [hpairs]
    exact fun p hp => (h.issued p hp).mono hq.ids
  · rw [hq.oms, hpairs]
    exact h.owner
  · rw [hq.oms]
    exact h.side
  · unfold ownFills
    rw [hq.oms, hpairs]
    exact h.totals
  · intro i
    rw [hq.oms, hsum]
    exact h.netQty i
  · intro i
    rw [hq.oms, hsum]
    exact h.cashPaise i

/-- A parent id that was not issued belongs to no pair and to no fill. -/
theorem Balanced.fresh (h : s.Balanced) {parent : String} (hnew : ¬ s.Issued parent) :
    (∀ p ∈ s.logs.pairs, p.parentId ≠ parent) ∧ ∀ f ∈ s.oms.fills, f.parentArbId ≠ parent := by
  refine ⟨fun p hp heq => hnew (heq ▸ h.issued p hp), fun f hf heq => ?_⟩
  obtain ⟨p, hp, hown⟩ := h.owner f hf
  exact hnew (heq ▸ hown ▸ h.issued p hp)

/-- The run state at the end of `execute_opportunity`. -/
theorem executeOpportunity_eq (env : Env) (cfg : SimConfig) (nowNs : ℕ) (s : ReplayState)
    (opp : ArbOpportunity) :
    let x := s.executed env cfg nowNs opp
    let s' := s.executeOpportunity env cfg nowNs opp
    s'.oms = x.run.oms ∧ s'.gateway = x.run.gateway ∧ s'.risk = x.run.risk ∧ s'.ids = x.run.ids ∧
      s'.logs.fills = x.run.logs.fills ∧ s'.logs.pairs = x.run.logs.pairs ++ [x.pair] ∧
      s'.trace = x.run.trace ++ [.executed (cfg.legs opp).1 (cfg.legs opp).2 x.pair] :=
  ⟨rfl, rfl, rfl, rfl, rfl, rfl, rfl⟩

theorem pairSum_append {pairs : List PairTrade} {p : PairTrade} (h : s.logs.pairs = pairs)
    (h' : s'.logs.pairs = pairs ++ [p]) (g : PairTrade → ℤ) (i : ℕ) :
    s'.pairSum g i = s.pairSum g i + if p.instrumentId = i then g p else 0 := by
  unfold pairSum
  rw [h, h', List.filter_append, List.map_append, List.sum_append]
  by_cases hi : p.instrumentId = i <;> simp [hi]

/-- **An execution under a new parent id keeps the ledgers balanced.** -/
theorem Balanced.execute (h : s.Balanced) (env : Env) (cfg : SimConfig) (nowNs : ℕ)
    (opp : ArbOpportunity) {s₀ : ReplayState} (h₀ : s₀.Balanced) (hq : Quiet s₀ s)
    (hseq : s.ids.parentSeq = s₀.ids.parentSeq + 1)
    (hparent : opp.parentArbId = parentIdText s.ids.idPrefix opp.instrumentId s.ids.parentSeq) :
    (s.executeOpportunity env cfg nowNs opp).Balanced := by
  -- the id is new: everything in the ledgers was issued before
  have hnew : ¬ s₀.Issued opp.parentArbId := not_issued hparent (by omega)
  obtain ⟨hfreshPairs, hfreshFills⟩ := h₀.fresh hnew
  rw [← hq.logs.2] at hfreshPairs
  rw [← hq.oms] at hfreshFills
  obtain ⟨homs, hgateway, -, hids, hlogFills, hlogPairs, -⟩ :=
    executeOpportunity_eq env cfg nowNs s opp
  have hsteps := executed_steps env cfg nowNs s opp
  have hsame := hsteps.sameTrade
  have hid : (s.executed env cfg nowNs opp).pair.parentId = opp.parentArbId := hsame.parentId
  obtain ⟨cur, ht⟩ := hsteps.tracks (tracks_start h.sound opp)
  rw [List.nil_append] at ht
  have hfills := homs.symm ▸ ht.fills
  have hpairs := hlogPairs.trans (by rw [ht.pairs])
  refine ⟨⟨by rw [hgateway]; exact ht.sound.books, by rw [homs]; exact ht.sound.known,
    by rw [homs]; exact ht.sound.taken⟩, ?_, ?_, ?_, ?_, ?_, ?_, ?_⟩
  · rw [hlogFills, ht.rows, hfills, h.rows, List.map_append]
  · rw [hlogPairs, ht.pairs]
    refine List.forall_mem_append.2 ⟨fun p hp => ?_, List.forall_mem_singleton.2 ?_⟩
    · exact (h.issued p hp).mono (by rw [hids, ht.ids])
    · exact ⟨_, _, _, hid.trans hparent, by rw [hids, ht.ids]⟩
  · rw [hfills, hlogPairs, ht.pairs]
    refine List.forall_mem_append.2 ⟨fun f hf => ?_, fun f hf => ?_⟩
    · obtain ⟨p, hp, heq⟩ := h.owner f hf
      exact ⟨p, List.mem_append_left _ hp, heq⟩
    · exact ⟨_, List.mem_append_right _ (List.mem_singleton_self _), (ht.parent f hf).symm⟩
  · rw [hfills]
    exact List.forall_mem_append.2 ⟨h.side, ht.side⟩
  · rw [hlogPairs, ht.pairs]
    unfold ownFills
    rw [hfills]
    refine List.forall_mem_append.2 ⟨fun p hp => ?_, List.forall_mem_singleton.2 ?_⟩
    · have hnone : cur.filter (fun f => f.parentArbId = p.parentId) = [] := by
        simp only [List.filter_eq_nil_iff, decide_eq_true_eq]
        intro f hf heq
        exact hfreshPairs p hp (heq.symm.trans ((ht.parent f hf).trans hid))
      rw [List.filter_append, hnone, List.append_nil]
      exact h.totals p hp
    · have hnone : s.oms.fills.filter
          (fun f => f.parentArbId = (s.executed env cfg nowNs opp).pair.parentId) = [] := by
        simp only [List.filter_eq_nil_iff, decide_eq_true_eq]
        intro f hf heq
        exact hfreshFills f hf (heq.trans hid)
      have hall : cur.filter
          (fun f => f.parentArbId = (s.executed env cfg nowNs opp).pair.parentId) = cur := by
        simpa only [List.filter_eq_self, decide_eq_true_eq] using ht.parent
      rw [List.filter_append, hnone, hall, List.nil_append]
      exact ht.totals
  · intro i
    rw [homs, ht.netQty, h.netQty, pairSum_append (s := s) rfl hpairs]
  · intro i
    rw [homs, ht.cashPaise, h.cashPaise, pairSum_append (s := s) rfl hpairs]

/-- Reading an item touches no ledger. -/
theorem Balanced.read (h : s.Balanced) (md : MarketDataHandler) : { s with md := md }.Balanced :=
  ⟨⟨h.sound.books, h.sound.known, h.sound.taken⟩, h.rows, h.issued, h.owner, h.side, h.totals,
    h.netQty, h.cashPaise⟩

theorem Balanced.turn (h : s.Balanced) (ht : Turn env cfg s s') : s'.Balanced := by
  cases ht with
  | quiet hq => exact h.quiet hq
  | execute nowNs opp hq hseq hparent =>
    have hdone := (h.quiet hq).execute env cfg nowNs opp h hq hseq hparent
    exact ⟨⟨hdone.sound.books, hdone.sound.known, hdone.sound.taken⟩, hdone.rows, hdone.issued,
      hdone.owner, hdone.side, hdone.totals, hdone.netQty, hdone.cashPaise⟩

end ReplayState

namespace Simulator

open ReplayState

variable {sim : Simulator}

theorem balanced_start (h : sim.books.Wf) (lines : List Bytes) : (sim.start lines).Balanced where
  sound := ⟨h, fun k hk => absurd hk ExtTreeMap.not_mem_empty, rfl⟩
  rows := rfl
  issued p hp := absurd hp List.not_mem_nil
  owner f hf := absurd hf List.not_mem_nil
  side f hf := absurd hf List.not_mem_nil
  totals p hp := absurd hp List.not_mem_nil
  netQty i := by simp [start, PositionBook.netQty, PositionBook.position, pairSum]
  cashPaise i := by simp [start, PositionBook.cashPaise, PositionBook.position, pairSum]

theorem balanced_replayFor (h : sim.books.Wf) (call : ReplayCall) (turns : ℕ) :
    (sim.replayFor call turns).Balanced :=
  replayFor_induct (I := Balanced) (balanced_start h call.lines)
    (fun _ _ hs => hs.read _) (fun _ _ hs ht => hs.turn ht) turns

/-- The books are well formed after any number of runs, and the configuration is unchanged. -/
theorem afterRuns_spec (cfg : SimConfig) (calls : List ReplayCall) :
    (afterRuns cfg calls).books.Wf ∧ (afterRuns cfg calls).cfg = cfg := by
  unfold afterRuns
  induction calls using List.reverseRecOn with
  | nil => exact ⟨BookManager.wf_empty, rfl⟩
  | append_singleton calls call ih =>
    rw [List.foldl_append]
    exact ⟨(balanced_replayFor ih.1 call _).sound.books, ih.2⟩

/-- **One ledger.**  In every run, of a simulator that may have run before, the five views agree
whenever the loop of `run_replay` has come to the end of a turn, and so at the end of every
execution. -/
theorem run_oneLedger (cfg : SimConfig) (calls : List ReplayCall) (call : ReplayCall)
    (turns : ℕ) : ((afterRuns cfg calls).replayFor call turns).OneLedger :=
  (balanced_replayFor (afterRuns_spec cfg calls).1 call turns).oneLedger

end Simulator

end Hft
