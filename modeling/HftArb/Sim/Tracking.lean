import HftArb.Sim.Execution

/-!
# What holds along an execution

`Tracks s₀ x cur`: since the execution started in `s₀` every ledger has taken the fills `cur`, all
of them the pair's own, and nothing else.  `Capped x`: no position has passed the cap, neither now
nor after any report.  Both are preserved by every step, hence along `Steps`.
-/

namespace Hft

/-- No instrument's net quantity is above `max cap 0`. -/
def PositionBook.Within (pb : PositionBook) (cap : ℤ) : Prop :=
  ∀ i, |pb.netQty i| ≤ max cap 0

namespace Execution

variable {env : Env} {nowNs : ℕ} {s₀ : ReplayState} {x x' : Execution} {cur : List Fill}

/-- Since `s₀` the ledgers have taken the fills `cur` of the pair. -/
structure Tracks (s₀ : ReplayState) (x : Execution) (cur : List Fill) : Prop where
  sound : x.run.Sound
  fills : x.run.oms.fills = s₀.oms.fills ++ cur
  positions : x.run.oms.positions = cur.foldl PositionBook.apply s₀.oms.positions
  rows : x.run.logs.fills = s₀.logs.fills ++ cur.map Fill.row
  pairs : x.run.logs.pairs = s₀.logs.pairs
  ids : x.run.ids = s₀.ids
  parent : ∀ f ∈ cur, f.parentArbId = x.pair.parentId
  instrument : ∀ f ∈ cur, f.instrumentId = x.pair.instrumentId
  side : ∀ f ∈ cur, f.side ≠ .unknown
  totals : x.pair.Totals cur

theorem tracks_start (h : s₀.Sound) (opp : ArbOpportunity) :
    Tracks s₀ ⟨s₀, .fromOpportunity opp⟩ [] :=
  ⟨h, by simp, rfl, by simp, rfl, rfl, by simp, by simp, by simp, rfl, rfl, rfl, rfl⟩

theorem Tracks.quiet (h : Tracks s₀ x cur) (hq : Quiet x x') : Tracks s₀ x' cur where
  sound := ⟨by rw [hq.gateway]; exact h.sound.books, by rw [hq.oms]; exact h.sound.known,
    by rw [hq.oms]; exact h.sound.taken⟩
  fills := by rw [hq.oms, h.fills]
  positions := by rw [hq.oms, h.positions]
  rows := by rw [hq.logs.1, h.rows]
  pairs := by rw [hq.logs.2, h.pairs]
  ids := by rw [hq.ids, h.ids]
  parent := by rw [hq.pair.parentId]; exact h.parent
  instrument := by rw [hq.pair.instrumentId]; exact h.instrument
  side := h.side
  totals := ⟨hq.bought.1.trans h.totals.boughtQty, hq.sold.1.trans h.totals.soldQty,
    hq.bought.2.trans h.totals.boughtNotionalPaise, hq.sold.2.trans h.totals.soldNotionalPaise⟩

theorem Tracks.submit (h : Tracks s₀ x cur) {intent : OrderIntent} (hc : Cleared x intent)
    {new : List Fill} (hs : Submitted x intent new x') : Tracks s₀ x' (cur ++ new) := by
  have hsame : x.pair.SameTrade x'.pair := by
    rw [hs.pair]
    exact PairTrade.sameTrade_foldl _ _
  have hparent : ∀ f ∈ new, f.parentArbId = x.pair.parentId := fun f hf =>
    (hs.own.parent f hf).trans hc.parent
  refine ⟨hs.sound, ?_, ?_, ?_, ?_, ?_, ?_, ?_, ?_, ?_⟩
  · rw [hs.fills, h.fills, List.append_assoc]
  · rw [hs.positions, h.positions, List.foldl_append]
  · rw [hs.logs.1, h.rows, List.map_append, List.append_assoc]
  · rw [hs.logs.2, h.pairs]
  · rw [hs.rest.2.2, h.ids]
  · rw [hsame.parentId]
    exact List.forall_mem_append.2 ⟨h.parent, hparent⟩
  · rw [hsame.instrumentId]
    exact List.forall_mem_append.2
      ⟨h.instrument, fun f hf => (hs.own.instrument f hf).trans hc.instrument⟩
  · refine List.forall_mem_append.2 ⟨h.side, fun f hf => ?_⟩
    rw [hs.own.side f hf]
    exact hc.side
  · rw [hs.pair]
    exact h.totals.foldl hparent

theorem Tracks.step (h : Tracks s₀ x cur) (hstep : Step env nowNs x x') :
    ∃ new, Tracks s₀ x' (cur ++ new) := by
  cases hstep with
  | quiet hq => exact ⟨[], by simpa using h.quiet hq⟩
  | submit intent hc =>
    obtain ⟨new, hs⟩ := submit_spec h.sound env nowNs intent
    exact ⟨new, h.submit hc hs⟩

/-- The net quantities are those of the start, plus the residual of the pair at its instrument. -/
theorem Tracks.netQty (h : Tracks s₀ x cur) (i : ℕ) :
    x.run.oms.positions.netQty i =
      s₀.oms.positions.netQty i + if x.pair.instrumentId = i then x.pair.residual else 0 := by
  rw [h.positions, PositionBook.netQty_foldl h.instrument, h.totals.residual]

theorem Tracks.cashPaise (h : Tracks s₀ x cur) (i : ℕ) :
    x.run.oms.positions.cashPaise i = s₀.oms.positions.cashPaise i +
      if x.pair.instrumentId = i then x.pair.soldNotionalPaise - x.pair.boughtNotionalPaise
      else 0 := by
  rw [h.positions, PositionBook.cashPaise_foldl h.instrument, h.totals.cash]

/-! ### The position cap -/

/-- The cap has held after every report, and an open residual shows that an order was cleared. -/
structure Capped (cap : ℤ) (x : Execution) : Prop where
  now : x.run.oms.positions.Within cap
  trail : ∀ pb ∈ x.run.oms.trail, pb.Within cap
  residual : x.pair.residual ≠ 0 → 0 ≤ cap

theorem Capped.quiet {cap : ℤ} (h : Capped cap x) (hq : Quiet x x') : Capped cap x' where
  now := by rw [hq.oms]; exact h.now
  trail := by rw [hq.oms]; exact h.trail
  residual := by
    rw [PairTrade.residual, hq.bought.1, hq.sold.1]
    exact h.residual

/-- The first fills of an order do not add up to more than the order. -/
theorem sum_le_of_prefix {intent : OrderIntent} {new pre : List Fill} (hown : OwnFills intent new)
    (hpre : pre <+: new) (hqty : 0 < intent.qty) :
    0 ≤ (pre.map Fill.fillQty).sum ∧ (pre.map Fill.fillQty).sum ≤ intent.qty := by
  obtain ⟨suf, rfl⟩ := hpre
  have hpos := List.forall_mem_append.1 hown.pos
  have hsum := hown.sum_le
  rw [List.map_append, List.sum_append] at hsum
  have h1 : 0 ≤ (pre.map Fill.fillQty).sum := List.sum_nonneg (by
    simpa using fun f hf => (hpos.1 f hf).le)
  have h2 : 0 ≤ (suf.map Fill.fillQty).sum := List.sum_nonneg (by
    simpa using fun f hf => (hpos.2 f hf).le)
  omega

/-- Filled in part, an order that the cap allows in full keeps within the cap. -/
theorem within_of_prefix {pb : PositionBook} {cap : ℤ} {intent : OrderIntent} {new pre : List Fill}
    (hpb : pb.Within cap) (hown : OwnFills intent new) (hpre : pre <+: new) (hqty : 0 < intent.qty)
    (hside : intent.side ≠ .unknown)
    (hcap : |pb.netQty intent.instrumentId + RiskEngine.signedEffect intent| ≤ cap) :
    (pre.foldl PositionBook.apply pb).Within cap := by
  intro i
  have hsub := hpre.subset
  rw [PositionBook.netQty_foldl (fun f hf => hown.instrument f (hsub hf)),
    sum_signedQty_of_side fun f hf => hown.side f (hsub hf)]
  obtain ⟨h0, hle⟩ := sum_le_of_prefix hown hpre hqty
  have hi := hpb i
  split_ifs with hinst
  · rw [hinst] at hcap
    unfold RiskEngine.signedEffect at hcap
    rw [abs_le] at hi hcap ⊢
    cases hs : intent.side with
    | buy =>
      rw [hs, if_pos rfl] at hcap
      simp only [Side.sign]
      omega
    | sell =>
      rw [hs, if_neg (by decide)] at hcap
      simp only [Side.sign]
      omega
    | unknown => exact absurd hs hside
  · simpa using hi

theorem Capped.submit {cap : ℤ} (h : Capped cap x) {intent : OrderIntent} (hc : Cleared x intent)
    (hcfg : x.run.risk.cfg.maxPositionQty = cap) {new : List Fill}
    (hs : Submitted x intent new x') : Capped cap x' := by
  have hcap := hc.position
  rw [hcfg] at hcap
  have hwithin : ∀ pre, pre <+: new →
      (pre.foldl PositionBook.apply x.run.oms.positions).Within cap := fun pre hpre =>
    within_of_prefix h.now hs.own hpre hc.qty hc.side hcap
  refine ⟨?_, ?_, fun _ => (abs_nonneg _).trans hcap⟩
  · rw [hs.positions]
    exact hwithin new List.prefix_rfl
  · obtain ⟨t, ht, hpre⟩ := hs.trail
    rw [ht]
    refine List.forall_mem_append.2 ⟨h.trail, fun pb hpb => ?_⟩
    obtain ⟨pre, hle, rfl⟩ := hpre pb hpb
    exact hwithin pre hle

/-! ### Along the steps -/

/-- **Ledgers along an execution.** -/
theorem Steps.tracks (h : Steps env nowNs x x') (ht : Tracks s₀ x cur) :
    ∃ new, Tracks s₀ x' (cur ++ new) := by
  induction h with
  | refl => exact ⟨[], by simpa using ht⟩
  | tail _ hstep ih =>
    obtain ⟨new, hty⟩ := ih
    obtain ⟨new', htz⟩ := hty.step hstep
    exact ⟨new ++ new', by rwa [← List.append_assoc]⟩

/-- **The cap along an execution.** -/
theorem Steps.capped {cap : ℤ} (h : Steps env nowNs x x') (ht : Tracks s₀ x cur)
    (hc : Capped cap x) (hcfg : x.run.risk.cfg.maxPositionQty = cap) : Capped cap x' := by
  induction h with
  | refl => exact hc
  | tail hy hstep ih =>
    cases hstep with
    | quiet hq => exact ih.quiet hq
    | submit intent hclear =>
      obtain ⟨new, hty⟩ := Steps.tracks hy ht
      obtain ⟨new', hs⟩ := submit_spec hty.sound env nowNs intent
      refine ih.submit hclear ?_ hs
      rw [Steps.riskCfg hy]
      exact hcfg

end Execution

end Hft
