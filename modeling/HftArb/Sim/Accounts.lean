import HftArb.Oms.FillSums
import HftArb.Sim.Simulator

/-!
# The accounts of a pair

A pair's `Totals` are side sums over its own fills: it counts them all, and nothing else.
-/

namespace Hft

namespace PairTrade

variable {p : PairTrade} {f : Fill} {fs new : List Fill}

/-- The quantities and notionals of a pair are the sums over the fills `fs`. -/
structure Totals (p : PairTrade) (fs : List Fill) : Prop where
  boughtQty : p.boughtQty = sideSum .buy Fill.fillQty fs
  soldQty : p.soldQty = sideSum .sell Fill.fillQty fs
  boughtNotionalPaise : p.boughtNotionalPaise = sideSum .buy Fill.notional fs
  soldNotionalPaise : p.soldNotionalPaise = sideSum .sell Fill.notional fs

theorem Totals.residual (h : p.Totals fs) : p.residual = (fs.map Fill.signedQty).sum := by
  rw [sum_signedQty, PairTrade.residual, h.boughtQty, h.soldQty]

theorem Totals.cash (h : p.Totals fs) :
    p.soldNotionalPaise - p.boughtNotionalPaise = (fs.map Fill.cash).sum := by
  rw [sum_cash, h.boughtNotionalPaise, h.soldNotionalPaise]

/-- What fills do not change of a pair. -/
structure SameTrade (p p' : PairTrade) : Prop where
  parentId : p'.parentId = p.parentId
  instrumentId : p'.instrumentId = p.instrumentId
  intendedBuyVenue : p'.intendedBuyVenue = p.intendedBuyVenue
  intendedSellVenue : p'.intendedSellVenue = p.intendedSellVenue

theorem SameTrade.refl (p : PairTrade) : SameTrade p p := ⟨rfl, rfl, rfl, rfl⟩

theorem SameTrade.trans {p' p'' : PairTrade} (h : SameTrade p p') (h' : SameTrade p' p'') :
    SameTrade p p'' :=
  ⟨h'.parentId.trans h.parentId, h'.instrumentId.trans h.instrumentId,
    h'.intendedBuyVenue.trans h.intendedBuyVenue, h'.intendedSellVenue.trans h.intendedSellVenue⟩

theorem sameTrade_takeFill (p : PairTrade) (f : Fill) : SameTrade p (p.takeFill f) := by
  unfold takeFill
  split_ifs
  · constructor <;> simp only [applyFill, count] <;> cases f.side <;> rfl
  · exact .refl p

theorem sameTrade_foldl (p : PairTrade) (new : List Fill) :
    SameTrade p (new.foldl takeFill p) := by
  induction new generalizing p with
  | nil => exact .refl p
  | cons f new ih => exact (sameTrade_takeFill p f).trans (ih _)

theorem hedgeAttempts_foldl (p : PairTrade) (new : List Fill) :
    (new.foldl takeFill p).hedgeAttempts = p.hedgeAttempts := by
  induction new generalizing p with
  | nil => rfl
  | cons f new ih =>
    rw [List.foldl_cons, ih]
    unfold takeFill
    split_ifs
    · simp only [applyFill, count]
      cases f.side <;> rfl
    · rfl

/-- A pair that has a residual after its fills is hedging. -/
theorem state_foldl (new : List Fill) {p : PairTrade} (h : p.residual ≠ 0 → p.state = .hedging) :
    (new.foldl takeFill p).residual ≠ 0 → (new.foldl takeFill p).state = .hedging := by
  induction new generalizing p with
  | nil => exact h
  | cons f new ih =>
    refine ih ?_
    unfold takeFill
    split_ifs
    · exact fun hres => if_neg fun hflat => hres hflat.1
    · exact h

theorem Totals.takeFill (h : p.Totals fs) (hf : f.parentArbId = p.parentId) :
    (p.takeFill f).Totals (fs ++ [f]) := by
  rw [PairTrade.takeFill, if_pos hf]
  constructor <;> simp only [sideSum_append, sideSum_singleton, applyFill, count] <;>
    cases hs : f.side <;> simp [h.boughtQty, h.soldQty, h.boughtNotionalPaise,
      h.soldNotionalPaise, Fill.notional]

theorem residual_takeFill (h : f.parentArbId = p.parentId) :
    (p.takeFill f).residual = p.residual + f.signedQty := by
  rw [takeFill, if_pos h]
  simp only [applyFill, count, residual]
  cases hs : f.side <;> simp [Fill.signedQty, Side.sign, hs] <;> ring

/-- Its own fills move the residual of a pair by their signed sum. -/
theorem residual_foldl (hnew : ∀ f ∈ new, f.parentArbId = p.parentId) :
    (new.foldl takeFill p).residual = p.residual + (new.map Fill.signedQty).sum := by
  induction new generalizing p with
  | nil => simp
  | cons f new ih =>
    have hrest := ih fun f' hf' => by
      rw [(sameTrade_takeFill p f).parentId]
      exact hnew f' (List.mem_cons_of_mem f hf')
    rw [List.foldl_cons, hrest, residual_takeFill (hnew f List.mem_cons_self), List.map_cons,
      List.sum_cons, add_assoc]

/-- A pair counts all its own fills. -/
theorem Totals.foldl (h : p.Totals fs) (hnew : ∀ f ∈ new, f.parentArbId = p.parentId) :
    (new.foldl PairTrade.takeFill p).Totals (fs ++ new) := by
  induction new generalizing p fs with
  | nil => simpa using h
  | cons f new ih =>
    have hfirst := h.takeFill (hnew f List.mem_cons_self)
    have hrest := ih hfirst fun f' hf' => by
      rw [(sameTrade_takeFill p f).parentId]
      exact hnew f' (List.mem_cons_of_mem f hf')
    rwa [List.append_assoc, List.singleton_append] at hrest

end PairTrade

end Hft
