import HftArb.Hedge.LossEstimate
import HftArb.Sim.FillBook
import HftArb.Sim.RiskGate

/-!
# The loss of hedging

`candidate_for_venue` compares the loss limit with the loss of one order.  `run_hedgeLoss` says what
this gives for a pair: each hedge order keeps within the limit, and all of them together within the
limit times the attempts.  `lossCapped_thin` is a run in which three orders, each within the limit,
lose twice the limit.

Losses are taken against the exact average price of the pair.  It is that of the opportunity, since
all fills of the side that is hedged are (`FillBook`), and so the average the policy rounds is exact
as well.
-/

namespace Hft

open Execution
open Transition

/-! ### Losses -/

namespace PairTrade

/-- The loss that a hedge fill realises: of a sale against what was bought, of a purchase against
what was sold. -/
def lossOf (p : PairTrade) (f : Fill) : ℚ :=
  match f.side with
  | .sell => max 0 (p.exactBuyPx - f.fillPxPaise) * f.fillQty
  | .buy => max 0 (f.fillPxPaise - p.exactSellPx) * f.fillQty
  | .unknown => 0

end PairTrade

/-- The fills of the hedge orders of a pair. -/
def OrderManager.hedgeFills (m : OrderManager) (p : PairTrade) : List Fill :=
  m.fills.filter fun f => f.parentArbId = p.parentId ∧ m.roleOf f = some .hedge

/-- The hedges of every pair keep within the loss limit. -/
def LossCapped (cfg : RiskConfig) (s : ReplayState) : Prop :=
  ∀ p ∈ s.logs.pairs, ((s.oms.hedgeFills p).map p.lossOf).sum ≤ cfg.maxHedgeLossPaise

/-- Each hedge order keeps within the loss limit, and all of them within the limit for each attempt.
-/
structure LossBound (cfg : RiskConfig) (m : OrderManager) (p : PairTrade) : Prop where
  attempts : 0 ≤ p.hedgeAttempts ∧ p.hedgeAttempts ≤ max 0 cfg.maxHedgeAttempts
  total : ((m.hedgeFills p).map p.lossOf).sum ≤ p.hedgeAttempts * cfg.maxHedgeLossPaise
  order : ∀ f ∈ m.hedgeFills p,
    (((m.hedgeFills p).filter fun f' => f'.clientOrderId = f.clientOrderId).map p.lossOf).sum ≤
      cfg.maxHedgeLossPaise

/-- The loss of a hedge fill against the prices of the opportunity. -/
def ArbOpportunity.lossOf (opp : ArbOpportunity) (f : Fill) : ℤ :=
  match f.side with
  | .sell => max 0 (opp.buyPricePaise - f.fillPxPaise) * f.fillQty
  | .buy => max 0 (f.fillPxPaise - opp.sellPricePaise) * f.fillQty
  | .unknown => 0

section Sums

variable {side : Side} {fs : List Fill}

theorem sum_le_mul {g : Fill → ℤ} {c : ℤ} (h : ∀ f ∈ fs, g f ≤ c * f.fillQty) :
    (fs.map g).sum ≤ c * (fs.map Fill.fillQty).sum := by
  induction fs with
  | nil => simp
  | cons f fs ih =>
    have hf := h f List.mem_cons_self
    have hrest := ih fun f' hf' => h f' (List.mem_cons_of_mem f hf')
    rw [List.map_cons, List.sum_cons, List.map_cons, List.sum_cons, mul_add]
    exact add_le_add hf hrest

/-- Fills of one side that all have one price. -/
theorem notional_of_px {px : ℤ} (h : ∀ f ∈ fs, f.side = side → f.fillPxPaise = px) :
    sideSum side Fill.notional fs = px * sideSum side Fill.fillQty fs := by
  induction fs with
  | nil => simp
  | cons f fs ih =>
    rw [← List.singleton_append, sideSum_append, sideSum_append, sideSum_singleton,
      sideSum_singleton, ih fun f' hf' => h f' (List.mem_cons_of_mem f hf'), mul_add]
    split_ifs with hside
    · rw [Fill.notional, h f List.mem_cons_self hside, mul_comm]
    · rw [mul_zero]

theorem sideSum_nonneg (hpos : ∀ f ∈ fs, 0 < f.fillQty) : 0 ≤ sideSum side Fill.fillQty fs :=
  List.sum_nonneg (List.forall_mem_map.2 fun f hf => (hpos f (List.mem_of_mem_filter hf)).le)

theorem sideSum_pos (hpos : ∀ f ∈ fs, 0 < f.fillQty) {f : Fill} (hf : f ∈ fs) (hside : f.side = side) :
    0 < sideSum side Fill.fillQty fs := by
  obtain ⟨l, l', rfl⟩ := List.append_of_mem hf
  have hall := List.forall_mem_append.1 hpos
  have hl : 0 ≤ sideSum side Fill.fillQty l := sideSum_nonneg hall.1
  have hl' : 0 ≤ sideSum side Fill.fillQty l' :=
    sideSum_nonneg (List.forall_mem_cons.1 hall.2).2
  have hfpos := hpos f hf
  rw [← List.singleton_append, sideSum_append, sideSum_append, sideSum_singleton, if_pos hside]
  omega

end Sums

namespace Execution

variable {env : Env} {nowNs : ℕ} {x x' : Execution} {cfg : RiskConfig} {opp : ArbOpportunity}
  {s₀ : ReplayState} {alpha hedge : List Fill}

/-! ### Exact averages -/

/-- While the hedges are sales, all that was bought was bought at the price of the opportunity. -/
theorem FillBook.notional_buy (h : FillBook opp s₀ x alpha hedge)
    (hsells : ∀ f ∈ hedge, f.side = .sell) :
    x.pair.boughtNotionalPaise = opp.buyPricePaise * x.pair.boughtQty := by
  rw [h.tracks.totals.boughtNotionalPaise, h.tracks.totals.boughtQty]
  refine notional_of_px (List.forall_mem_append.2 ⟨fun f hf hside => ?_, fun f hf hside => ?_⟩)
  · rw [h.px f hf, hside]
    rfl
  · rw [hsells f hf] at hside
    cases hside

theorem FillBook.notional_sell (h : FillBook opp s₀ x alpha hedge)
    (hbuys : ∀ f ∈ hedge, f.side = .buy) :
    x.pair.soldNotionalPaise = opp.sellPricePaise * x.pair.soldQty := by
  rw [h.tracks.totals.soldNotionalPaise, h.tracks.totals.soldQty]
  refine notional_of_px (List.forall_mem_append.2 ⟨fun f hf hside => ?_, fun f hf hside => ?_⟩)
  · rw [h.px f hf, hside]
    rfl
  · rw [hbuys f hf] at hside
    cases hside

theorem FillBook.qty_nonneg (h : FillBook opp s₀ x alpha hedge) :
    0 ≤ x.pair.boughtQty ∧ 0 ≤ x.pair.soldQty := by
  rw [h.tracks.totals.boughtQty, h.tracks.totals.soldQty]
  exact ⟨sideSum_nonneg h.pos, sideSum_nonneg h.pos⟩

/-- The hedges are all sales of a long residual, or all purchases of a short one. -/
def OneWay (x : Execution) (hedge : List Fill) : Prop :=
  ((∀ f ∈ hedge, f.side = .sell) ∧ 0 ≤ x.pair.residual) ∨
    ((∀ f ∈ hedge, f.side = .buy) ∧ x.pair.residual ≤ 0)

theorem OneWay.sells (h : OneWay x hedge) (hlong : 0 < x.pair.residual) :
    ∀ f ∈ hedge, f.side = .sell := by
  rcases h with ⟨hsells, -⟩ | ⟨-, hnonpos⟩
  · exact hsells
  · omega

theorem OneWay.buys (h : OneWay x hedge) (hshort : x.pair.residual < 0) :
    ∀ f ∈ hedge, f.side = .buy := by
  rcases h with ⟨-, hnonneg⟩ | ⟨hbuys, -⟩
  · omega
  · exact hbuys

theorem avgBuyPx_eq (h : FillBook opp s₀ x alpha hedge) (hsells : ∀ f ∈ hedge, f.side = .sell)
    (hqty : 0 < x.pair.boughtQty) : x.pair.avgBuyPx = opp.buyPricePaise := by
  rw [PairTrade.avgBuyPx, if_neg hqty.ne', h.notional_buy hsells]
  exact Int.mul_tdiv_cancel _ hqty.ne'

theorem avgSellPx_eq (h : FillBook opp s₀ x alpha hedge) (hbuys : ∀ f ∈ hedge, f.side = .buy)
    (hqty : 0 < x.pair.soldQty) : x.pair.avgSellPx = opp.sellPricePaise := by
  rw [PairTrade.avgSellPx, if_neg hqty.ne', h.notional_sell hbuys]
  exact Int.mul_tdiv_cancel _ hqty.ne'

/-- The loss of a hedge fill of an open pair is the same against both prices. -/
theorem lossOf_eq (h : FillBook opp s₀ x alpha hedge) (hway : OneWay x hedge) :
    ∀ f ∈ hedge, x.pair.lossOf f = opp.lossOf f := by
  intro f hf
  have hmem : f ∈ alpha ++ hedge := List.mem_append_right _ hf
  have hres : x.pair.residual = x.pair.boughtQty - x.pair.soldQty := rfl
  rcases hway with ⟨hsells, hlong⟩ | ⟨hbuys, hshort⟩
  · have hside := hsells f hf
    have hsold : 0 < x.pair.soldQty := by
      rw [h.tracks.totals.soldQty]
      exact sideSum_pos h.pos hmem hside
    have hbought : (x.pair.boughtQty : ℚ) ≠ 0 := by
      have : x.pair.boughtQty ≠ 0 := by omega
      exact_mod_cast this
    have hpx : x.pair.exactBuyPx = opp.buyPricePaise := by
      rw [PairTrade.exactBuyPx, h.notional_buy hsells]
      push_cast
      exact mul_div_cancel_right₀ _ hbought
    simp only [PairTrade.lossOf, ArbOpportunity.lossOf, hside, hpx]
    push_cast
    rfl
  · have hside := hbuys f hf
    have hbought : 0 < x.pair.boughtQty := by
      rw [h.tracks.totals.boughtQty]
      exact sideSum_pos h.pos hmem hside
    have hsold : (x.pair.soldQty : ℚ) ≠ 0 := by
      have : x.pair.soldQty ≠ 0 := by omega
      exact_mod_cast this
    have hpx : x.pair.exactSellPx = opp.sellPricePaise := by
      rw [PairTrade.exactSellPx, h.notional_sell hbuys]
      push_cast
      exact mul_div_cancel_right₀ _ hsold
    simp only [PairTrade.lossOf, ArbOpportunity.lossOf, hside, hpx]
    push_cast
    rfl

/-! ### One order -/

/-- Fills that lose at most `gap` a share lose at most `gap` times the quantity of their order. -/
theorem sum_lossOf_le {intent : OrderIntent} {new : List Fill} (hown : OwnFills intent new)
    (hqty : 0 < intent.qty) {gap : ℤ} (hgap : ∀ f ∈ new, opp.lossOf f ≤ max 0 gap * f.fillQty) :
    (new.map opp.lossOf).sum ≤ max 0 gap * intent.qty := by
  have hsum := hown.sum_le
  rw [max_eq_right hqty.le] at hsum
  exact (sum_le_mul hgap).trans (mul_le_mul_of_nonneg_left hsum (le_max_left _ _))

/-- **The estimate of the policy** bounds what an order of the policy loses. -/
theorem order_loss (h : FillBook opp s₀ x alpha hedge) (hway : OneWay x hedge)
    (hsell : 0 < opp.sellPricePaise) (hres : x.pair.residual ≠ 0) {v : Venue} {q : BestQuote}
    (hqty : 0 < (hedgeIntent cfg x.pair v q).qty) {new : List Fill}
    (hown : OwnFills (hedgeIntent cfg x.pair v q) new)
    (hwithin : ∀ f ∈ new, WithinLimit (hedgeIntent cfg x.pair v q).side
      (hedgeIntent cfg x.pair v q).pricePaise f.fillPxPaise) :
    (new.map opp.lossOf).sum ≤ hedgeLoss x.pair (hedgeIntent cfg x.pair v q) := by
  obtain ⟨hbought, hsold⟩ := h.qty_nonneg
  have hdef : x.pair.residual = x.pair.boughtQty - x.pair.soldQty := rfl
  rcases lt_or_gt_of_ne hres with hshort | hlong
  · have hside : (hedgeIntent cfg x.pair v q).side = .buy := if_neg hshort.not_gt
    have havg := avgSellPx_eq h (hway.buys hshort) (by omega)
    rw [hside] at hwithin
    rw [hedgeLoss_short hshort (by rwa [havg]), havg]
    refine sum_lossOf_le hown hqty fun f hf => ?_
    have hlimit : f.fillPxPaise ≤ (hedgeIntent cfg x.pair v q).pricePaise := hwithin f hf
    simp only [ArbOpportunity.lossOf, (hown.side f hf).trans hside]
    exact mul_le_mul_of_nonneg_right (max_le_max le_rfl (by omega)) (hown.pos f hf).le
  · have hside : (hedgeIntent cfg x.pair v q).side = .sell := if_pos hlong
    have havg := avgBuyPx_eq h (hway.sells hlong) (by omega)
    rw [hside] at hwithin
    rw [hedgeLoss_long hlong, havg]
    refine sum_lossOf_le hown hqty fun f hf => ?_
    have hlimit : (hedgeIntent cfg x.pair v q).pricePaise ≤ f.fillPxPaise := hwithin f hf
    simp only [ArbOpportunity.lossOf, (hown.side f hf).trans hside]
    exact mul_le_mul_of_nonneg_right (max_le_max le_rfl (by omega)) (hown.pos f hf).le

/-- An order of the policy does not turn the residual around. -/
theorem OneWay.submit (h : FillBook opp s₀ x alpha hedge) (hway : OneWay x hedge)
    (hres : x.pair.residual ≠ 0) {v : Venue} {q : BestQuote}
    (hqty : 0 < (hedgeIntent cfg x.pair v q).qty) {new : List Fill}
    (hown : OwnFills (hedgeIntent cfg x.pair v q) new)
    (h' : FillBook opp s₀ x' alpha (hedge ++ new)) : OneWay x' (hedge ++ new) := by
  have hnew : x'.pair.residual = x.pair.residual + (new.map Fill.signedQty).sum := by
    rw [h'.tracks.totals.residual, h.tracks.totals.residual, ← List.append_assoc, List.map_append,
      List.sum_append]
  have htoward := Set.mem_uIcc.1 (hown.toward hqty)
  rw [← hnew] at htoward
  rcases lt_or_gt_of_ne hres with hshort | hlong
  · have hside : (hedgeIntent cfg x.pair v q).side = .buy := if_neg hshort.not_gt
    have hbuys := hway.buys hshort
    exact Or.inr ⟨List.forall_mem_append.2 ⟨hbuys, fun f hf => (hown.side f hf).trans hside⟩,
      by omega⟩
  · have hside : (hedgeIntent cfg x.pair v q).side = .sell := if_pos hlong
    have hsells := hway.sells hlong
    exact Or.inl ⟨List.forall_mem_append.2 ⟨hsells, fun f hf => (hown.side f hf).trans hside⟩,
      by omega⟩

/-! ### The hedge loop -/

/-- The hedges of the pair so far, and what they have lost. -/
structure HedgeBook (cfg : RiskConfig) (opp : ArbOpportunity) (s₀ : ReplayState) (x : Execution)
    (alpha hedge : List Fill) : Prop where
  book : FillBook opp s₀ x alpha hedge
  way : OneWay x hedge
  attempts : 0 ≤ x.pair.hedgeAttempts ∧ x.pair.hedgeAttempts ≤ max 0 cfg.maxHedgeAttempts
  total : (hedge.map opp.lossOf).sum ≤ x.pair.hedgeAttempts * cfg.maxHedgeLossPaise
  order : ∀ f ∈ hedge,
    ((hedge.filter fun f' => f'.clientOrderId = f.clientOrderId).map opp.lossOf).sum ≤
      cfg.maxHedgeLossPaise

theorem HedgeBook.quiet (h : HedgeBook cfg opp s₀ x alpha hedge) (hq : Quiet x x')
    (hatt : x'.pair.hedgeAttempts = x.pair.hedgeAttempts) :
    HedgeBook cfg opp s₀ x' alpha hedge := by
  have hres : x'.pair.residual = x.pair.residual := by
    rw [PairTrade.residual, hq.bought.1, hq.sold.1]
    rfl
  refine ⟨h.book.quiet hq, ?_, ?_, ?_, h.order⟩
  · unfold OneWay
    rw [hres]
    exact h.way
  · rw [hatt]
    exact h.attempts
  · rw [hatt]
    exact h.total

/-- What the policy lets pass: its order, and the loss limit. -/
theorem decision_order {nowNs : ℕ} (hforce : cfg.forceFlattenOnMaxLoss = false)
    (hsend : ((x.hedgePoint nowNs).decision cfg).shouldSend = true) :
    ∃ v q, ((x.hedgePoint nowNs).decision cfg).intent = hedgeIntent cfg x.pair v q ∧
      0 < (hedgeIntent cfg x.pair v q).qty ∧
      hedgeLoss x.pair (hedgeIntent cfg x.pair v q) ≤ cfg.maxHedgeLossPaise := by
  obtain ⟨-, -, v, heq⟩ := nextOrder_send hsend
  change (x.hedgePoint nowNs).decision cfg = candidateForVenue cfg x.pair v _ at heq
  rw [heq] at hsend ⊢
  obtain ⟨hintent, -, -, hqty⟩ := candidateForVenue_send hsend
  exact ⟨v, _, hintent, hqty, candidateForVenue_loss hsend hforce⟩

theorem hedgeLoss_nonneg (p : PairTrade) {intent : OrderIntent} (hqty : 0 < intent.qty) :
    0 ≤ hedgeLoss p intent := by
  unfold hedgeLoss
  split_ifs with hlong hworse hworse
  · exact mul_nonneg (by omega) hqty.le
  · exact le_rfl
  · exact mul_nonneg (by omega) hqty.le
  · exact le_rfl

/-- A new attempt, as the limit is not negative. -/
theorem HedgeBook.attempted (h : HedgeBook cfg opp s₀ x alpha hedge) (hcap : 0 ≤ cfg.maxHedgeLossPaise)
    (hlt : x.pair.hedgeAttempts < cfg.maxHedgeAttempts) {risk : RiskEngine}
    (hrisk : risk.cfg = x.run.risk.cfg) :
    HedgeBook cfg opp s₀ (x.attempted risk) alpha hedge := by
  have hatt := h.attempts
  refine ⟨h.book.quiet (quiet_attempted hrisk), h.way, ?_, ?_, h.order⟩
  · show 0 ≤ x.pair.hedgeAttempts + 1 ∧ x.pair.hedgeAttempts + 1 ≤ max 0 cfg.maxHedgeAttempts
    omega
  · show _ ≤ (x.pair.hedgeAttempts + 1) * cfg.maxHedgeLossPaise
    have htotal := h.total
    rw [add_mul, one_mul]
    omega

/-- Fills of known orders are not fills of the next one. -/
theorem FillBook.hedge_ne (h : FillBook opp s₀ x alpha hedge) (intent : OrderIntent) :
    ∀ f ∈ hedge, f.clientOrderId ≠ x.run.oms.nextId intent := by
  intro f hf heq
  have hrole := h.hedgeRole f hf
  rw [OrderManager.roleOf, heq, OrderManager.intentOf_nextId h.tracks.sound.known] at hrole
  cases hrole

/-- **A hedge order** uses its attempt up and loses no more than the limit. -/
theorem HedgeBook.submit (h : HedgeBook cfg opp s₀ x alpha hedge) (hsell : 0 < opp.sellPricePaise)
    {v : Venue} {q : BestQuote} (hlt : x.pair.hedgeAttempts < cfg.maxHedgeAttempts)
    (hres : x.pair.residual ≠ 0) (hqty : 0 < (hedgeIntent cfg x.pair v q).qty)
    (hloss : hedgeLoss x.pair (hedgeIntent cfg x.pair v q) ≤ cfg.maxHedgeLossPaise)
    {risk : RiskEngine} (hrisk : risk.cfg = x.run.risk.cfg)
    (hc : Cleared (x.attempted risk) (hedgeIntent cfg x.pair v q)) :
    ∃ hedge', HedgeBook cfg opp s₀
      ((x.attempted risk).submit env nowNs (hedgeIntent cfg x.pair v q)).1 alpha hedge' := by
  have hattempted := h.book.quiet (quiet_attempted hrisk)
  have hs := hattempted.tracks.sound
  have hown := (submit_submitted hs env nowNs (hedgeIntent cfg x.pair v q)).own
  have hbook := @FillBook.hedged env nowNs _ _ _ _ _ _ hattempted hc rfl
  have hnew := order_loss h.book h.way hsell hres hqty hown (newFills_within hs)
  have hold : ∀ f ∈ hedge, f.clientOrderId ≠ _ := hattempted.hedge_ne (hedgeIntent cfg x.pair v q)
  have hids := @clientOrderId_newFills env nowNs (x.attempted risk) (hedgeIntent cfg x.pair v q)
  have hatt : ((x.attempted risk).submit env nowNs (hedgeIntent cfg x.pair v q)).1.pair.hedgeAttempts =
      x.pair.hedgeAttempts + 1 := hedgeAttempts_submit env nowNs _ _
  generalize (x.attempted risk).newFills env nowNs (hedgeIntent cfg x.pair v q) = new at *
  refine ⟨hedge ++ new, hbook, OneWay.submit h.book h.way hres hqty hown hbook, ?_, ?_, ?_⟩
  · have hatts := h.attempts
    rw [hatt]
    omega
  · have htotal := h.total
    rw [hatt, List.map_append, List.sum_append, add_mul, one_mul]
    omega
  · -- the fills of an order are either all new or all old
    refine List.forall_mem_append.2 ⟨fun f hf => ?_, fun f hf => ?_⟩
    · have hnone : new.filter (fun f' => f'.clientOrderId = f.clientOrderId) = [] := by
        rw [List.filter_eq_nil_iff]
        intro f' hf' heq
        exact hold f hf ((of_decide_eq_true heq).symm.trans (hids f' hf'))
      rw [List.filter_append, hnone, List.append_nil]
      exact h.order f hf
    · have hnone : hedge.filter (fun f' => f'.clientOrderId = f.clientOrderId) = [] := by
        rw [List.filter_eq_nil_iff]
        intro f' hf' heq
        exact hold f' hf' ((of_decide_eq_true heq).trans (hids f hf))
      have hall : new.filter (fun f' => f'.clientOrderId = f.clientOrderId) = new := by
        rw [List.filter_eq_self]
        intro f' hf'
        exact decide_eq_true ((hids f' hf').trans (hids f hf).symm)
      rw [List.filter_append, hnone, hall, List.nil_append]
      exact hnew.trans hloss

/-- Every turn of the hedge loop keeps the book. -/
theorem HedgeBook.turn (h : HedgeBook cfg opp s₀ x alpha hedge) (hsell : 0 < opp.sellPricePaise)
    (hforce : cfg.forceFlattenOnMaxLoss = false) :
    ∀ r, hedgeBody env cfg nowNs x = r →
      match r with
      | .done y => ∃ hedge', HedgeBook cfg opp s₀ y alpha hedge'
      | .yield y => ∃ hedge', HedgeBook cfg opp s₀ y alpha hedge' := by
  intro r hr
  have hturn := hedgeBody_turn env cfg nowNs x
  rw [hr] at hturn
  have hasked : HedgeBook cfg opp s₀ (x.asked nowNs) alpha hedge := h.quiet (quiet_observe _) rfl
  cases hturn with
  | finished hguard => exact ⟨hedge, h⟩
  | kill hres hatt hkill =>
    exact ⟨hedge, (hasked.quiet (quiet_disable _) rfl).quiet
      (quiet_stopHedging ((x.hedgePoint nowNs).verdictRule_reason cfg) _ _ _) rfl⟩
  | noOrder hres hatt hsend =>
    exact ⟨hedge, hasked.quiet
      (quiet_stopHedging ((x.hedgePoint nowNs).verdictRule_reason cfg) _ _ _) rfl⟩
  | blocked hres hatt hsend happ =>
    obtain ⟨v, q, -, hqty, hloss⟩ := decision_order hforce hsend
    have hcap := (hedgeLoss_nonneg x.pair hqty).trans hloss
    exact ⟨hedge, (hasked.attempted hcap hatt RiskEngine.cfg_checkOrder).quiet
      (quiet_stopHedging ((x.hedgePoint nowNs).verdictRule_check cfg) _ _ _) rfl⟩
  | sent hres hatt hsend happ =>
    obtain ⟨v, q, hintent, hqty, hloss⟩ := decision_order hforce hsend
    have hclear := hedgePoint_cleared hsend happ
    rw [hintent] at hclear ⊢
    obtain ⟨hedge', hsubmitted⟩ := @HedgeBook.submit env nowNs _ _ _ _ _ _ hasked hsell v q hatt
      hres hqty hloss _ RiskEngine.cfg_checkOrder hclear
    exact ⟨hedge', hsubmitted.quiet quiet_countHedge rfl⟩

theorem HedgeBook.hedgeUntilFlat (h : HedgeBook cfg opp s₀ x alpha hedge)
    (hsell : 0 < opp.sellPricePaise) (hforce : cfg.forceFlattenOnMaxLoss = false) :
    ∃ hedge', HedgeBook cfg opp s₀ (x.hedgeUntilFlat env cfg nowNs) alpha hedge' := by
  have hloop := (hedge_ends env cfg nowNs x).induct
    (I := fun y => ∃ hedge', HedgeBook cfg opp s₀ y alpha hedge')
    (R := fun y => ∃ hedge', HedgeBook cfg opp s₀ y alpha hedge') ⟨hedge, h⟩
    (fun y y' ⟨_, hy⟩ hbody => hy.turn hsell hforce _ hbody)
    (fun y y' ⟨_, hy⟩ hbody => hy.turn hsell hforce _ hbody)
  obtain ⟨hedge', hy⟩ := hloop
  exact ⟨hedge', hy.quiet quiet_settle rfl⟩

end Execution

/-! ### Executions -/

namespace ReplayState

open Execution

variable {env : Env} {cfg : SimConfig} {nowNs : ℕ} {s s' : ReplayState} {opp : ArbOpportunity}

theorem hedgeAttempts_sendOne (nse bse : BestQuote) (x : Execution) (intent : OrderIntent) :
    (Execution.sendOne env nowNs nse bse x intent).pair.hedgeAttempts = x.pair.hedgeAttempts := by
  rcases sendOne_cases env nowNs nse bse x intent with ⟨-, heq⟩ | ⟨-, heq⟩
  · rw [heq]
    rfl
  · rw [heq]
    have hsubmit := hedgeAttempts_submit env nowNs
      (x.checkLeg nowNs (quoteFor nse bse intent.venue) intent).2 intent
    unfold failLeg
    split_ifs <;> exact hsubmit

/-- The book of an execution at its end. -/
theorem executed_hedgeBook (h : Started cfg nowNs s opp)
    (hforce : cfg.risk.forceFlattenOnMaxLoss = false) :
    ∃ alpha hedge, HedgeBook cfg.risk opp s (s.executed env cfg nowNs opp) alpha hedge := by
  obtain ⟨alpha, hlegs⟩ := @sendLegs_fillBook env _ _ _ _ h
  have hatt : (s.sendLegs env nowNs opp (cfg.legs opp).1 (cfg.legs opp).2).pair.hedgeAttempts = 0 :=
    (hedgeAttempts_sendOne _ _ _ _).trans (hedgeAttempts_sendOne _ _ _ _)
  have hsell : 0 < opp.sellPricePaise := h.sell_atQuote.price
  unfold executed
  generalize s.sendLegs env nowNs opp (cfg.legs opp).1 (cfg.legs opp).2 = x at hlegs hatt ⊢
  have hstart : HedgeBook cfg.risk opp s x alpha [] := by
    refine ⟨hlegs, ?_, by rw [hatt]; simp, by rw [hatt]; simp, by simp⟩
    rcases le_total 0 x.pair.residual with hlong | hshort
    · exact Or.inl ⟨by simp, hlong⟩
    · exact Or.inr ⟨by simp, hshort⟩
  have hhedged : ∃ hedge, HedgeBook cfg.risk opp s (hedgeLegs env cfg.risk nowNs x) alpha hedge := by
    refine hedgeLegs_induct (I := fun y => ∃ hedge, HedgeBook cfg.risk opp s y alpha hedge)
      ⟨[], hstart⟩ (fun _ => ?_) ?_
    · exact (hstart.quiet (quiet_setState .hedging) rfl).hedgeUntilFlat hsell hforce
    · rintro y ⟨hedge, hy⟩
      exact ⟨hedge, hy.quiet (quiet_setState .flat) rfl⟩
  exact ⟨alpha, hhedged⟩

/-- All fills are of orders that are known, and every logged pair keeps its bound. -/
structure LossBook (cfg : SimConfig) (s : ReplayState) : Prop where
  filed : s.Filed
  known : ∀ f ∈ s.oms.fills, ∃ i, s.oms.intentOf f.clientOrderId = some i
  bound : ∀ p ∈ s.logs.pairs, LossBound cfg.risk s.oms p

/-- A pair is bound by its own fills. -/
theorem lossBound_congr {cfg : RiskConfig} {m m' : OrderManager} {p : PairTrade}
    (h : LossBound cfg m p) (heq : m'.hedgeFills p = m.hedgeFills p) : LossBound cfg m' p := by
  refine ⟨h.attempts, ?_, ?_⟩ <;> rw [heq]
  · exact h.total
  · exact h.order

/-- The hedge fills of an older pair stay as they are. -/
theorem hedgeFills_older {m m' : OrderManager} {cur : List Fill} {p : PairTrade}
    (hfills : m'.fills = m.fills ++ cur) (hother : ∀ f ∈ cur, f.parentArbId ≠ p.parentId)
    (hknown : ∀ f ∈ m.fills, ∃ i, m.intentOf f.clientOrderId = some i)
    (hkept : ∀ k i, m.intentOf k = some i → m'.intentOf k = some i) :
    m'.hedgeFills p = m.hedgeFills p := by
  have hnone : cur.filter (fun f => f.parentArbId = p.parentId ∧ m'.roleOf f = some .hedge) = [] := by
    rw [List.filter_eq_nil_iff]
    intro f hf heq
    exact hother f hf (of_decide_eq_true heq).1
  rw [OrderManager.hedgeFills, hfills, List.filter_append, hnone, List.append_nil]
  refine List.filter_congr fun f hf => ?_
  obtain ⟨i, hi⟩ := hknown f hf
  rw [OrderManager.roleOf, OrderManager.roleOf, hi, hkept _ _ hi]

/-- The hedge fills of a new pair are those of its book. -/
theorem hedgeFills_new {x : Execution} {alpha hedge : List Fill}
    (h : FillBook opp s x alpha hedge) (hother : ∀ f ∈ s.oms.fills, f.parentArbId ≠ x.pair.parentId) :
    x.run.oms.hedgeFills x.pair = hedge := by
  have hold : s.oms.fills.filter
      (fun f => f.parentArbId = x.pair.parentId ∧ x.run.oms.roleOf f = some .hedge) = [] := by
    rw [List.filter_eq_nil_iff]
    intro f hf heq
    exact hother f hf (of_decide_eq_true heq).1
  have halpha : alpha.filter
      (fun f => f.parentArbId = x.pair.parentId ∧ x.run.oms.roleOf f = some .hedge) = [] := by
    rw [List.filter_eq_nil_iff]
    intro f hf heq
    obtain ⟨r, hr, hrole⟩ := h.alphaRole f hf
    exact hr (Option.some.inj (hrole.symm.trans (of_decide_eq_true heq).2))
  have hhedge : hedge.filter
      (fun f => f.parentArbId = x.pair.parentId ∧ x.run.oms.roleOf f = some .hedge) = hedge := by
    rw [List.filter_eq_self]
    intro f hf
    exact decide_eq_true ⟨h.tracks.parent f (List.mem_append_right _ hf), h.hedgeRole f hf⟩
  rw [OrderManager.hedgeFills, h.tracks.fills, List.filter_append, List.filter_append, hold, halpha,
    hhedge, List.nil_append, List.nil_append]

theorem lossBound_new {x : Execution} {cfg : RiskConfig} {alpha hedge : List Fill}
    (h : HedgeBook cfg opp s x alpha hedge) (hfills : x.run.oms.hedgeFills x.pair = hedge) :
    LossBound cfg x.run.oms x.pair := by
  have heq := lossOf_eq h.book h.way
  have hsum : ∀ fs ⊆ hedge, (fs.map x.pair.lossOf).sum = ((fs.map opp.lossOf).sum : ℤ) := by
    intro fs hsub
    rw [Int.cast_list_sum, List.map_map]
    exact congrArg List.sum (List.map_congr_left fun f hf => heq f (hsub hf))
  refine ⟨h.attempts, ?_, ?_⟩ <;> rw [hfills]
  · rw [hsum hedge (List.Subset.refl _)]
    exact_mod_cast h.total
  · intro f hf
    rw [hsum _ (List.filter_subset_self _)]
    exact_mod_cast h.order f hf

/-- **Every turn keeps the bounds.** -/
theorem LossBook.turn {maxTrades : ℤ} {item : MdResult} (h : LossBook cfg s)
    (hforce : cfg.risk.forceFlattenOnMaxLoss = false)
    (ht : ItemTurn env cfg maxTrades s item s') : LossBook cfg s' := by
  have hfiled := h.filed.turn ht
  cases ht with
  | skip hnone => exact h
  | watch ev hev hnoted =>
    obtain ⟨hquiet, -⟩ := quiet_onBookEvent (s := s) item ev
    have homs : s'.oms = s.oms := hnoted.oms.trans hquiet.oms
    have hpairs : s'.logs.pairs = s.logs.pairs := hnoted.logs.2.trans hquiet.logs.2
    refine ⟨hfiled, ?_, ?_⟩
    · rw [homs]
      exact h.known
    · rw [homs, hpairs]
      exact h.bound
  | execute ev nse bse hdecides htrades =>
    obtain ⟨hquiet, hids⟩ := quiet_onBookEvent (s := s) item ev
    have hstarted := hdecides.started h.filed
    have homs : (s.opened cfg item ev nse bse).2.oms = s.oms := hquiet.oms
    have hpairs : (s.opened cfg item ev nse bse).2.logs.pairs = s.logs.pairs := hquiet.logs.2
    -- the parent id is new
    have hseq : (s.opened cfg item ev nse bse).2.ids.parentSeq = s.ids.parentSeq + 1 :=
      congrArg (fun ids => ids.parentSeq + 1) hids
    have hno : ¬ s.Issued (s.opened cfg item ev nse bse).1.parentArbId :=
      @not_issued s _ (s.opened cfg item ev nse bse).2.ids.idPrefix _
        (s.opened cfg item ev nse bse).2.ids.parentSeq rfl (by omega)
    obtain ⟨hfreshPairs, hfreshFills⟩ := h.filed.balanced.fresh hno
    obtain ⟨alpha, hedge, hbook⟩ := @executed_hedgeBook env _ _ _ _ hstarted hforce
    obtain ⟨homs', -, -, -, -, hpairs', -⟩ := executeOpportunity_eq env cfg ev.tsIngestNs
      (s.opened cfg item ev nse bse).2 (s.opened cfg item ev nse bse).1
    have hsteps := executed_steps env cfg ev.tsIngestNs (s.opened cfg item ev nse bse).2
      (s.opened cfg item ev nse bse).1
    have hparent := hsteps.sameTrade.parentId
    generalize (s.opened cfg item ev nse bse).2.executed env cfg ev.tsIngestNs
      (s.opened cfg item ev nse bse).1 = x at hbook homs' hpairs' hparent
    have htracks := hbook.book.tracks
    rw [htracks.pairs, hpairs] at hpairs'
    have hfills := htracks.fills
    have hkept := hbook.book.kept
    rw [homs] at hfills hkept
    have hsameParent : x.pair.parentId = (s.opened cfg item ev nse bse).1.parentArbId := hparent
    refine ⟨hfiled, ?_, ?_⟩
    · show ∀ f ∈ (executeOpportunity env cfg ev.tsIngestNs (s.opened cfg item ev nse bse).2
        (s.opened cfg item ev nse bse).1).oms.fills, ∃ i, (executeOpportunity env cfg
        ev.tsIngestNs (s.opened cfg item ev nse bse).2
        (s.opened cfg item ev nse bse).1).oms.intentOf f.clientOrderId = some i
      rw [homs', hfills]
      refine List.forall_mem_append.2 ⟨fun f hf => ?_, List.forall_mem_append.2
        ⟨fun f hf => ?_, fun f hf => ?_⟩⟩
      · obtain ⟨i, hi⟩ := h.known f hf
        exact ⟨i, hkept _ _ hi⟩
      · obtain ⟨r, -, hrole⟩ := hbook.book.alphaRole f hf
        obtain ⟨i, hi, -⟩ := Option.map_eq_some_iff.1 hrole
        exact ⟨i, hi⟩
      · obtain ⟨i, hi, -⟩ := Option.map_eq_some_iff.1 (hbook.book.hedgeRole f hf)
        exact ⟨i, hi⟩
    · show ∀ p ∈ (executeOpportunity env cfg ev.tsIngestNs (s.opened cfg item ev nse bse).2
        (s.opened cfg item ev nse bse).1).logs.pairs, LossBound cfg.risk (executeOpportunity env
        cfg ev.tsIngestNs (s.opened cfg item ev nse bse).2 (s.opened cfg item ev nse bse).1).oms p
      rw [homs', hpairs']
      refine List.forall_mem_append.2 ⟨fun p hp => ?_, List.forall_mem_singleton.2 ?_⟩
      · refine lossBound_congr (h.bound p hp)
          (hedgeFills_older hfills (fun f hf heq => ?_) h.known hkept)
        exact hfreshPairs p hp (heq.symm.trans ((htracks.parent f hf).trans hsameParent))
      · refine lossBound_new hbook (hedgeFills_new hbook.book ?_)
        rw [homs, hsameParent]
        exact hfreshFills

end ReplayState

/-! ### Runs -/

namespace Simulator

open ReplayState

/-- **The loss of hedging.**  Unless it is to flatten at any price, in every run, of a simulator
that may have run before, each hedge order of a pair loses at most `max_hedge_loss_paise`, and all
of them at most that for each of the at most `max_hedge_attempts` attempts. -/
theorem run_hedgeLoss (cfg : SimConfig) (hforce : cfg.risk.forceFlattenOnMaxLoss = false)
    (calls : List ReplayCall) (call : ReplayCall) (turns : ℕ) :
    ∀ p ∈ ((afterRuns cfg calls).replayFor call turns).logs.pairs,
      LossBound cfg.risk ((afterRuns cfg calls).replayFor call turns).oms p := by
  refine (replayFor_from (I := LossBook cfg) (Nat.zero_le turns)
    ⟨run_filed cfg calls call 0, by simp [replayFor, runLoop, start],
      by simp [replayFor, runLoop, start]⟩ ?_ ?_).bound
  · rintro s md h -
    exact ⟨h.filed.read md, h.known, h.bound⟩
  · rintro s item md s' h - hturn
    rw [(afterRuns_spec cfg calls).2] at hturn
    have hread : LossBook cfg { s with md := md } := ⟨h.filed.read md, h.known, h.bound⟩
    exact hread.turn hforce hturn

/-- NSE has not moved for 500 us when the ask of BSE comes down below its bid. -/
def thinMarket : ReplayCall where
  env := ⟨fun _ => 0, fun _ => .byId⟩
  lines := ["1,1000,NSE,1,1,ADD,1,1,ADD,1,BUY,120,30", "1,1000,NSE,1,2,ADD,1,1,ADD,2,SELL,130,30",
    "1,501000,BSE,1,1,ADD,1,1,ADD,3,BUY,90,10", "1,501000,BSE,1,2,ADD,1,1,ADD,4,BUY,80,10",
    "1,501000,BSE,1,3,ADD,1,1,ADD,5,BUY,70,10", "1,501000,BSE,1,4,ADD,1,1,ADD,6,SELL,200,30",
    "1,501000,BSE,1,5,ADD,1,1,ADD,7,SELL,100,30"].map String.toList
  maxTrades := 10

/-- Its strategy bears older books than its risk limits do. -/
def thinConfig : SimConfig where
  strategy := { maxBookAgeUs := 1000 }
  risk := { maxHedgeLossPaise := 300 }

/-- The sale is blocked, and three hedges at 90, 80 and 70 lose 100, 200 and 300. -/
theorem run_hedgeLoss_thin :
    ∃ p ∈ ((afterRuns thinConfig []).replayFor thinMarket 7).logs.pairs, p.hedgeAttempts = 3 ∧
      LossBound thinConfig.risk ((afterRuns thinConfig []).replayFor thinMarket 7).oms p := by
  have hpair : ∃ p ∈ ((afterRuns thinConfig []).replayFor thinMarket 7).logs.pairs,
      p.hedgeAttempts = 3 := by decide +kernel
  obtain ⟨p, hp, hatt⟩ := hpair
  exact ⟨p, hp, hatt, run_hedgeLoss thinConfig rfl [] thinMarket 7 p hp⟩

/-- Together they lose twice the limit. -/
theorem lossCapped_thin : thinConfig.risk.forceFlattenOnMaxLoss = false ∧
    ¬ LossCapped thinConfig.risk ((afterRuns thinConfig []).replayFor thinMarket 7) := by
  refine ⟨rfl, ?_⟩
  unfold LossCapped
  decide +kernel

end Simulator

end Hft
