import HftArb.Sim.Closing
import HftArb.Sim.FillBook
import HftArb.Sim.RiskGate

/-!
# Hedging shrinks the residual

Every turn of the hedge loop that goes on submits one order on the side that reduces the residual,
for no more than the residual, and books nothing but its fills (`Reduces`).  So the residual moves
towards flat with every turn and never past it, whatever the gateway makes of the orders
(`hedge_shrinks`).
-/

namespace Hft

open Transition

namespace Execution

variable {env : Env} {cfg : RiskConfig} {nowNs : ℕ} {x x' y y' : Execution}

/-- A turn from `x` to `x'` that submits `intent` and books its fills `new`. -/
structure Reduces (cfg : RiskConfig) (x : Execution) (intent : OrderIntent) (new : List Fill)
    (x' : Execution) : Prop where
  sent : submissions x'.run.trace = submissions x.run.trace ++ [intent]
  side : intent.side = if 0 < x.pair.residual then .sell else .buy
  qty : 0 < intent.qty ∧ intent.qty ≤ min |x.pair.residual| cfg.maxOrderQty
  fills : x'.run.oms.fills = x.run.oms.fills ++ new
  own : OwnFills intent new
  within : ∀ f ∈ new, WithinLimit intent.side intent.pricePaise f.fillPxPaise
  residual : x'.pair.residual = x.pair.residual + (new.map Fill.signedQty).sum
  toward : x'.pair.residual ∈ Set.uIcc 0 x.pair.residual

/-- An order of the policy, submitted in a state `y` in which pair and orders are those of `x`. -/
theorem reduces_submit {v : Venue} {q : BestQuote} (hs : y.run.Sound)
    (hqty : 0 < (hedgeIntent cfg x.pair v q).qty) (hsame : x.pair.SameTrade y.pair)
    (hres : y.pair.residual = x.pair.residual) (homs : y.run.oms = x.run.oms)
    (htrace : submissions y.run.trace = submissions x.run.trace) :
    Reduces cfg x (hedgeIntent cfg x.pair v q) (y.newFills env nowNs (hedgeIntent cfg x.pair v q))
      (y.submit env nowNs (hedgeIntent cfg x.pair v q)).1.countHedge := by
  have hsubmitted := submit_submitted hs env nowNs (hedgeIntent cfg x.pair v q)
  have hresidual :
      (y.submit env nowNs (hedgeIntent cfg x.pair v q)).1.countHedge.pair.residual =
        x.pair.residual +
          ((y.newFills env nowNs (hedgeIntent cfg x.pair v q)).map Fill.signedQty).sum := by
    have hown : ∀ f ∈ y.newFills env nowNs (hedgeIntent cfg x.pair v q),
        f.parentArbId = y.pair.parentId := fun f hf =>
      (hsubmitted.own.parent f hf).trans hsame.parentId.symm
    rw [← hres, ← PairTrade.residual_foldl hown, ← hsubmitted.pair]
    rfl
  refine ⟨?_, rfl, ⟨hqty, hedgeIntent_qty_le cfg x.pair v q⟩, ?_, hsubmitted.own,
    newFills_within hs, hresidual, ?_⟩
  · have hsent := congrArg submissions hsubmitted.trace
    rw [submissions_append, htrace] at hsent
    exact hsent
  · rw [← homs]
    exact hsubmitted.fills
  · rw [hresidual]
    exact hsubmitted.own.toward hqty

/-- A turn that goes on. -/
theorem reduces_of_yield (hs : x.run.Sound) (hbody : hedgeBody env cfg nowNs x = .yield x') :
    (∃ intent new, Reduces cfg x intent new x') ∧ x'.run.Sound := by
  have hsound := Steps.sound (hedgeBody_steps env cfg nowNs x _ hbody) hs
  refine ⟨?_, hsound⟩
  have hturn := hedgeBody_turn env cfg nowNs x
  rw [hbody] at hturn
  cases hturn with
  | sent hres hatt hsend happ =>
    obtain ⟨v, q, hintent⟩ := hedgePoint_intent hsend
    have hasked : ((x.asked nowNs).attempted ((x.hedgePoint nowNs).check cfg).2).run.Sound :=
      ⟨hs.books, hs.known, hs.taken⟩
    have hqty : 0 < (hedgeIntent cfg x.pair v q).qty := by
      rw [← hintent]
      exact (RiskEngine.checkOrder_approved.1 happ).1.qty.1
    have hquiet : submissions ((x.asked nowNs).attempted
        ((x.hedgePoint nowNs).check cfg).2).run.trace = submissions x.run.trace :=
      submissions_hedging x.run.trace _
    rw [hintent]
    exact ⟨_, _, reduces_submit hasked hqty ⟨rfl, rfl, rfl, rfl⟩ rfl rfl hquiet⟩

/-- A turn that leaves the loop submits nothing and books nothing. -/
theorem unchanged_of_done (hbody : hedgeBody env cfg nowNs x = .done x') :
    x'.pair.residual = x.pair.residual ∧ x'.run.oms = x.run.oms ∧
      submissions x'.run.trace = submissions x.run.trace := by
  have hasked : submissions (x.asked nowNs).run.trace = submissions x.run.trace :=
    submissions_hedging x.run.trace _
  have hturn := hedgeBody_turn env cfg nowNs x
  rw [hbody] at hturn
  cases hturn with
  | finished hguard => exact ⟨rfl, rfl, rfl⟩
  | kill hres hatt hkill => exact ⟨rfl, rfl, hasked⟩
  | noOrder hres hatt hsend => exact ⟨rfl, rfl, hasked⟩
  | blocked hres hatt hsend happ => exact ⟨rfl, rfl, hasked⟩

/-! ### The loop -/

/-- What `hedge_until_flat` does turn by turn, and how often. -/
structure Shrinks (env : Env) (cfg : RiskConfig) (nowNs : ℕ) (x : Execution) : Prop where
  turn : ∀ n y y', Turns (hedgeBody env cfg nowNs) x n y → hedgeBody env cfg nowNs y = .yield y' →
    ∃ intent new, Reduces cfg y intent new y'
  leave : ∀ n y y', Turns (hedgeBody env cfg nowNs) x n y → hedgeBody env cfg nowNs y = .done y' →
    y'.pair.residual = y.pair.residual ∧ y'.run.oms = y.run.oms ∧
      submissions y'.run.trace = submissions y.run.trace
  turns : ∃ n y y', Turns (hedgeBody env cfg nowNs) x n y ∧ hedgeBody env cfg nowNs y = .done y' ∧
    x.hedgeUntilFlat env cfg nowNs = y'.settle ∧
    ∃ orders, submissions (x.hedgeUntilFlat env cfg nowNs).run.trace =
      submissions x.run.trace ++ orders ∧ orders.length = n ∧
      (orders.length : ℤ) ≤ max 0 (cfg.maxHedgeAttempts - x.pair.hedgeAttempts) ∧
      (0 ≤ x.pair.hedgeAttempts → (orders.length : ℤ) ≤ max 0 cfg.maxHedgeAttempts)
  toward : (x.hedgeUntilFlat env cfg nowNs).pair.residual ∈ Set.uIcc 0 x.pair.residual

/-- What has happened after `n` turns. -/
structure Shrunk (cfg : RiskConfig) (x : Execution) (n : ℕ) (y : Execution) : Prop where
  sound : y.run.Sound
  orders : ∃ orders, submissions y.run.trace = submissions x.run.trace ++ orders ∧
    orders.length = n
  attempts : y.pair.hedgeAttempts = x.pair.hedgeAttempts + n
  bound : n = 0 ∨ x.pair.hedgeAttempts + n ≤ cfg.maxHedgeAttempts
  toward : y.pair.residual ∈ Set.uIcc 0 x.pair.residual

theorem shrunk_turns (hs : x.run.Sound) {n : ℕ} (h : Turns (hedgeBody env cfg nowNs) x n y) :
    Shrunk cfg x n y := by
  induction h with
  | start => exact ⟨hs, ⟨[], by simp, rfl⟩, by simp, Or.inl rfl, Set.right_mem_uIcc⟩
  | @turn n y y' _ hbody ih =>
    obtain ⟨⟨intent, new, hreduces⟩, hsound⟩ := reduces_of_yield ih.sound hbody
    obtain ⟨orders, horders, hlength⟩ := ih.orders
    obtain ⟨hatt, hlt⟩ := hedgeAttempts_yield hbody
    have hattempts := ih.attempts
    refine ⟨hsound, ⟨orders ++ [intent], ?_, by simp [hlength]⟩, by push_cast; omega,
      Or.inr (by push_cast; omega), ?_⟩
    · rw [hreduces.sent, horders, List.append_assoc]
    · -- what lies between flat and the residual before lies between flat and the first one
      exact Set.uIcc_subset_uIcc Set.left_mem_uIcc ih.toward hreduces.toward

/-- **Hedging shrinks the residual.**  Whatever the residual, the books, the scenario and the
limits, every turn of `hedge_until_flat` moves the residual towards flat and not past it, with one
order that is filled within its limit; and there are no more orders than attempts left. -/
theorem hedge_shrinks {x : Execution} (homs : x.run.oms.Reachable)
    (htaken : x.run.oms.consumedFills = x.run.oms.fills.length) {calls : List ManagerCall}
    (hbooks : x.run.gateway.books = calls.foldl BookManager.exec {}) (env : Env)
    (cfg : RiskConfig) (nowNs : ℕ) : Shrinks env cfg nowNs x := by
  have hs : x.run.Sound := ⟨by rw [hbooks]; exact BookManager.wf_run calls, homs.knownIds, htaken⟩
  obtain ⟨n, y, hturns, hdone⟩ := (hedge_ends env cfg nowNs x).turns
  have hreturn : x.hedgeUntilFlat env cfg nowNs = (runLoop (hedgeBody env cfg nowNs)
      ((cfg.maxHedgeAttempts - x.pair.hedgeAttempts).toNat + 1) x).settle := rfl
  have hshrunk := shrunk_turns hs hturns
  obtain ⟨hres, -, hsent⟩ := unchanged_of_done hdone
  refine ⟨fun n y y' hy hbody => (reduces_of_yield (shrunk_turns hs hy).sound hbody).1,
    fun n y y' hy hbody => unchanged_of_done hbody, ⟨n, y, _, hturns, hdone, hreturn, ?_⟩, ?_⟩
  · obtain ⟨orders, horders, hlength⟩ := hshrunk.orders
    have hbound : (orders.length : ℤ) ≤ max 0 (cfg.maxHedgeAttempts - x.pair.hedgeAttempts) := by
      rw [hlength]
      have hattempts := hshrunk.bound
      omega
    refine ⟨orders, ?_, hlength, hbound, fun hfresh => ?_⟩
    · rw [← horders, ← hsent, hreturn]
      exact (submissions_append _ _).trans (List.append_nil _)
    · exact hbound.trans (max_le_max le_rfl (by omega))
  · rw [hreturn]
    have htoward := hshrunk.toward
    rw [← hres] at htoward
    exact htoward

/-- A resting order of instrument 1 at NSE. -/
def resting (id : ℕ) (side : Side) (pricePaise qty : ℤ) : ManagerCall :=
  .onEvent
    { tsExchangeNs := 0
      tsIngestNs := 1
      venue := .nse
      instrumentId := 1
      nativeToken := 0
      eventType := .add
      orderId := id
      side := side
      pricePaise := pricePaise
      qty := qty
      nativePayload := [] }

/-- A pair that has bought twelve, before bids for ten and one. -/
def twelveLong : Execution where
  run :=
    { md := .ofLines []
      gateway :=
        { books := [resting 1 .buy 100 10, resting 2 .buy 99 1, resting 3 .sell 101 5].foldl
            BookManager.exec {} }
      risk := .new {} }
  pair :=
    { parentId := "SIM-ARB-1-1", instrumentId := 1, intendedBuyVenue := .bse,
      intendedSellVenue := .nse, boughtQty := 12, boughtNotionalPaise := 1200 }

/-- Two orders bring the residual to one, and then there is no bid. -/
theorem hedge_shrinks_twelveLong :
    (twelveLong.hedgeUntilFlat ⟨fun _ => 0, fun _ => .byId⟩ {} 1).pair.residual = 1 ∧
      Shrinks ⟨fun _ => 0, fun _ => .byId⟩ {} 1 twelveLong :=
  ⟨by decide +kernel, hedge_shrinks (.start {} _) rfl rfl _ _ _⟩

end Execution

end Hft
