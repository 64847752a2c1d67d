import HftArb.Sim.AtQuote

/-!
# The fills of an execution by role

`FillBook` splits the fills of a pair into those of the legs and those of the hedges.  A leg fills
at the price of the opportunity, whatever the scenario does to it, so that the average price of the
side that is to be hedged is exact (`FillBook.notional_buy`, `FillBook.notional_sell`).
-/

namespace Hft

open Execution

/-- The role of the order that a fill belongs to. -/
def OrderManager.roleOf (m : OrderManager) (f : Fill) : Option OrderRole :=
  (m.intentOf f.clientOrderId).map OrderIntent.role

/-- The price of the opportunity on one side. -/
def ArbOpportunity.pxOf (opp : ArbOpportunity) (side : Side) : ℤ :=
  if side = .buy then opp.buyPricePaise else opp.sellPricePaise

namespace Execution

variable {env : Env} {nowNs : ℕ} {x x' : Execution} {intent : OrderIntent}

theorem clientOrderId_newFills : ∀ f ∈ x.newFills env nowNs intent,
    f.clientOrderId = x.run.oms.nextId intent := by
  intro f hf
  obtain ⟨r, -, rfl⟩ := List.mem_map.1 hf
  rfl

/-- An order is filled within its limit. -/
theorem newFills_within (h : x.run.Sound) : ∀ f ∈ x.newFills env nowNs intent,
    WithinLimit intent.side intent.pricePaise f.fillPxPaise := by
  unfold newFills
  have hsending := MatchingEngine.send_sending env x.run.gateway
    (OrderManager.newOrder intent (x.run.oms.nextId intent) nowNs)
  generalize x.run.gateway.send env _ = res at hsending ⊢
  cases hsending with
  | reject ts hrefusal => exact fun f hf => nomatch hf
  | matched ts hdisc hrole hbook =>
    rw [MatchingEngine.fillsOf_matchReports]
    exact List.forall_mem_map.2 fun lf hlf =>
      ((matchIoc_spec (h.books.book hbook) _ _ _ _).fills lf hlf).2

/-- What was ordered under an id stays so. -/
theorem intentOf_submit_kept (h : x.run.Sound) {k : String} {i : OrderIntent}
    (hk : x.run.oms.intentOf k = some i) :
    (x.submit env nowNs intent).1.run.oms.intentOf k = some i := by
  rw [intentOf_submit h]
  refine (if_neg fun heq => ?_).trans hk
  rw [heq, OrderManager.intentOf_nextId h.known] at hk
  cases hk

theorem roleOf_submit_kept (h : x.run.Sound) {f : Fill} {r : OrderRole}
    (hf : x.run.oms.roleOf f = some r) :
    (x.submit env nowNs intent).1.run.oms.roleOf f = some r := by
  obtain ⟨i, hi, hrole⟩ := Option.map_eq_some_iff.1 hf
  exact Option.map_eq_some_iff.2 ⟨i, intentOf_submit_kept h hi, hrole⟩

/-- The new fills have the role of their order. -/
theorem roleOf_newFills (h : x.run.Sound) : ∀ f ∈ x.newFills env nowNs intent,
    (x.submit env nowNs intent).1.run.oms.roleOf f = some intent.role := by
  intro f hf
  unfold OrderManager.roleOf
  rw [clientOrderId_newFills f hf, intentOf_submit h, if_pos rfl]
  rfl

/-- The fills of the pair since `s₀`: those of its legs, and those of its hedges. -/
structure FillBook (opp : ArbOpportunity) (s₀ : ReplayState) (x : Execution)
    (alpha hedge : List Fill) : Prop where
  tracks : Tracks s₀ x (alpha ++ hedge)
  pos : ∀ f ∈ alpha ++ hedge, 0 < f.fillQty
  px : ∀ f ∈ alpha, f.fillPxPaise = opp.pxOf f.side
  alphaRole : ∀ f ∈ alpha, ∃ r, r ≠ .hedge ∧ x.run.oms.roleOf f = some r
  hedgeRole : ∀ f ∈ hedge, x.run.oms.roleOf f = some .hedge
  kept : ∀ k i, s₀.oms.intentOf k = some i → x.run.oms.intentOf k = some i

variable {opp : ArbOpportunity} {s₀ : ReplayState} {alpha hedge : List Fill}

theorem fillBook_start (h : s₀.Sound) : FillBook opp s₀ ⟨s₀, .fromOpportunity opp⟩ [] [] :=
  ⟨tracks_start h opp, by simp, by simp, by simp, by simp, fun _ _ hk => hk⟩

theorem FillBook.quiet (h : FillBook opp s₀ x alpha hedge) (hq : Quiet x x') :
    FillBook opp s₀ x' alpha hedge := by
  refine ⟨h.tracks.quiet hq, h.pos, h.px, ?_, ?_, ?_⟩ <;> rw [hq.oms]
  · exact h.alphaRole
  · exact h.hedgeRole
  · exact h.kept

/-- An alpha order at the price of the opportunity. -/
theorem FillBook.leg (h : FillBook opp s₀ x alpha []) (hc : Cleared x intent)
    (hat : AtQuote x.run.gateway intent) (hrole : intent.role ≠ .hedge)
    (hpx : intent.pricePaise = opp.pxOf intent.side) :
    FillBook opp s₀ (x.submit env nowNs intent).1 (alpha ++ x.newFills env nowNs intent) [] := by
  have hs := h.tracks.sound
  have hsubmitted := submit_submitted hs env nowNs intent
  have htracks := h.tracks.submit hc hsubmitted
  rw [List.append_nil] at htracks
  have hpos := h.pos
  rw [List.append_nil] at hpos
  refine ⟨by rw [List.append_nil]; exact htracks, ?_, ?_, ?_, by simp, ?_⟩
  · rw [List.append_nil]
    exact List.forall_mem_append.2 ⟨hpos, hsubmitted.own.pos⟩
  · refine List.forall_mem_append.2 ⟨h.px, fun f hf => ?_⟩
    rw [newFills_atQuote hs hat f hf, hsubmitted.own.side f hf]
    exact hpx
  · refine List.forall_mem_append.2 ⟨fun f hf => ?_, fun f hf => ?_⟩
    · obtain ⟨r, hr, hrole⟩ := h.alphaRole f hf
      exact ⟨r, hr, roleOf_submit_kept hs hrole⟩
    · exact ⟨intent.role, hrole, roleOf_newFills hs f hf⟩
  · exact fun k i hk => intentOf_submit_kept hs (h.kept k i hk)

/-- A hedge order. -/
theorem FillBook.hedged (h : FillBook opp s₀ x alpha hedge) (hc : Cleared x intent)
    (hrole : intent.role = .hedge) :
    FillBook opp s₀ (x.submit env nowNs intent).1 alpha
      (hedge ++ x.newFills env nowNs intent) := by
  have hs := h.tracks.sound
  have hsubmitted := submit_submitted hs env nowNs intent
  refine ⟨?_, ?_, h.px, ?_, ?_, ?_⟩
  · rw [← List.append_assoc]
    exact h.tracks.submit hc hsubmitted
  · rw [← List.append_assoc]
    exact List.forall_mem_append.2 ⟨h.pos, hsubmitted.own.pos⟩
  · intro f hf
    obtain ⟨r, hr, hrole⟩ := h.alphaRole f hf
    exact ⟨r, hr, roleOf_submit_kept hs hrole⟩
  · refine List.forall_mem_append.2 ⟨fun f hf => roleOf_submit_kept hs (h.hedgeRole f hf),
      fun f hf => ?_⟩
    rw [roleOf_newFills hs f hf, hrole]
  · exact fun k i hk => intentOf_submit_kept hs (h.kept k i hk)

/-! ### The legs -/

/-- A leg leaves the gateway as it is, or as the gateway's answer leaves it. -/
theorem gateway_sendOne (h : x.run.Sound) (nse bse : BestQuote) :
    (sendOne env nowNs nse bse x intent).run.gateway = x.run.gateway ∨
      ∃ order : Order, order.intent = intent ∧
        (sendOne env nowNs nse bse x intent).run.gateway = (x.run.gateway.send env order).2 := by
  rcases sendOne_cases env nowNs nse bse x intent with ⟨-, heq⟩ | ⟨-, heq⟩
  · rw [heq]
    exact Or.inl rfl
  · rw [heq, failLeg_run]
    have hchecked : (x.checkLeg nowNs (quoteFor nse bse intent.venue) intent).2.run.Sound :=
      ⟨h.books, h.known, h.taken⟩
    exact Or.inr ⟨_, rfl, gateway_submit hchecked env nowNs intent⟩

/-- A leg adds its fills to those of the legs. -/
theorem FillBook.sendOne (h : FillBook opp s₀ x alpha []) (nse bse : BestQuote)
    (hside : intent.side ≠ .unknown)
    (hown : intent.parentArbId = x.pair.parentId ∧ intent.instrumentId = x.pair.instrumentId)
    (hat : AtQuote x.run.gateway intent) (hrole : intent.role ≠ .hedge)
    (hpx : intent.pricePaise = opp.pxOf intent.side) :
    ∃ alpha', FillBook opp s₀ (sendOne env nowNs nse bse x intent) alpha' [] := by
  have hchecked := h.quiet (@quiet_checkLeg nowNs _ intent (quoteFor nse bse intent.venue))
  rcases sendOne_cases env nowNs nse bse x intent with ⟨-, heq⟩ | ⟨happ, heq⟩
  · rw [heq]
    exact ⟨alpha, hchecked.quiet (quiet_blockLeg (verdictRule_checkLeg _))⟩
  · rw [heq]
    have hclear : Cleared (x.checkLeg nowNs (quoteFor nse bse intent.venue) intent).2 intent :=
      cleared_of_approved x.run.risk happ RiskEngine.cfg_checkOrder hside hown
    exact ⟨_, (hchecked.leg hclear hat hrole hpx).quiet (quiet_failLeg _)⟩

end Execution

namespace ReplayState

variable {env : Env} {cfg : SimConfig} {nowNs : ℕ} {s : ReplayState} {opp : ArbOpportunity}

theorem legs_px (cfg : SimConfig) (opp : ArbOpportunity) :
    ∀ leg, leg = (cfg.legs opp).1 ∨ leg = (cfg.legs opp).2 →
      leg.role ≠ .hedge ∧ leg.pricePaise = opp.pxOf leg.side := by
  intro leg hleg
  unfold SimConfig.legs at hleg
  split_ifs at hleg <;> rcases hleg with rfl | rfl <;> exact ⟨nofun, rfl⟩

/-- **The fills of the legs** are all at the prices of the opportunity. -/
theorem sendLegs_fillBook (h : Started cfg nowNs s opp) : ∃ alpha, FillBook opp s
    (s.sendLegs env nowNs opp (cfg.legs opp).1 (cfg.legs opp).2) alpha [] := by
  obtain ⟨hat₁, hat₂, hvenues⟩ := h.atQuote
  obtain ⟨hside₁, hown₁⟩ := legs_own cfg opp _ (Or.inl rfl)
  obtain ⟨hrole₁, hpx₁⟩ := legs_px cfg opp _ (Or.inl rfl)
  obtain ⟨hrole₂, hpx₂⟩ := legs_px cfg opp _ (Or.inr rfl)
  obtain ⟨alpha, hone⟩ := @FillBook.sendOne env nowNs _ _ opp s _ (fillBook_start h.sound)
    (s.quoteOr .nse opp.instrumentId nowNs) (s.quoteOr .bse opp.instrumentId nowNs) hside₁
    ⟨hown₁.1, hown₁.2.1⟩ hat₁ hrole₁ hpx₁
  have hgateway := @gateway_sendOne env nowNs ⟨s, .fromOpportunity opp⟩ (cfg.legs opp).1 h.sound
    (s.quoteOr .nse opp.instrumentId nowNs) (s.quoteOr .bse opp.instrumentId nowNs)
  have hat : AtQuote (Execution.sendOne env nowNs (s.quoteOr .nse opp.instrumentId nowNs)
      (s.quoteOr .bse opp.instrumentId nowNs) ⟨s, .fromOpportunity opp⟩
      (cfg.legs opp).1).run.gateway (cfg.legs opp).2 := by
    rcases hgateway with heq | ⟨order, hintent, heq⟩
    · rw [heq]
      exact hat₂
    · rw [heq]
      exact MatchingEngine.atQuote_send hat₂ env (by rw [hintent]; exact hvenues)
  exact hone.sendOne _ _ (legs_own cfg opp _ (Or.inr rfl)).1
    (secondLeg_own env cfg nowNs s opp _ _) hat hrole₂ hpx₂

end ReplayState

end Hft
