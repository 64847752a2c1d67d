import HftArb.Oms.ReportOrder
import HftArb.Sim.TwoRuns

/-!
# Late acks

A gateway with `delayed_ack` sends the `Ack` of an order after its fills instead of before them.
Two desks that meet the same market and submit the same orders, one through such a gateway and one
through a prompt one, hold the same fills and positions and, ack times apart, the same orders
(`late_ack_consistency`).
-/

namespace Hft

/-- What a desk meets: a market event, or an order to submit. -/
inductive DeskInput
  | event (ev : BookEvent ℤ)
  | submit (intent : OrderIntent) (nowNs : ℕ)

/-- An order manager and the gateway it submits to. -/
structure Desk where
  oms : OrderManager := {}
  gateway : MatchingEngine := {}

namespace Desk

/-- The desk after one input. -/
def take (env : Env) (d : Desk) : DeskInput → Desk
  | .event ev => { d with gateway := { d.gateway with books := d.gateway.books.onEvent ev } }
  | .submit intent nowNs =>
      let r := d.oms.submit intent (MatchingEngine.send env) d.gateway nowNs
      ⟨r.1, r.2.1⟩

end Desk

namespace MatchingEngine

open OrderManager

/-- The gateway with `delayed_ack` set. -/
def withDelayedAck (delayedAck : Bool) (g : MatchingEngine) : MatchingEngine :=
  { g with scenario := { g.scenario with delayedAck := delayedAck } }

variable {order order' : Order}

/-- The gateway does not look at the ack time of an order. -/
theorem send_congr (h : order.withoutAck = order'.withoutAck) (env : Env) (g : MatchingEngine) :
    g.send env order' = g.send env order := by
  change g.send env order'.withoutAck = g.send env order.withoutAck
  rw [h]

/-- A scenario refuses an order whether or not it delays acks. -/
theorem shouldReject_delayedAck (s : ScenarioConfig) (delayedAck : Bool) (role : OrderRole) :
    ({ s with delayedAck := delayedAck } : ScenarioConfig).shouldReject role =
      ((s.shouldReject role).1, { (s.shouldReject role).2 with delayedAck := delayedAck }) := by
  unfold ScenarioConfig.shouldReject
  dsimp only
  split_ifs <;> rfl

/-- A gateway refuses an order, or matches it, whether or not it delays acks. -/
theorem respond_withDelayedAck (ts : ℕ) (walk : WalkOrder ℤ) (g : MatchingEngine) (order : Order) :
    ∃ g₁ : MatchingEngine,
      (∃ reports, ∀ delayedAck, (g.withDelayedAck delayedAck).respond ts walk order =
        (reports, g₁.withDelayedAck delayedAck)) ∨
      ∃ levelFills, ∀ delayedAck, (g.withDelayedAck delayedAck).respond ts walk order =
        (matchReports delayedAck order ts levelFills, g₁.withDelayedAck delayedAck) := by
  -- the branches of `send`, none of which asks whether acks are late
  by_cases hdisc : g.scenario.disconnected order.intent.venue
  · exact ⟨{ g with sends := g.sends + 1 }, Or.inl ⟨[_], fun _ => if_pos hdisc⟩⟩
  cases hrejected : (g.scenario.shouldReject order.intent.role).1 with
  | true =>
    refine ⟨{ g with
      scenario := (g.scenario.shouldReject order.intent.role).2
      sends := g.sends + 1 }, Or.inl ⟨[makeReport order ts .reject order.intent.pricePaise 0
        "SCENARIO_REJECT"], fun delayedAck => ?_⟩⟩
    unfold respond withDelayedAck
    dsimp only
    rw [shouldReject_delayedAck, hrejected]
    exact if_neg hdisc
  | false =>
    cases hbook : g.books.book order.intent.venue order.intent.instrumentId with
    | none =>
      refine ⟨{ g with
        scenario := (g.scenario.shouldReject order.intent.role).2
        sends := g.sends + 1 }, Or.inl ⟨[makeReport order ts .reject order.intent.pricePaise 0
          "NO_BOOK"], fun delayedAck => ?_⟩⟩
      unfold respond withDelayedAck
      dsimp only
      rw [shouldReject_delayedAck, hrejected, hbook]
      exact if_neg hdisc
    | some b =>
      let matched := b.matchIoc walk order.intent.side order.intent.pricePaise
        ((g.scenario.shouldReject order.intent.role).2.capFillQty order.intent.role
          order.intent.qty)
      refine ⟨
        { books := g.books.setBook order.intent.venue order.intent.instrumentId matched.1
          scenario := (g.scenario.shouldReject order.intent.role).2
          sends := g.sends + 1 }, Or.inr ⟨matched.2, fun delayedAck => ?_⟩⟩
      unfold respond withDelayedAck
      dsimp only
      rw [shouldReject_delayedAck, hrejected, hbook]
      exact if_neg hdisc

/-- A late ack changes nothing in the reports but its place. -/
theorem sameButAcks_matchReports (order : Order) (parent : String) (ts : ℕ)
    (levelFills : List (LevelFill ℤ)) : SameButAcks
      ((matchReports true order ts levelFills).map fun r => r.completed order.clientOrderId parent)
      ((matchReports false order ts levelFills).map fun r =>
        r.completed order.clientOrderId parent) := by
  unfold matchReports
  simp only [if_true, Bool.false_eq_true, if_false, List.nil_append, List.append_nil,
    List.map_append, List.map_singleton]
  refine SameButAcks.move ?_ ?_ ?_ _ _ <;> rfl

/-- **The gateways go on alike**, whether or not they delay acks. -/
theorem send_withDelayedAck (env : Env) (g : MatchingEngine)
    (h : order.withoutAck = order'.withoutAck) (parent : String) :
    SameButAcks
      (((g.withDelayedAck true).send env order).1.map fun r =>
        r.completed order.clientOrderId parent)
      (((g.withDelayedAck false).send env order').1.map fun r =>
        r.completed order'.clientOrderId parent) ∧
    ∃ g₁ : MatchingEngine, ((g.withDelayedAck true).send env order).2 = g₁.withDelayedAck true ∧
      ((g.withDelayedAck false).send env order').2 = g₁.withDelayedAck false := by
  rw [send_congr h, ← Order.clientOrderId_congr h]
  obtain ⟨g₁, ⟨reports, hreports⟩ | ⟨levelFills, hmatched⟩⟩ := respond_withDelayedAck
    (stampAt env g.scenario.extraLatencyUs g.sends) (env.walk g.sends) g order
  · have hlate : (g.withDelayedAck true).send env order = (reports, g₁.withDelayedAck true) :=
      hreports true
    have hprompt : (g.withDelayedAck false).send env order = (reports, g₁.withDelayedAck false) :=
      hreports false
    rw [hlate, hprompt]
    exact ⟨SameButAcks.refl _, g₁, rfl, rfl⟩
  · have hlate : (g.withDelayedAck true).send env order =
        (matchReports true order _ levelFills, g₁.withDelayedAck true) := hmatched true
    have hprompt : (g.withDelayedAck false).send env order =
        (matchReports false order _ levelFills, g₁.withDelayedAck false) := hmatched false
    rw [hlate, hprompt]
    exact ⟨sameButAcks_matchReports order parent _ levelFills, g₁, rfl, rfl⟩

end MatchingEngine

namespace Desk

open OrderManager MatchingEngine

/-- One desk submits through a gateway that delays acks, the other through one that does not. -/
structure AlikeDesks (d d' : Desk) : Prop where
  oms : LateAck d.oms d'.oms
  gateway : ∃ g : MatchingEngine,
    d.gateway = g.withDelayedAck true ∧ d'.gateway = g.withDelayedAck false

theorem AlikeDesks.take {d d' : Desk} (h : AlikeDesks d d') (env : Env) (input : DeskInput) :
    AlikeDesks (d.take env input) (d'.take env input) := by
  obtain ⟨oms, gateway⟩ := d
  obtain ⟨oms', gateway'⟩ := d'
  obtain ⟨homs, g, hlate, hprompt⟩ := h
  dsimp only at homs hlate hprompt
  subst hlate hprompt
  cases input with
  | event ev => exact ⟨homs, { g with books := g.books.onEvent ev }, rfl, rfl⟩
  | submit intent nowNs =>
    obtain ⟨hsubmit, hgateway⟩ := homs.submit intent (MatchingEngine.send env)
      (R := fun g₁ g₁' => ∃ g : MatchingEngine,
        g₁ = g.withDelayedAck true ∧ g₁' = g.withDelayedAck false) nowNs
      fun o o' parent ho => send_withDelayedAck env g ho parent
    exact ⟨hsubmit, hgateway⟩

/-- **Late-ack consistency.**  For every order the reports other than acks count, in their order, and
the number of acks; the ack times apart, nothing depends on how the reports are shuffled beyond that.
In particular it makes no difference to a run of the gateway whether it delays acks. -/
theorem late_ack_consistency :
    (∀ (m : OrderManager) (rs rs' : List ExecutionReport), SameReports rs rs' →
      SameOutcome (rs.foldl onReport m) (rs'.foldl onReport m)) ∧
    ∀ (env : Env) (m : OrderManager) (g : MatchingEngine) (inputs : List DeskInput),
      LateAck (inputs.foldl (take env) ⟨m, g.withDelayedAck true⟩).oms
        (inputs.foldl (take env) ⟨m, g.withDelayedAck false⟩).oms := by
  refine ⟨fun m rs rs' h => h.outcome m, fun env m g inputs => ?_⟩
  have hstart : AlikeDesks ⟨m, g.withDelayedAck true⟩ ⟨m, g.withDelayedAck false⟩ :=
    ⟨⟨fun _ => rfl, rfl, rfl, rfl⟩, g, rfl, rfl⟩
  exact (List.foldl_rel hstart fun input _ d d' h => h.take env input).oms

/-- A report on one of two orders to buy the same instrument. -/
def reportOn (id : String) (type : ExecType) (qty : ℤ) (ts : ℕ) : ExecutionReport where
  type := type
  clientOrderId := id
  parentArbId := "P"
  instrumentId := 1
  venue := .nse
  side := .buy
  pricePaise := 100
  qty := qty
  tsNs := ts
  reason := ""

/-- A manager that has sent two orders. -/
def twoSent : OrderManager where
  orders := .ofList [("A", newOrder { instrumentId := 1, side := .buy, qty := 10 } "A" 0),
    ("B", newOrder { instrumentId := 1, side := .buy, qty := 5 } "B" 0)]

/-- A partial fill and the expiry of one order, the fill of another, and their acks. -/
theorem late_ack_consistency_shuffled :
    SameOutcome
      ([reportOn "A" .ack 0 1, reportOn "A" .fill 3 2, reportOn "B" .fill 5 3, reportOn "B" .ack 0 4,
        reportOn "A" .expire 7 5].foldl onReport twoSent)
      ([reportOn "B" .ack 0 4, reportOn "B" .fill 5 3, reportOn "A" .fill 3 2,
        reportOn "A" .expire 7 5, reportOn "A" .ack 0 1].foldl onReport twoSent) := by
  refine late_ack_consistency.1 _ _ _ ⟨fun id => ?_, fun id => ?_⟩
  · by_cases hA : "A" = id
    · subst hA
      decide
    · by_cases hB : "B" = id
      · subst hB
        decide
      · simp [reportOn, hA, hB]
  · by_cases hA : "A" = id
    · subst hA
      decide
    · by_cases hB : "B" = id
      · subst hB
        decide
      · simp [reportOn, hA, hB]

end Desk

end Hft
