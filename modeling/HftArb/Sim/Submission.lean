import HftArb.Book.Run
import HftArb.Oms.FillSums
import HftArb.Oms.Reporting
import HftArb.Sim.Simulator

/-!
# What a submitted order does to the run

`send_spec` says what the simulated gateway reports: fills of positive quantity that do not exceed
the order.  With `OrderManager.submit_spec` this gives `Execution.submit_spec`: a submission
appends fills of the intent's parent, instrument and side to every ledger at once.
-/

namespace Hft

open Std (ExtTreeMap LawfulEqCmp)

/-! ### The books -/

namespace BookManager

variable {m : BookManager} {v : Venue} {i : ℕ} {b : OrderBook ℤ}

/-- Every book is well formed. -/
def Wf (m : BookManager) : Prop := ∀ (k : String) b, m.books[k]? = some b → b.Wf

theorem wf_empty : Wf {} := fun k b hb => by simp at hb

theorem Wf.book (h : m.Wf) (hb : m.book v i = some b) : b.Wf := h _ b hb

theorem Wf.setBook (h : m.Wf) (hb : b.Wf) : (m.setBook v i b).Wf := fun k b' hb' => by
  simp only [BookManager.setBook, ExtTreeMap.getElem?_insert] at hb'
  split_ifs at hb' with hk
  · cases hb'
    exact hb
  · exact h k b' hb'

theorem Wf.onEvent (h : m.Wf) (ev : BookEvent ℤ) : (m.onEvent ev).Wf := by
  refine h.setBook ?_
  have hold : ((m.book ev.venue ev.instrumentId).getD (.new ev.venue ev.instrumentId)).Wf := by
    cases hb : m.book ev.venue ev.instrumentId with
    | none => exact .new ev.venue ev.instrumentId
    | some b => exact h.book hb
  exact OrderBook.wf_exec hold (.apply ev)

end BookManager

/-! ### The gateway -/

/-- The fills a submission of `intent` may lead to: its own, positive, and not more than ordered. -/
structure OwnFills (intent : OrderIntent) (new : List Fill) : Prop where
  parent : ∀ f ∈ new, f.parentArbId = intent.parentArbId
  instrument : ∀ f ∈ new, f.instrumentId = intent.instrumentId
  side : ∀ f ∈ new, f.side = intent.side
  pos : ∀ f ∈ new, 0 < f.fillQty
  sum_le : (new.map Fill.fillQty).sum ≤ max 0 intent.qty

/-- The fills of an order of the hedge policy take the residual towards flat and not past it. -/
theorem OwnFills.toward {cfg : RiskConfig} {p : PairTrade} {v : Venue} {q : BestQuote}
    {new : List Fill} (h : OwnFills (hedgeIntent cfg p v q) new)
    (hqty : 0 < (hedgeIntent cfg p v q).qty) :
    p.residual + (new.map Fill.signedQty).sum ∈ Set.uIcc 0 p.residual := by
  have hle := (hedgeIntent_qty_le cfg p v q).trans (min_le_left _ _)
  have hsum := h.sum_le
  rw [max_eq_right hqty.le] at hsum
  have hnonneg : 0 ≤ (new.map Fill.fillQty).sum := by
    refine List.sum_nonneg fun n hn => ?_
    obtain ⟨f, hf, rfl⟩ := List.mem_map.1 hn
    exact (h.pos f hf).le
  rw [Set.mem_uIcc, sum_signedQty_of_side h.side]
  by_cases hlong : 0 < p.residual
  · have hside : (hedgeIntent cfg p v q).side = .sell := if_pos hlong
    rw [abs_of_pos hlong] at hle
    rw [hside, Side.sign]
    exact Or.inl ⟨by omega, by omega⟩
  · have hside : (hedgeIntent cfg p v q).side = .buy := if_neg hlong
    rw [abs_of_nonpos (not_lt.1 hlong)] at hle
    rw [hside, Side.sign]
    exact Or.inr ⟨by omega, by omega⟩

namespace MatchingEngine

open OrderManager

variable {env : Env} {g : MatchingEngine} {intent : OrderIntent} {id : String} {nowNs : ℕ}

/-- The fills that a match reports. -/
def fillReports (order : Order) (ts : ℕ) (levelFills : List (LevelFill ℤ)) :
    List ExecutionReport :=
  levelFills.map fun lf => makeReport order ts .fill lf.pricePaise lf.qty ""

theorem type_fillReports {order : Order} {ts : ℕ} {levelFills : List (LevelFill ℤ)} :
    ∀ r ∈ fillReports order ts levelFills, r.type = .fill := List.forall_mem_map.2 fun _ _ => rfl

/-- The rest of what a match reports are acks and an expiry. -/
theorem filter_fill_matchReports (delayedAck : Bool) (order : Order) (ts : ℕ)
    (levelFills : List (LevelFill ℤ)) :
    ((matchReports delayedAck order ts levelFills).filter fun r => r.type = .fill) =
      fillReports order ts levelFills := by
  have hfills : (fillReports order ts levelFills).filter (fun r => r.type = .fill) =
      fillReports order ts levelFills := by
    rw [List.filter_eq_self]
    exact fun r hr => decide_eq_true (type_fillReports r hr)
  unfold fillReports at hfills ⊢
  simp only [matchReports, List.filter_append, hfills]
  cases delayedAck <;> split_ifs <;> simp [makeReport]

/-- The fills among the reports of a match are its level fills. -/
theorem fillsOf_matchReports (delayedAck : Bool) (order : Order) (ts : ℕ)
    (levelFills : List (LevelFill ℤ)) :
    fillsOf intent id (matchReports delayedAck order ts levelFills) =
      levelFills.map fun lf =>
        (newOrder intent id 0).fillOf (makeReport order ts .fill lf.pricePaise lf.qty "") := by
  rw [fillsOf, filter_fill_matchReports, fillReports, List.map_map]
  rfl

theorem clientOrderId_matchReports (delayedAck : Bool) (order : Order) (ts : ℕ)
    (levelFills : List (LevelFill ℤ)) :
    ∀ r ∈ matchReports delayedAck order ts levelFills, r.clientOrderId = order.clientOrderId := by
  simp only [matchReports, List.forall_mem_append, List.forall_mem_map]
  refine ⟨⟨⟨?_, fun _ _ => rfl⟩, ?_⟩, ?_⟩
  · cases delayedAck <;> simp [makeReport]
  · cases delayedAck <;> simp [makeReport]
  · split_ifs <;> simp [makeReport]

theorem capFillQty_le (s : ScenarioConfig) (role : OrderRole) (requested : ℤ) :
    s.capFillQty role requested ≤ requested := by
  unfold ScenarioConfig.capFillQty
  split
  · exact le_rfl
  · exact min_le_left _ _

/-- What `send` reports on a new order. -/
structure Sent (intent : OrderIntent) (id : String) (res : List ExecutionReport × MatchingEngine) :
    Prop where
  ids : ∀ r ∈ res.1, r.clientOrderId = id
  books : res.2.books.Wf
  fills : OwnFills intent (fillsOf intent id res.1)

/-- A rejection reports no fill. -/
theorem sent_reject (h : g.books.Wf) (intent : OrderIntent) (id : String) (nowNs ts : ℕ) (px : ℤ)
    (reason : String) :
    Sent intent id ([makeReport (newOrder intent id nowNs) ts .reject px 0 reason], g) where
  ids r hr := by
    rw [List.mem_singleton.1 hr]
    rfl
  books := h
  fills := by
    have hnone : fillsOf intent id
        [makeReport (newOrder intent id nowNs) ts .reject px 0 reason] = [] := rfl
    rw [hnone]
    exact ⟨by simp, by simp, by simp, by simp, by simp⟩

/-- A gateway that neither disconnects nor rejects matches every order it has a book for. -/
theorem send_matched {b : OrderBook ℤ} {order : Order}
    (hdisc : g.scenario.disconnected order.intent.venue = false)
    (hrole : order.intent.role ∉ g.scenario.rejectRolesOnce)
    (hbook : g.books.book order.intent.venue order.intent.instrumentId = some b) (env : Env) :
    ∃ ts, g.send env order =
      (matchReports g.scenario.delayedAck order ts
          (b.matchIoc (env.walk g.sends) order.intent.side order.intent.pricePaise
            (g.scenario.capFillQty order.intent.role order.intent.qty)).2,
        ⟨g.books.setBook order.intent.venue order.intent.instrumentId
          (b.matchIoc (env.walk g.sends) order.intent.side order.intent.pricePaise
            (g.scenario.capFillQty order.intent.role order.intent.qty)).1, g.scenario,
          g.sends + 1⟩) := by
  have hrej : g.scenario.shouldReject order.intent.role = (false, g.scenario) := if_neg hrole
  unfold send
  simp only [hdisc, hrej, hbook, Bool.false_eq_true, if_false]
  exact ⟨_, rfl⟩

/-- Why `send` rejects an order: the reason that it reports, and the scenario from then on. -/
inductive Refusal (g : MatchingEngine) (order : Order) : String → ScenarioConfig → Prop
  | disconnected (hdisc : g.scenario.disconnected order.intent.venue = true) :
      Refusal g order "GATEWAY_DISCONNECT" g.scenario
  | scenario (hdisc : g.scenario.disconnected order.intent.venue = false)
      (hrole : order.intent.role ∈ g.scenario.rejectRolesOnce) :
      Refusal g order "SCENARIO_REJECT" { g.scenario with
        rejectRolesOnce := g.scenario.rejectRolesOnce.erase order.intent.role }
  | noBook (hbook : g.books.book order.intent.venue order.intent.instrumentId = none) :
      Refusal g order "NO_BOOK" g.scenario

/-- What `send` does with an order: it rejects it, or matches it at the book of its venue. -/
inductive Sending (env : Env) (g : MatchingEngine) (order : Order) :
    List ExecutionReport × MatchingEngine → Prop
  | reject (ts : ℕ) {reason : String} {scenario : ScenarioConfig}
      (hrefusal : Refusal g order reason scenario) :
      Sending env g order ([makeReport order ts .reject order.intent.pricePaise 0 reason],
        ⟨g.books, scenario, g.sends + 1⟩)
  | matched {b : OrderBook ℤ} (ts : ℕ)
      (hdisc : g.scenario.disconnected order.intent.venue = false)
      (hrole : order.intent.role ∉ g.scenario.rejectRolesOnce)
      (hbook : g.books.book order.intent.venue order.intent.instrumentId = some b) :
      Sending env g order
        (matchReports g.scenario.delayedAck order ts
            (b.matchIoc (env.walk g.sends) order.intent.side order.intent.pricePaise
              (g.scenario.capFillQty order.intent.role order.intent.qty)).2,
          ⟨g.books.setBook order.intent.venue order.intent.instrumentId
            (b.matchIoc (env.walk g.sends) order.intent.side order.intent.pricePaise
              (g.scenario.capFillQty order.intent.role order.intent.qty)).1, g.scenario,
            g.sends + 1⟩)

theorem send_sending (env : Env) (g : MatchingEngine) (order : Order) :
    Sending env g order (g.send env order) := by
  by_cases hdisc : g.scenario.disconnected order.intent.venue = true
  · have hsend : ∃ ts, g.send env order =
        ([makeReport order ts .reject order.intent.pricePaise 0 "GATEWAY_DISCONNECT"],
          ⟨g.books, g.scenario, g.sends + 1⟩) := ⟨_, if_pos hdisc⟩
    obtain ⟨ts, heq⟩ := hsend
    rw [heq]
    exact .reject ts (.disconnected hdisc)
  rw [Bool.not_eq_true] at hdisc
  by_cases hrole : order.intent.role ∈ g.scenario.rejectRolesOnce
  · have hrej : g.scenario.shouldReject order.intent.role = (true, { g.scenario with
        rejectRolesOnce := g.scenario.rejectRolesOnce.erase order.intent.role }) := if_pos hrole
    unfold send
    simp only [hdisc, hrej, Bool.false_eq_true, if_false, if_true]
    exact .reject _ (.scenario hdisc hrole)
  cases hbook : g.books.book order.intent.venue order.intent.instrumentId with
  | none =>
    have hrej : g.scenario.shouldReject order.intent.role = (false, g.scenario) := if_neg hrole
    unfold send
    simp only [hdisc, hrej, hbook, Bool.false_eq_true, if_false]
    exact .reject _ (.noBook hbook)
  | some b =>
    obtain ⟨ts, heq⟩ := send_matched hdisc hrole hbook env
    rw [heq]
    exact .matched ts hdisc hrole hbook

theorem send_spec (h : g.books.Wf) (env : Env) (intent : OrderIntent) (id : String) (nowNs : ℕ) :
    Sent intent id (g.send env (newOrder intent id nowNs)) := by
  have hsending := send_sending env g (newOrder intent id nowNs)
  generalize g.send env (newOrder intent id nowNs) = res at hsending ⊢
  cases hsending with
  | @reject ts reason scenario hrefusal =>
    exact sent_reject (g := ⟨g.books, scenario, g.sends + 1⟩) h intent id nowNs ts _ reason
  | @matched b ts hdisc hrole hbook =>
    have hm := matchIoc_spec (h.book hbook) (env.walk g.sends) intent.side intent.pricePaise
      (g.scenario.capFillQty intent.role intent.qty)
    have hcap := capFillQty_le g.scenario intent.role intent.qty
    refine ⟨clientOrderId_matchReports _ _ _ _, h.setBook hm.keeps.wf, ?_⟩
    dsimp only
    rw [fillsOf_matchReports]
    refine ⟨?_, ?_, ?_, ?_, ?_⟩
    · exact List.forall_mem_map.2 fun _ _ => rfl
    · exact List.forall_mem_map.2 fun _ _ => rfl
    · exact List.forall_mem_map.2 fun _ _ => rfl
    · exact List.forall_mem_map.2 fun lf hlf => (hm.fills lf hlf).1
    · rw [List.map_map]
      exact hm.sum_le.trans (max_le_max le_rfl hcap)

end MatchingEngine

/-! ### Submission within an execution -/

namespace ReplayState

/-- Between two orders the books are well formed, the order ids are known to the generator and every
fill has been taken. -/
structure Sound (s : ReplayState) : Prop where
  books : s.gateway.books.Wf
  known : s.oms.KnownIds
  taken : s.oms.consumedFills = s.oms.fills.length

end ReplayState

namespace Execution

/-- A submission of `intent` that led to the fills `new`. -/
structure Submitted (x : Execution) (intent : OrderIntent) (new : List Fill) (x' : Execution) :
    Prop where
  own : OwnFills intent new
  sound : x'.run.Sound
  fills : x'.run.oms.fills = x.run.oms.fills ++ new
  positions : x'.run.oms.positions = new.foldl PositionBook.apply x.run.oms.positions
  trail : ∃ t, x'.run.oms.trail = x.run.oms.trail ++ t ∧
    ∀ pb ∈ t, ∃ pre, pre <+: new ∧ pb = pre.foldl PositionBook.apply x.run.oms.positions
  logs : x'.run.logs.fills = x.run.logs.fills ++ new.map Fill.row ∧
    x'.run.logs.pairs = x.run.logs.pairs
  rest : x'.run.md = x.run.md ∧ x'.run.risk = x.run.risk ∧ x'.run.ids = x.run.ids
  trace : x'.run.trace = x.run.trace ++ [.sent intent]
  pair : x'.pair = new.foldl PairTrade.takeFill x.pair

/-- The fills that the gateway reports on an order of `intent`. -/
def newFills (env : Env) (nowNs : ℕ) (x : Execution) (intent : OrderIntent) : List Fill :=
  OrderManager.fillsOf intent (x.run.oms.nextId intent)
    (x.run.gateway.send env (OrderManager.newOrder intent (x.run.oms.nextId intent) nowNs)).1

theorem submit_submitted {x : Execution} (h : x.run.Sound) (env : Env) (nowNs : ℕ)
    (intent : OrderIntent) :
    Submitted x intent (x.newFills env nowNs intent) (x.submit env nowNs intent).1 := by
  have hsent := MatchingEngine.send_spec h.books env intent (x.run.oms.nextId intent) nowNs
  obtain ⟨hrep, hknown, hgateway, -⟩ := OrderManager.submit_spec h.known intent
    (MatchingEngine.send env) x.run.gateway nowNs hsent.ids
  have hfills := hrep.fills
  have hconsumed := hrep.consumed
  simp only [OrderManager.opened] at hfills hconsumed
  have hnew : (x.run.oms.submit intent (MatchingEngine.send env) x.run.gateway
      nowNs).1.takeNewFills.1 = x.newFills env nowNs intent := by
    rw [OrderManager.takeNewFills, hfills, hconsumed, h.taken, List.drop_left]
    rfl
  refine ⟨hsent.fills, ⟨?_, hknown, rfl⟩, hfills, hrep.positions, hrep.trail, ⟨?_, rfl⟩,
    ⟨rfl, rfl, rfl⟩, rfl, ?_⟩
  · simp only [submit, ReplayState.observe, hgateway]
    exact hsent.books
  · simp only [submit, ReplayState.observe, hnew]
  · simp only [submit, hnew]

theorem submit_spec {x : Execution} (h : x.run.Sound) (env : Env) (nowNs : ℕ)
    (intent : OrderIntent) : ∃ new, Submitted x intent new (x.submit env nowNs intent).1 :=
  ⟨_, submit_submitted h env nowNs intent⟩

theorem gateway_submit {x : Execution} (h : x.run.Sound) (env : Env) (nowNs : ℕ)
    (intent : OrderIntent) : (x.submit env nowNs intent).1.run.gateway = (x.run.gateway.send env
      (OrderManager.newOrder intent (x.run.oms.nextId intent) nowNs)).2 := by
  show (x.run.oms.submit intent (MatchingEngine.send env) x.run.gateway nowNs).2.1 = _
  rw [OrderManager.submit_eq h.known]

theorem intentOf_submit {x : Execution} (h : x.run.Sound) (env : Env) (nowNs : ℕ)
    (intent : OrderIntent) (k : String) :
    (x.submit env nowNs intent).1.run.oms.intentOf k =
      if k = x.run.oms.nextId intent then some intent else x.run.oms.intentOf k :=
  OrderManager.intentOf_submit h.known intent (MatchingEngine.send env) x.run.gateway nowNs k

end Execution

end Hft
