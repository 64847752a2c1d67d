import HftArb.Sim.Replay

/-!
# Two runs side by side

The time stamps of the gateway, read from the clock, go into reports, orders, fills and pairs.  A
function `e` says how much of a stamp is kept; whatever `run_replay` computes commutes with `e`
(`Order.stamped_report`, `OrderManager.stamped_onReport`, ...), since nothing branches on a stamp.

Two runs are `Alike` when they differ in nothing but stamps (up to `e`), the latency of the scenario
and what their handlers know besides the health of the feeds.  `Alike.onItem` shows that a turn of
`run_replay` keeps two runs alike, if their clocks read alike and the hash maps are walked in the same
order (`SameReadings`).
-/

namespace Hft

open Transition
open Std (ExtTreeMap)

/-! ### Stamps -/

section Stamps

variable (e : ℕ → ℕ)

/-- A report, with what `e` keeps of its stamp. -/
def ExecutionReport.stamped (r : ExecutionReport) : ExecutionReport := { r with tsNs := e r.tsNs }

/-- An order, with what `e` keeps of the gateway's stamps. -/
def Order.stamped (o : Order) : Order :=
  { o with tsAckNs := e o.tsAckNs, tsDoneNs := e o.tsDoneNs }

/-- A fill, with what `e` keeps of its stamp. -/
def Fill.stamped (f : Fill) : Fill := { f with tsFillNs := e f.tsFillNs }

/-- A row of `fills.csv`, with what `e` keeps of its stamp. -/
def FillRow.stamped (f : FillRow) : FillRow := { f with tsFillNs := e f.tsFillNs }

/-- A pair, with what `e` keeps of the stamp copied from its last fill or failed leg. -/
def PairTrade.stamped (p : PairTrade) : PairTrade :=
  { p with tsLastUpdateNs := e p.tsLastUpdateNs }

/-- A point of the hedge loop, with what `e` keeps of the pair's stamp. -/
def HedgePoint.stamped (h : HedgePoint) : HedgePoint := { h with pair := h.pair.stamped e }

/-- An observation, with what `e` keeps of stamps. -/
def Observation.stamped : Observation → Observation
  | .leg intent decision => .leg intent decision
  | .sent intent => .sent intent
  | .hedging h => .hedging (h.stamped e)
  | .hedged pair kill => .hedged (pair.stamped e) kill
  | .executed first second pair => .executed first second (pair.stamped e)

/-- The logs, with what `e` keeps of stamps. -/
def Logs.stamped (l : Logs) : Logs :=
  { l with
    orders := l.orders.map (Order.stamped e)
    fills := l.fills.map (FillRow.stamped e)
    pairs := l.pairs.map (PairTrade.stamped e) }

/-- The order manager, with what `e` keeps of stamps. -/
def OrderManager.stamped (m : OrderManager) : OrderManager :=
  { m with
    orders := m.orders.map fun _ o => o.stamped e
    fills := m.fills.map (Fill.stamped e) }

variable {e}

theorem Order.stamped_report (o : Order) (r : ExecutionReport) :
    (o.report r).stamped e = (o.stamped e).report (r.stamped e) := by
  obtain ⟨type, clientOrderId, parentArbId, instrumentId, venue, side, px, qty, ts, reason⟩ := r
  unfold Order.report
  cases type with
  | ack =>
    show (if o.state = .sent then _ else _ : Order).stamped e = if o.state = .sent then _ else _
    split_ifs <;> rfl
  | fill =>
    show (if o.filledQty + qty ≥ o.intent.qty then _ else _ : Order).stamped e =
      if o.filledQty + qty ≥ o.intent.qty then _ else _
    split_ifs <;> rfl
  | reject => rfl
  | expire => rfl
  | cancel => rfl

theorem PairTrade.stamped_takeFill (p : PairTrade) (f : Fill) :
    (p.takeFill f).stamped e = (p.stamped e).takeFill (f.stamped e) := by
  unfold PairTrade.takeFill
  show (if f.parentArbId = p.parentId then p.applyFill f else p).stamped e =
    if f.parentArbId = p.parentId then (p.stamped e).applyFill (f.stamped e) else p.stamped e
  split_ifs
  · obtain ⟨_, _, _, _, side⟩ := f
    cases side <;> rfl
  · rfl

theorem PairTrade.stamped_foldl (fills : List Fill) (p : PairTrade) :
    (fills.foldl PairTrade.takeFill p).stamped e =
      (fills.map (Fill.stamped e)).foldl PairTrade.takeFill (p.stamped e) := by
  induction fills generalizing p with
  | nil => rfl
  | cons f fills ih => rw [List.foldl_cons, ih, PairTrade.stamped_takeFill, List.map_cons,
      List.foldl_cons]

/-- Orders alike up to `e` differ in nothing but the gateway's stamps. -/
theorem Order.stamped_eq {o o' : Order} (h : o'.stamped e = o.stamped e) :
    ∃ tsAck tsDone, o' = { o with tsAckNs := tsAck, tsDoneNs := tsDone } ∧
      e tsAck = e o.tsAckNs ∧ e tsDone = e o.tsDoneNs := by
  obtain ⟨_, _, _, _, _, _, tsAck, tsDone, _⟩ := o'
  cases o
  simp only [Order.stamped, Order.mk.injEq] at h ⊢
  obtain ⟨h1, h2, h3, h4, h5, h6, h7, h8, h9⟩ := h
  exact ⟨tsAck, tsDone, ⟨h1, h2, h3, h4, h5, h6, rfl, rfl, h9⟩, h7, h8⟩

/-- Pairs alike up to `e` differ in nothing but their stamp. -/
theorem PairTrade.stamped_eq {p p' : PairTrade} (h : p'.stamped e = p.stamped e) :
    ∃ t, p' = { p with tsLastUpdateNs := t } ∧ e t = e p.tsLastUpdateNs := by
  obtain ⟨_, _, _, _, _, _, _, _, _, _, _, t⟩ := p'
  cases p
  simp only [PairTrade.stamped, PairTrade.mk.injEq] at h ⊢
  obtain ⟨h1, h2, h3, h4, h5, h6, h7, h8, h9, h10, h11, h12, h13, h14⟩ := h
  exact ⟨t, ⟨h1, h2, h3, h4, h5, h6, h7, h8, h9, h10, h11, rfl, h13, h14⟩, h12⟩

theorem PairTrade.stamped_setState {p p' : PairTrade} (h : p'.stamped e = p.stamped e)
    (state : PairState) :
    PairTrade.stamped e { p' with state := state } = PairTrade.stamped e { p with state := state } := by
  show { p'.stamped e with state := state } = { p.stamped e with state := state }
  rw [h]

theorem Logs.stamped_risks {l l' : Logs} (h : l'.stamped e = l.stamped e)
    (f : List RiskEvent → List RiskEvent) :
    Logs.stamped e { l' with risks := f l'.risks } = Logs.stamped e { l with risks := f l.risks } := by
  have hrisks : (l'.stamped e).risks = (l.stamped e).risks := by rw [h]
  change l'.risks = l.risks at hrisks
  show { l'.stamped e with risks := f l'.risks } = { l.stamped e with risks := f l.risks }
  rw [h, hrisks]

theorem Logs.stamped_opportunity {l l' : Logs} (h : l'.stamped e = l.stamped e)
    (d : StrategyDecision) :
    Logs.stamped e { l' with opportunities := l'.opportunities ++ [d] } =
      Logs.stamped e { l with opportunities := l.opportunities ++ [d] } := by
  have hopps : (l'.stamped e).opportunities = (l.stamped e).opportunities := by rw [h]
  change l'.opportunities = l.opportunities at hopps
  show { l'.stamped e with opportunities := l'.opportunities ++ [d] } =
    { l.stamped e with opportunities := l.opportunities ++ [d] }
  rw [h, hopps]

theorem Logs.stamped_pair {l l' : Logs} (h : l'.stamped e = l.stamped e) {p p' : PairTrade}
    (hp : p'.stamped e = p.stamped e) :
    Logs.stamped e { l' with pairs := l'.pairs ++ [p'] } =
      Logs.stamped e { l with pairs := l.pairs ++ [p] } := by
  have hpairs : (l'.stamped e).pairs = (l.stamped e).pairs := by rw [h]
  change l'.pairs.map (PairTrade.stamped e) = l.pairs.map (PairTrade.stamped e) at hpairs
  show { l'.stamped e with pairs := (l'.pairs ++ [p']).map (PairTrade.stamped e) } =
    { l.stamped e with pairs := (l.pairs ++ [p]).map (PairTrade.stamped e) }
  rw [h, List.map_append, List.map_append, hpairs, List.map_singleton, List.map_singleton, hp]

theorem Logs.stamped_append {l l' : Logs} (h : l'.stamped e = l.stamped e) {o o' : Order}
    (ho : o'.stamped e = o.stamped e) {rows rows' : List FillRow}
    (hrows : rows'.map (FillRow.stamped e) = rows.map (FillRow.stamped e)) :
    Logs.stamped e { l' with orders := l'.orders ++ [o'], fills := l'.fills ++ rows' } =
      Logs.stamped e { l with orders := l.orders ++ [o], fills := l.fills ++ rows } := by
  have horders : (l'.stamped e).orders = (l.stamped e).orders := by rw [h]
  have hfills : (l'.stamped e).fills = (l.stamped e).fills := by rw [h]
  change l'.orders.map (Order.stamped e) = l.orders.map (Order.stamped e) at horders
  change l'.fills.map (FillRow.stamped e) = l.fills.map (FillRow.stamped e) at hfills
  show { l'.stamped e with
      orders := (l'.orders ++ [o']).map (Order.stamped e)
      fills := (l'.fills ++ rows').map (FillRow.stamped e) } =
    { l.stamped e with
      orders := (l.orders ++ [o]).map (Order.stamped e)
      fills := (l.fills ++ rows).map (FillRow.stamped e) }
  rw [h, List.map_append, List.map_append, List.map_append, List.map_append, horders, hfills, hrows,
    List.map_singleton, List.map_singleton, ho]

end Stamps

/-! ### The gateway -/

/-- A scenario without its latency. -/
def ScenarioConfig.timeless (s : ScenarioConfig) : ScenarioConfig := { s with extraLatencyUs := 0 }

/-- A configuration without the latency of its scenario. -/
def SimConfig.timeless (cfg : SimConfig) : SimConfig :=
  { cfg with scenario := cfg.scenario.timeless }

theorem ScenarioConfig.timeless_shouldReject (s : ScenarioConfig) (role : OrderRole) :
    s.timeless.shouldReject role = ((s.shouldReject role).1, (s.shouldReject role).2.timeless) := by
  unfold ScenarioConfig.shouldReject
  show (if role ∈ s.rejectRolesOnce then _ else _) = _
  split_ifs <;> rfl

namespace MatchingEngine

/-- The gateway without the latency of its scenario. -/
def timeless (g : MatchingEngine) : MatchingEngine := { g with scenario := g.scenario.timeless }

/-- The stamp of the reports on the `n`-th order. -/
def stampAt (env : Env) (latencyUs : ℤ) (n : ℕ) : ℕ :=
  (env.nowNs n + (latencyUs % 2 ^ 64).toNat * 1000) % 2 ^ 64

/-- `send`, given the stamp of its reports and the walk through the id index. -/
def respond (ts : ℕ) (walk : WalkOrder ℤ) (g : MatchingEngine) (order : Order) :
    List ExecutionReport × MatchingEngine :=
  let o := order.intent
  let g := { g with sends := g.sends + 1 }
  let reject := fun reason => [makeReport order ts .reject o.pricePaise 0 reason]
  if g.scenario.disconnected o.venue then (reject "GATEWAY_DISCONNECT", g)
  else
    let (rejected, scenario) := g.scenario.shouldReject o.role
    let g := { g with scenario := scenario }
    if rejected then (reject "SCENARIO_REJECT", g)
    else match g.books.book o.venue o.instrumentId with
      | none => (reject "NO_BOOK", g)
      | some b =>
          let (b, levelFills) :=
            b.matchIoc walk o.side o.pricePaise (g.scenario.capFillQty o.role o.qty)
          (matchReports g.scenario.delayedAck order ts levelFills,
            { g with books := g.books.setBook o.venue o.instrumentId b })

variable {e : ℕ → ℕ} {env env' : Env} {g g' : MatchingEngine} {order order' : Order}

theorem send_eq_respond (env : Env) (g : MatchingEngine) (order : Order) :
    g.send env order =
      g.respond (stampAt env g.scenario.extraLatencyUs g.sends) (env.walk g.sends) order := rfl

theorem stamped_matchReports (delayedAck : Bool) (order : Order) (ts : ℕ)
    (levelFills : List (LevelFill ℤ)) :
    (matchReports delayedAck order ts levelFills).map (ExecutionReport.stamped e) =
      matchReports delayedAck (order.stamped e) (e ts) levelFills := by
  have hfills : (levelFills.map fun lf =>
      makeReport order ts .fill lf.pricePaise lf.qty "").map (ExecutionReport.stamped e) =
        levelFills.map fun lf =>
          makeReport (order.stamped e) (e ts) .fill lf.pricePaise lf.qty "" := by
    rw [List.map_map]
    rfl
  unfold matchReports
  dsimp only
  rw [List.map_append, List.map_append, List.map_append, hfills]
  show _ ++ _ ++ _ ++ _ = _ ++ _ ++ _ ++ (if _ < order.intent.qty then _ else _)
  congr 1
  · congr 1
    · congr 1
      cases delayedAck <;> rfl
    · cases delayedAck <;> rfl
  · split_ifs <;> rfl

theorem stamped_respond (e : ℕ → ℕ) (ts : ℕ) (walk : WalkOrder ℤ) (g : MatchingEngine)
    (order : Order) : g.timeless.respond (e ts) walk (order.stamped e) =
      ((g.respond ts walk order).1.map (ExecutionReport.stamped e),
        (g.respond ts walk order).2.timeless) := by
  have hintent : (order.stamped e).intent = order.intent := rfl
  have hrej := g.scenario.timeless_shouldReject order.intent.role
  unfold respond
  simp only [timeless, hintent, hrej]
  show (if g.scenario.disconnected order.intent.venue = true then _ else _) = _
  split_ifs with hdisc hrejected
  · rfl
  · rfl
  · cases hbook : g.books.book order.intent.venue order.intent.instrumentId with
    | none => rfl
    | some b =>
      dsimp only
      rw [stamped_matchReports]
      rfl

/-- Two clocks, with the latencies added to what they read, read alike up to `e`, and the hash maps
are walked in the same order. -/
structure SameReadings (e : ℕ → ℕ) (env env' : Env) (latencyUs latencyUs' : ℤ) : Prop where
  walk : env'.walk = env.walk
  stamp : ∀ n, e (stampAt env' latencyUs' n) = e (stampAt env latencyUs n)

/-- **What the gateway does** does not depend on what its clock reads, stamps apart. -/
theorem stamped_send (h : SameReadings e env env' g.scenario.extraLatencyUs
    g'.scenario.extraLatencyUs) (hg : g'.timeless = g.timeless)
    (horder : order'.stamped e = order.stamped e) :
    (g'.send env' order').1.map (ExecutionReport.stamped e) =
        (g.send env order).1.map (ExecutionReport.stamped e) ∧
      (g'.send env' order').2.timeless = (g.send env order).2.timeless := by
  have hsends : g'.timeless.sends = g.timeless.sends := by rw [hg]
  change g'.sends = g.sends at hsends
  have hrespond := stamped_respond e (stampAt env' g'.scenario.extraLatencyUs g'.sends)
    (env'.walk g'.sends) g' order'
  rw [hg, horder, hsends, h.stamp, h.walk, stamped_respond, Prod.mk.injEq] at hrespond
  rw [send_eq_respond, send_eq_respond, hsends, h.walk]
  exact ⟨hrespond.1.symm, hrespond.2.symm⟩

theorem latency_send (env : Env) (g : MatchingEngine) (order : Order) :
    (g.send env order).2.scenario.extraLatencyUs = g.scenario.extraLatencyUs := by
  have hreject : ∀ role, (g.scenario.shouldReject role).2.extraLatencyUs =
      g.scenario.extraLatencyUs := by
    intro role
    unfold ScenarioConfig.shouldReject
    split_ifs <;> rfl
  unfold send
  dsimp only
  split_ifs
  · rfl
  · exact hreject _
  · split <;> exact hreject _

end MatchingEngine

/-! ### The order manager -/

namespace OrderManager

variable {e : ℕ → ℕ} {m m' : OrderManager}

theorem orders_stamped (m : OrderManager) (k : String) :
    (m.stamped e).orders[k]? = (m.orders[k]?).map (Order.stamped e) := by
  unfold stamped
  rw [ExtTreeMap.getElem?_map]

theorem stamped_insert (m : OrderManager) (ids : IdGenerator) (k : String) (o : Order) :
    ({ m with ids := ids, orders := m.orders.insert k o } : OrderManager).stamped e =
      { m.stamped e with ids := ids, orders := (m.stamped e).orders.insert k (o.stamped e) } := by
  have horders : (m.orders.insert k o).map (fun _ o => Order.stamped e o) =
      (m.orders.map fun _ o => Order.stamped e o).insert k (o.stamped e) := by
    refine ExtTreeMap.ext_getElem? fun k' => ?_
    rw [ExtTreeMap.getElem?_map, ExtTreeMap.getElem?_insert, ExtTreeMap.getElem?_insert,
      ExtTreeMap.getElem?_map]
    split_ifs <;> rfl
  unfold stamped
  rw [horders]

theorem stamped_onReport (m : OrderManager) (r : ExecutionReport) :
    (m.onReport r).stamped e = (m.stamped e).onReport (r.stamped e) := by
  have horder := orders_stamped (e := e) m r.clientOrderId
  have hid : (r.stamped e).clientOrderId = r.clientOrderId := rfl
  unfold onReport
  rw [hid, horder]
  cases ho : m.orders[r.clientOrderId]? with
  | none => rfl
  | some o =>
    have hinsert := stamped_insert (e := e) m m.ids r.clientOrderId (o.report r)
    rw [Order.stamped_report] at hinsert
    have horders := congrArg OrderManager.orders hinsert
    dsimp only [Option.map_some]
    show (if r.type = .fill then _ else _ : OrderManager).stamped e = if r.type = .fill then _ else _
    split_ifs
    · unfold stamped at horders ⊢
      dsimp only at horders ⊢
      rw [horders, List.map_append]
      rfl
    · exact hinsert

theorem stamped_reports (reports : List ExecutionReport) (id parent : String) (m : OrderManager) :
    (reports.foldl (fun m r => (m.onReport (r.completed id parent)).observed) m).stamped e =
      (reports.map (ExecutionReport.stamped e)).foldl
        (fun m r => (m.onReport (r.completed id parent)).observed) (m.stamped e) := by
  induction reports generalizing m with
  | nil => rfl
  | cons r reports ih =>
    have hstep : (m.onReport (r.completed id parent)).observed.stamped e =
        ((m.stamped e).onReport ((r.stamped e).completed id parent)).observed := by
      show ((m.onReport (r.completed id parent)).stamped e).observed = _
      rw [stamped_onReport]
      rfl
    rw [List.foldl_cons, ih, hstep, List.map_cons, List.foldl_cons]

/-- **A submission** keeps order managers alike, if their gateways report alike. -/
theorem stamped_submit {γ : Type} {R : γ → γ → Prop}
    {send send' : γ → Order → List ExecutionReport × γ} {gateway gateway' : γ}
    (hm : m'.stamped e = m.stamped e)
    (hsend : ∀ o o' : Order, o'.stamped e = o.stamped e →
      (send' gateway' o').1.map (ExecutionReport.stamped e) =
        (send gateway o).1.map (ExecutionReport.stamped e) ∧
      R (send gateway o).2 (send' gateway' o').2) (intent : OrderIntent) (nowNs : ℕ) :
    (m'.submit intent send' gateway' nowNs).1.stamped e =
        (m.submit intent send gateway nowNs).1.stamped e ∧
      R (m.submit intent send gateway nowNs).2.1 (m'.submit intent send' gateway' nowNs).2.1 ∧
      (m'.submit intent send' gateway' nowNs).2.2.stamped e =
        (m.submit intent send gateway nowNs).2.2.stamped e := by
  have hids : (m'.stamped e).ids = (m.stamped e).ids := by rw [hm]
  change m'.ids = m.ids at hids
  unfold submit
  dsimp only
  rw [hids]
  generalize m.ids.nextOrder intent.parentArbId intent.venue intent.side intent.role = next
  obtain ⟨id, ids⟩ := next
  -- the order is a new one or one of the map, in both runs
  have horder : ∀ n : OrderManager, ((n.orders[id]?).getD (newOrder intent id nowNs)).stamped e =
      (((n.stamped e).orders[id]?).getD ((newOrder intent id nowNs).stamped e)) := by
    intro n
    rw [orders_stamped]
    cases n.orders[id]? <;> rfl
  have ho : ((m'.orders[id]?).getD (newOrder intent id nowNs)).stamped e =
      ((m.orders[id]?).getD (newOrder intent id nowNs)).stamped e := by
    rw [horder, horder, hm]
  dsimp only
  revert ho
  generalize (m.orders[id]?).getD (newOrder intent id nowNs) = o
  generalize (m'.orders[id]?).getD (newOrder intent id nowNs) = o'
  intro ho
  obtain ⟨hreports, hgateway⟩ := hsend o o' ho
  have hclient : o'.clientOrderId = o.clientOrderId := by
    have hc : (o'.stamped e).clientOrderId = (o.stamped e).clientOrderId := by rw [ho]
    exact hc
  have hafter : ∀ reports' reports : List ExecutionReport,
      reports'.map (ExecutionReport.stamped e) = reports.map (ExecutionReport.stamped e) →
      (reports'.foldl (fun (m : OrderManager) r => (m.onReport (r.completed o'.clientOrderId
          intent.parentArbId)).observed)
        { m' with ids := ids, orders := m'.orders.insert id o' }).stamped e =
      (reports.foldl (fun (m : OrderManager) r => (m.onReport (r.completed o.clientOrderId
          intent.parentArbId)).observed)
        { m with ids := ids, orders := m.orders.insert id o }).stamped e := by
    intro reports' reports hr
    rw [stamped_reports, stamped_reports, hr, hclient, stamped_insert, stamped_insert, hm, ho]
  have hfinal := hafter _ _ hreports
  refine ⟨hfinal, hgateway, ?_⟩
  have hlast : ∀ n n' : OrderManager, n'.stamped e = n.stamped e →
      ((n'.orders[id]?).getD o').stamped e = ((n.orders[id]?).getD o).stamped e := by
    intro n n' hn
    have hk : (n'.orders[id]?).map (Order.stamped e) = (n.orders[id]?).map (Order.stamped e) := by
      rw [← orders_stamped, ← orders_stamped, hn]
    cases hn' : n'.orders[id]? <;> cases hn'' : n.orders[id]? <;>
      simp only [hn', hn'', Option.map_some, Option.map_none, Option.getD_none, Option.getD_some,
        Option.some.injEq, reduceCtorEq] at hk ⊢
    · exact ho
    · exact hk
  exact hlast _ _ hfinal

theorem stamped_takeNewFills (hm : m'.stamped e = m.stamped e) :
    m'.takeNewFills.1.map (Fill.stamped e) = m.takeNewFills.1.map (Fill.stamped e) ∧
      m'.takeNewFills.2.stamped e = m.takeNewFills.2.stamped e := by
  have hfills : (m'.stamped e).fills = (m.stamped e).fills := by rw [hm]
  have hconsumed : (m'.stamped e).consumedFills = (m.stamped e).consumedFills := by rw [hm]
  change m'.fills.map (Fill.stamped e) = m.fills.map (Fill.stamped e) at hfills
  change m'.consumedFills = m.consumedFills at hconsumed
  have hlength : m'.fills.length = m.fills.length := by
    simpa only [List.length_map] using congrArg List.length hfills
  constructor
  · show (m'.fills.drop m'.consumedFills).map _ = (m.fills.drop m.consumedFills).map _
    rw [List.map_drop, List.map_drop, hfills, hconsumed]
  · show { m'.stamped e with consumedFills := m'.fills.length } =
      { m.stamped e with consumedFills := m.fills.length }
    rw [hm, hlength]

end OrderManager

/-! ### Executions -/

/-- Two runs differ in nothing but stamps, the latency of their scenario and what their handlers know
besides the health of the feeds. -/
structure ReplayState.Alike (e : ℕ → ℕ) (latencyUs latencyUs' : ℤ) (s s' : ReplayState) :
    Prop where
  health : s'.md.health = s.md.health
  gateway : s'.gateway.timeless = s.gateway.timeless
  latency : s.gateway.scenario.extraLatencyUs = latencyUs
  latency' : s'.gateway.scenario.extraLatencyUs = latencyUs'
  risk : s'.risk = s.risk
  oms : s'.oms.stamped e = s.oms.stamped e
  ids : s'.ids = s.ids
  result : s'.result = s.result
  logs : s'.logs.stamped e = s.logs.stamped e
  trace : s'.trace.map (Observation.stamped e) = s.trace.map (Observation.stamped e)

/-- Two executions, of alike runs, whose pairs differ in nothing but their stamp. -/
structure Execution.Alike (e : ℕ → ℕ) (latencyUs latencyUs' : ℤ) (x x' : Execution) : Prop where
  run : x.run.Alike e latencyUs latencyUs' x'.run
  pair : x'.pair.stamped e = x.pair.stamped e

section Alike

variable {e : ℕ → ℕ} {env env' : Env} {latencyUs latencyUs' : ℤ}

namespace ReplayState

variable {s s' : ReplayState}

theorem Alike.positions (h : s.Alike e latencyUs latencyUs' s') :
    s'.oms.positions = s.oms.positions := by
  have hpositions : (s'.oms.stamped e).positions = (s.oms.stamped e).positions := by rw [h.oms]
  exact hpositions

theorem Alike.books (h : s.Alike e latencyUs latencyUs' s') :
    s'.gateway.books = s.gateway.books := by
  have hbooks : s'.gateway.timeless.books = s.gateway.timeless.books := by rw [h.gateway]
  exact hbooks

theorem Alike.quoteOr (h : s.Alike e latencyUs latencyUs' s') (v : Venue) (i nowNs : ℕ) :
    s'.quoteOr v i nowNs = s.quoteOr v i nowNs := by
  unfold ReplayState.quoteOr
  rw [h.books]

theorem Alike.observe (h : s.Alike e latencyUs latencyUs' s') {o o' : Observation}
    (ho : o'.stamped e = o.stamped e) : (s.observe o).Alike e latencyUs latencyUs' (s'.observe o') := by
  refine { h with trace := ?_ }
  show (s'.trace ++ [o']).map _ = (s.trace ++ [o]).map _
  rw [List.map_append, List.map_append, h.trace, List.map_singleton, List.map_singleton, ho]

theorem Alike.riskBlock (h : s.Alike e latencyUs latencyUs' s') (ts : ℕ) (severity rule : String)
    (instrumentId : ℕ) (details : String) :
    (s.riskBlock ts severity rule instrumentId details).Alike e latencyUs latencyUs'
      (s'.riskBlock ts severity rule instrumentId details) := by
  refine { h with result := ?_, logs := ?_ }
  · show { s'.result with riskBlocks := s'.result.riskBlocks + 1 } =
      { s.result with riskBlocks := s.result.riskBlocks + 1 }
    rw [h.result]
  · exact Logs.stamped_risks h.logs fun risks =>
      risks ++ [⟨ts, severity, rule, instrumentId, details⟩]

end ReplayState

namespace Execution

open MatchingEngine (SameReadings)

variable {x x' : Execution}

/-- A pair of executions whose pairs read alike in every field but the stamp. -/
theorem Alike.pair_eq (h : x.Alike e latencyUs latencyUs' x') :
    ∃ t, x'.pair = { x.pair with tsLastUpdateNs := t } := by
  obtain ⟨t, ht, -⟩ := PairTrade.stamped_eq h.pair
  exact ⟨t, ht⟩

theorem Alike.residual (h : x.Alike e latencyUs latencyUs' x') :
    x'.pair.residual = x.pair.residual := by
  obtain ⟨t, ht⟩ := h.pair_eq
  rw [ht]
  rfl

theorem Alike.submit (hr : SameReadings e env env' latencyUs latencyUs')
    (h : x.Alike e latencyUs latencyUs' x') (nowNs : ℕ) (intent : OrderIntent) :
    (x.submit env nowNs intent).1.Alike e latencyUs latencyUs' (x'.submit env' nowNs intent).1 ∧
      (x'.submit env' nowNs intent).2.stamped e = (x.submit env nowNs intent).2.stamped e := by
  have hsend : ∀ o o' : Order, o'.stamped e = o.stamped e →
      (MatchingEngine.send env' x'.run.gateway o').1.map (ExecutionReport.stamped e) =
        (MatchingEngine.send env x.run.gateway o).1.map (ExecutionReport.stamped e) ∧
      ((MatchingEngine.send env' x'.run.gateway o').2.timeless =
          (MatchingEngine.send env x.run.gateway o).2.timeless ∧
        (MatchingEngine.send env x.run.gateway o).2.scenario.extraLatencyUs = latencyUs ∧
        (MatchingEngine.send env' x'.run.gateway o').2.scenario.extraLatencyUs = latencyUs') := by
    intro o o' ho
    have hr' : SameReadings e env env' x.run.gateway.scenario.extraLatencyUs
        x'.run.gateway.scenario.extraLatencyUs := by
      rw [h.run.latency, h.run.latency']
      exact hr
    obtain ⟨hreports, hgateway⟩ := MatchingEngine.stamped_send hr' h.run.gateway ho
    exact ⟨hreports, hgateway, (MatchingEngine.latency_send _ _ _).trans h.run.latency,
      (MatchingEngine.latency_send _ _ _).trans h.run.latency'⟩
  obtain ⟨homs, ⟨hgateway, hlatency, hlatency'⟩, horder⟩ :=
    OrderManager.stamped_submit (R := fun g g' : MatchingEngine =>
      g'.timeless = g.timeless ∧ g.scenario.extraLatencyUs = latencyUs ∧
        g'.scenario.extraLatencyUs = latencyUs')
      h.run.oms hsend intent nowNs
  obtain ⟨hnew, homs'⟩ := OrderManager.stamped_takeNewFills homs
  have hrows : ∀ new : List Fill, (new.map Fill.row).map (FillRow.stamped e) =
      (new.map (Fill.stamped e)).map Fill.row := by
    intro new
    rw [List.map_map, List.map_map]
    rfl
  refine ⟨⟨ReplayState.Alike.observe ?_ rfl, ?_⟩, horder⟩
  · refine { h.run with
      gateway := hgateway, latency := hlatency, latency' := hlatency', oms := homs', logs := ?_ }
    refine Logs.stamped_append h.run.logs horder ?_
    have hnewRows := congrArg (List.map Fill.row) hnew
    rw [← hrows, ← hrows] at hnewRows
    exact hnewRows
  · unfold Execution.submit
    dsimp only
    rw [PairTrade.stamped_foldl, PairTrade.stamped_foldl, hnew, h.pair]

theorem Alike.checkLeg (h : x.Alike e latencyUs latencyUs' x') (nowNs : ℕ) (q : BestQuote)
    (intent : OrderIntent) : (x'.checkLeg nowNs q intent).1 = (x.checkLeg nowNs q intent).1 ∧
      (x.checkLeg nowNs q intent).2.Alike e latencyUs latencyUs' (x'.checkLeg nowNs q intent).2 := by
  unfold Execution.checkLeg
  rw [h.run.risk, h.run.positions]
  generalize x.run.risk.checkOrder x.run.oms.positions intent q nowNs = res
  obtain ⟨rd, risk⟩ := res
  have hchecked : ({ x.run with risk := risk } : ReplayState).Alike e latencyUs latencyUs'
      { x'.run with risk := risk } := { h.run with risk := rfl }
  exact ⟨rfl, hchecked.observe rfl, h.pair⟩

theorem Alike.blockLeg (h : x.Alike e latencyUs latencyUs' x') (nowNs : ℕ) (intent : OrderIntent)
    (rd : RiskDecision) : (x.blockLeg nowNs intent rd).Alike e latencyUs latencyUs'
      (x'.blockLeg nowNs intent rd) := by
  refine ⟨h.run.riskBlock _ _ _ _ _, ?_⟩
  show (x'.pair.stamped e).markLegFailed rd.rule (e nowNs) =
    (x.pair.stamped e).markLegFailed rd.rule (e nowNs)
  rw [h.pair]

theorem Alike.failLeg (h : x.Alike e latencyUs latencyUs' x') {o o' : Order}
    (ho : o'.stamped e = o.stamped e) : (x.failLeg o).Alike e latencyUs latencyUs' (x'.failLeg o') := by
  obtain ⟨tsAck, tsDone, rfl, -, hdone⟩ := Order.stamped_eq ho
  unfold Execution.failLeg
  show Execution.Alike e latencyUs latencyUs' _
    (if o.state = .rejected ∨ o.state = .expired then _ else _)
  split_ifs
  · refine ⟨h.run, ?_⟩
    show (x'.pair.stamped e).markLegFailed o.errCode (e tsDone) =
      (x.pair.stamped e).markLegFailed o.errCode (e o.tsDoneNs)
    rw [h.pair, hdone]
  · exact h

theorem Alike.sendOne (hr : SameReadings e env env' latencyUs latencyUs')
    (h : x.Alike e latencyUs latencyUs' x') (nowNs : ℕ) (nse bse : BestQuote)
    (intent : OrderIntent) : (Execution.sendOne env nowNs nse bse x intent).Alike e latencyUs
      latencyUs' (Execution.sendOne env' nowNs nse bse x' intent) := by
  obtain ⟨hverdict, hchecked⟩ := h.checkLeg nowNs (quoteFor nse bse intent.venue) intent
  obtain ⟨hsubmitted, horder⟩ := hchecked.submit hr nowNs intent
  unfold Execution.sendOne
  dsimp only
  rw [hverdict]
  split_ifs
  · exact hsubmitted.failLeg horder
  · exact hchecked.blockLeg nowNs intent _

/-! ### The hedge loop -/

theorem Alike.hedgePoint (h : x.Alike e latencyUs latencyUs' x') (nowNs : ℕ) :
    ∃ t, x'.hedgePoint nowNs =
        { x.hedgePoint nowNs with pair := { x.pair with tsLastUpdateNs := t } } ∧
      (x'.hedgePoint nowNs).stamped e = (x.hedgePoint nowNs).stamped e := by
  obtain ⟨t, ht, hstamp⟩ := PairTrade.stamped_eq h.pair
  refine ⟨t, ?_, ?_⟩
  · unfold Execution.hedgePoint
    rw [ht, h.run.risk, h.run.positions, h.run.quoteOr, h.run.quoteOr]
  · unfold Execution.hedgePoint HedgePoint.stamped
    dsimp only
    rw [h.pair, h.run.risk, h.run.positions, h.run.quoteOr, h.run.quoteOr, ht]

theorem Alike.asked (h : x.Alike e latencyUs latencyUs' x') (nowNs : ℕ) :
    (x.asked nowNs).Alike e latencyUs latencyUs' (x'.asked nowNs) := by
  obtain ⟨t, -, hpoint⟩ := h.hedgePoint nowNs
  exact ⟨h.run.observe (congrArg Observation.hedging hpoint), h.pair⟩

theorem Alike.disable (h : x.Alike e latencyUs latencyUs' x') (reason : String) :
    (x.disable reason).Alike e latencyUs latencyUs' (x'.disable reason) := by
  refine ⟨{ h.run with risk := ?_ }, h.pair⟩
  show { x'.run.risk with kill := x'.run.risk.kill.disable reason } =
    { x.run.risk with kill := x.run.risk.kill.disable reason }
  rw [h.run.risk]

theorem Alike.stopHedging (h : x.Alike e latencyUs latencyUs' x') (nowNs : ℕ) (state : PairState)
    (severity rule details : String) :
    (x.stopHedging nowNs state severity rule details).Alike e latencyUs latencyUs'
      (x'.stopHedging nowNs state severity rule details) := by
  obtain ⟨t, ht⟩ := h.pair_eq
  unfold Execution.stopHedging
  refine ⟨?_, ?_⟩
  · rw [show x'.pair.instrumentId = x.pair.instrumentId by rw [ht]]
    exact h.run.riskBlock _ _ _ _ _
  · show { x'.pair.stamped e with state := state, lastError := rule } =
      { x.pair.stamped e with state := state, lastError := rule }
    rw [h.pair]

theorem Alike.attempted (h : x.Alike e latencyUs latencyUs' x') (risk : RiskEngine) :
    (x.attempted risk).Alike e latencyUs latencyUs' (x'.attempted risk) := by
  obtain ⟨t, ht⟩ := h.pair_eq
  refine ⟨{ h.run with risk := rfl }, ?_⟩
  show { x'.pair.stamped e with hedgeAttempts := x'.pair.hedgeAttempts + 1 } =
    { x.pair.stamped e with hedgeAttempts := x.pair.hedgeAttempts + 1 }
  rw [h.pair, ht]

theorem Alike.countHedge (h : x.Alike e latencyUs latencyUs' x') :
    x.countHedge.Alike e latencyUs latencyUs' x'.countHedge := by
  refine ⟨{ h.run with result := ?_ }, h.pair⟩
  show { x'.run.result with hedges := x'.run.result.hedges + 1 } =
    { x.run.result with hedges := x.run.result.hedges + 1 }
  rw [h.run.result]

/-- **A turn of the hedge loop** keeps step in both executions. -/
theorem Alike.hedgeBody (hr : SameReadings e env env' latencyUs latencyUs')
    (h : x.Alike e latencyUs latencyUs' x') (cfg : RiskConfig) (nowNs : ℕ) :
    SameTurn (Execution.Alike e latencyUs latencyUs') (Execution.hedgeBody env cfg nowNs x)
      (Execution.hedgeBody env' cfg nowNs x') := by
  obtain ⟨t, hpoint, -⟩ := h.hedgePoint nowNs
  have hdecision : (x'.hedgePoint nowNs).decision cfg = (x.hedgePoint nowNs).decision cfg := by
    rw [hpoint]
    rfl
  have hcheck : (x'.hedgePoint nowNs).check cfg = (x.hedgePoint nowNs).check cfg := by
    rw [hpoint]
    rfl
  have hasked := h.asked nowNs
  obtain ⟨t', ht'⟩ := h.pair_eq
  have hattempts : x'.pair.hedgeAttempts = x.pair.hedgeAttempts := by rw [ht']
  unfold Execution.hedgeBody
  dsimp only
  rw [h.residual, hattempts, hdecision, hcheck]
  split_ifs
  · exact .done ((hasked.disable _).stopHedging _ _ _ _ _)
  · exact .yield ((hasked.attempted _).submit hr nowNs _).1.countHedge
  · exact .done ((hasked.attempted _).stopHedging _ _ _ _ _)
  · exact .done (hasked.stopHedging _ _ _ _ _)
  · exact .done h

theorem Alike.settle (h : x.Alike e latencyUs latencyUs' x') :
    x.settle.Alike e latencyUs latencyUs' x'.settle := by
  obtain ⟨t, ht, hstamp⟩ := PairTrade.stamped_eq h.pair
  have hpair : x'.settle.pair.stamped e = x.settle.pair.stamped e := by
    unfold Execution.settle
    dsimp only
    rw [h.residual, show x'.pair.state = x.pair.state by rw [ht]]
    exact PairTrade.stamped_setState h.pair _
  refine ⟨h.run.observe ?_, hpair⟩
  show Observation.hedged (x'.settle.pair.stamped e) x'.run.risk.kill =
    Observation.hedged (x.settle.pair.stamped e) x.run.risk.kill
  rw [hpair, h.run.risk]

theorem Alike.hedgeUntilFlat (hr : SameReadings e env env' latencyUs latencyUs')
    (h : x.Alike e latencyUs latencyUs' x') (cfg : RiskConfig) (nowNs : ℕ) :
    (x.hedgeUntilFlat env cfg nowNs).Alike e latencyUs latencyUs'
      (x'.hedgeUntilFlat env' cfg nowNs) := by
  obtain ⟨t, ht⟩ := h.pair_eq
  unfold Execution.hedgeUntilFlat
  rw [show x'.pair.hedgeAttempts = x.pair.hedgeAttempts by rw [ht]]
  exact (runLoop_related (fun y y' hy => hy.hedgeBody hr cfg nowNs) _ h).settle

end Execution

/-! ### The turn of an item -/

namespace ReplayState

open MatchingEngine (SameReadings)

variable {s s' : ReplayState} {x x' : Execution}

theorem Alike.hedgeLegs (hr : SameReadings e env env' latencyUs latencyUs')
    (h : x.Alike e latencyUs latencyUs' x') (cfg : RiskConfig) (nowNs : ℕ) :
    (ReplayState.hedgeLegs env cfg nowNs x).Alike e latencyUs latencyUs'
      (ReplayState.hedgeLegs env' cfg nowNs x') := by
  have hstate : ∀ {y y' : Execution}, y.Alike e latencyUs latencyUs' y' → ∀ state,
      Execution.Alike e latencyUs latencyUs' { y with pair := { y.pair with state := state } }
        { y' with pair := { y'.pair with state := state } } := by
    intro y y' hy state
    exact ⟨hy.run, PairTrade.stamped_setState hy.pair state⟩
  have hhedged : Execution.Alike e latencyUs latencyUs'
      (if x.pair.residual ≠ 0 then
        { x with pair := { x.pair with state := .hedging } }.hedgeUntilFlat env cfg nowNs else x)
      (if x'.pair.residual ≠ 0 then
        { x' with pair := { x'.pair with state := .hedging } }.hedgeUntilFlat env' cfg nowNs
        else x') := by
    rw [h.residual]
    by_cases hres : x.pair.residual ≠ 0
    · rw [if_pos hres, if_pos hres]
      exact (hstate h .hedging).hedgeUntilFlat hr cfg nowNs
    · rw [if_neg hres, if_neg hres]
      exact h
  unfold ReplayState.hedgeLegs
  dsimp only
  revert hhedged
  generalize (if x.pair.residual ≠ 0 then _ else x) = y
  generalize (if x'.pair.residual ≠ 0 then _ else x') = y'
  intro hhedged
  rw [hhedged.residual]
  split_ifs
  · exact hstate hhedged .flat
  · exact hhedged

theorem Alike.sendLegs (hr : SameReadings e env env' latencyUs latencyUs')
    (h : s.Alike e latencyUs latencyUs' s') (nowNs : ℕ) (opp : ArbOpportunity)
    (first second : OrderIntent) : (s.sendLegs env nowNs opp first second).Alike e latencyUs
      latencyUs' (s'.sendLegs env' nowNs opp first second) := by
  have hstart : Execution.Alike e latencyUs latencyUs' ⟨s, .fromOpportunity opp⟩
      ⟨s', .fromOpportunity opp⟩ := ⟨h, rfl⟩
  unfold ReplayState.sendLegs
  dsimp only
  rw [h.quoteOr, h.quoteOr]
  exact (hstart.sendOne hr nowNs _ _ first).sendOne hr nowNs _ _ second

theorem Alike.executeOpportunity (hr : SameReadings e env env' latencyUs latencyUs')
    (h : s.Alike e latencyUs latencyUs' s') {cfg cfg' : SimConfig} (hrisk : cfg'.risk = cfg.risk)
    (hfirst : cfg'.scenario.sendSellFirst = cfg.scenario.sendSellFirst) (nowNs : ℕ)
    (opp : ArbOpportunity) : (s.executeOpportunity env cfg nowNs opp).Alike e latencyUs latencyUs'
      (s'.executeOpportunity env' cfg' nowNs opp) := by
  have hlegs : cfg'.legs opp = cfg.legs opp := by
    unfold SimConfig.legs
    rw [hfirst]
  unfold ReplayState.executeOpportunity
  dsimp only
  rw [hlegs, hrisk]
  have hx := Alike.hedgeLegs hr
    (h.sendLegs hr nowNs opp (cfg.legs opp).1 (cfg.legs opp).2) cfg.risk nowNs
  revert hx
  generalize ReplayState.hedgeLegs env cfg.risk nowNs _ = x
  generalize ReplayState.hedgeLegs env' cfg.risk nowNs _ = x'
  intro hx
  obtain ⟨t, ht⟩ := hx.pair_eq
  have hresult : { x'.run.result with finalState := x'.pair.state.text } =
      { x.run.result with finalState := x.pair.state.text } := by rw [hx.run.result, ht]
  have hlogged : ReplayState.Alike e latencyUs latencyUs'
      { x.run with
        logs := { x.run.logs with pairs := x.run.logs.pairs ++ [x.pair] }
        result := { x.run.result with finalState := x.pair.state.text } }
      { x'.run with
        logs := { x'.run.logs with pairs := x'.run.logs.pairs ++ [x'.pair] }
        result := { x'.run.result with finalState := x'.pair.state.text } } :=
    { hx.run with result := hresult, logs := Logs.stamped_pair hx.run.logs hx.pair }
  exact hlogged.observe (congrArg (Observation.executed _ _) hx.pair)

theorem Alike.logOpportunity (h : s.Alike e latencyUs latencyUs' s') (d : StrategyDecision) :
    (s.logOpportunity d).Alike e latencyUs latencyUs' (s'.logOpportunity d) :=
  { h with logs := Logs.stamped_opportunity h.logs d }

theorem Alike.announce (h : s.Alike e latencyUs latencyUs' s') (d : StrategyDecision) :
    (s'.announce d).1 = (s.announce d).1 ∧
      (s.announce d).2.Alike e latencyUs latencyUs' (s'.announce d).2 := by
  unfold ReplayState.announce
  rw [h.ids]
  generalize s.ids.nextParent d.opportunity.instrumentId = next
  obtain ⟨parent, ids⟩ := next
  have hids : ({ s with ids := ids } : ReplayState).Alike e latencyUs latencyUs'
      { s' with ids := ids } := { h with ids := rfl }
  refine ⟨rfl, { hids.logOpportunity _ with result := ?_ }⟩
  show { s'.result with opportunities := s'.result.opportunities + 1 } =
    { s.result with opportunities := s.result.opportunities + 1 }
  rw [h.result]

theorem Alike.countTrade (h : s.Alike e latencyUs latencyUs' s') :
    s.countTrade.Alike e latencyUs latencyUs' s'.countTrade := by
  refine { h with result := ?_ }
  show { s'.result with trades := s'.result.trades + 1 } =
    { s.result with trades := s.result.trades + 1 }
  rw [h.result]

theorem Alike.onBookEvent (h : s.Alike e latencyUs latencyUs' s') (item : MdResult)
    (ev : BookEvent ℤ) :
    (s.onBookEvent item ev).Alike e latencyUs latencyUs' (s'.onBookEvent item ev) := by
  have hbooks : ReplayState.Alike e latencyUs latencyUs'
      { s with gateway := { s.gateway with books := s.gateway.books.onEvent ev } }
      { s' with gateway := { s'.gateway with books := s'.gateway.books.onEvent ev } } := by
    refine { h with gateway := ?_ }
    show { s'.gateway.timeless with books := s'.gateway.books.onEvent ev } =
      { s.gateway.timeless with books := s.gateway.books.onEvent ev }
    rw [h.gateway, h.books]
  unfold ReplayState.onBookEvent
  dsimp only
  split_ifs
  · exact hbooks.riskBlock _ _ _ _ _
  · exact hbooks

theorem Alike.tradeOn (hr : SameReadings e env env' latencyUs latencyUs')
    (h : s.Alike e latencyUs latencyUs' s') {cfg cfg' : SimConfig}
    (hcfg : cfg'.timeless = cfg.timeless) (maxTrades : ℤ) (nowNs : ℕ) (nse bse : BestQuote) :
    (s.tradeOn env cfg maxTrades nowNs nse bse).Alike e latencyUs latencyUs'
      (s'.tradeOn env' cfg' maxTrades nowNs nse bse) := by
  have hstrategy : cfg'.timeless.strategy = cfg.timeless.strategy := by rw [hcfg]
  have hcosts : cfg'.timeless.costs = cfg.timeless.costs := by rw [hcfg]
  have hrisk : cfg'.timeless.risk = cfg.timeless.risk := by rw [hcfg]
  have hfirst : cfg'.timeless.scenario.sendSellFirst = cfg.timeless.scenario.sendSellFirst := by
    rw [hcfg]
  change cfg'.strategy = cfg.strategy at hstrategy
  change cfg'.costs = cfg.costs at hcosts
  unfold ReplayState.tradeOn
  rw [hstrategy, hcosts]
  generalize evaluate cfg.strategy nse bse cfg.costs nowNs = d
  obtain ⟨hopp, hannounced⟩ := h.announce d
  dsimp only
  rw [hopp, hannounced.result]
  split_ifs
  · exact hannounced
  · exact (hannounced.executeOpportunity hr hrisk hfirst nowNs _).countTrade
  · exact h.logOpportunity d
  · exact h

/-- **A turn of `run_replay`** keeps two runs alike. -/
theorem Alike.onItem (hr : SameReadings e env env' latencyUs latencyUs')
    (h : s.Alike e latencyUs latencyUs' s') {cfg cfg' : SimConfig}
    (hcfg : cfg'.timeless = cfg.timeless) (maxTrades : ℤ) (item : MdResult) :
    (s.onItem env cfg maxTrades item).Alike e latencyUs latencyUs'
      (s'.onItem env' cfg' maxTrades item) := by
  unfold ReplayState.onItem
  cases item.event with
  | none => exact h
  | some ev =>
    have hbook := h.onBookEvent item ev
    dsimp only
    rw [hbook.books, hbook.health]
    split
    · split_ifs
      · exact hbook.riskBlock _ _ _ _ _
      · exact hbook.tradeOn hr hcfg maxTrades _ _ _
    · exact hbook

end ReplayState

end Alike

end Hft
