import HftArb.Sim.Writes

/-!
# Orders and fills on file

`orders.csv` keeps every order as the order manager returned it, and `fills.csv` what it was filled
with.  `Fate` says how the gateway can leave an order that a run sends, given the scenario; from it
the two log files reconcile (`run_reconciled`) and follow the scenario (`run_scripted`).
-/

namespace Hft

open Transition

/-! ### How an order fares -/

/-- How the gateway leaves an order: the order as it is returned, and the scenario before and after
it. -/
inductive Fate (sc : ScenarioConfig) (o : Order) : ScenarioConfig → Prop
  | disconnected (h : sc.disconnected o.intent.venue = true) (hstate : o.state = .rejected)
      (hfilled : o.filledQty = 0) (herr : o.errCode = "GATEWAY_DISCONNECT") : Fate sc o sc
  | refused (h : sc.disconnected o.intent.venue = false)
      (hrole : o.intent.role ∈ sc.rejectRolesOnce) (hstate : o.state = .rejected)
      (hfilled : o.filledQty = 0) (herr : o.errCode = "SCENARIO_REJECT") :
      Fate sc o { sc with rejectRolesOnce := sc.rejectRolesOnce.erase o.intent.role }
  | matched (h : sc.disconnected o.intent.venue = false)
      (hrole : o.intent.role ∉ sc.rejectRolesOnce)
      (hfilled : 0 ≤ o.filledQty ∧ o.filledQty ≤ o.intent.qty)
      (hcap : ∀ cap, sc.maxFillQtyByRole o.intent.role = some cap → o.filledQty ≤ max 0 cap)
      (hstate : o.state = if o.filledQty = o.intent.qty then .filled
        else if 0 < o.filledQty then .partial_ else .expired)
      (herr : o.errCode = if o.filledQty = o.intent.qty then "" else "IOC_REMAINDER_EXPIRED") :
      Fate sc o sc

namespace MatchingEngine

open OrderManager

variable {intent : OrderIntent} {id : String} {nowNs ts : ℕ}

/-- Acks and fills leave the error code as it is. -/
theorem errCode_foldl {rs : List ExecutionReport} (hrs : ∀ r ∈ rs, r.type = .ack ∨ r.type = .fill)
    (o : Order) : (rs.foldl Order.report o).errCode = o.errCode := by
  induction rs generalizing o with
  | nil => rfl
  | cons r rs ih =>
    obtain ⟨hr, hrest⟩ := List.forall_mem_cons.1 hrs
    rw [List.foldl_cons, ih hrest]
    unfold Order.report
    rcases hr with hr | hr <;> rw [hr] <;> dsimp only <;> split_ifs <;> rfl

/-- The error code of a matched order says that something is left. -/
theorem errCode_matchReports {delayedAck : Bool} {levelFills : List (LevelFill ℤ)} :
    ((matchReports delayedAck (newOrder intent id nowNs) ts levelFills).foldl Order.report
      (newOrder intent id nowNs)).errCode =
      if (levelFills.map LevelFill.qty).sum < intent.qty then "IOC_REMAINDER_EXPIRED" else "" := by
  have hacks : ∀ (reason : String) (b : Bool), ∀ r ∈ (if b then ([] : List ExecutionReport) else
      [makeReport (newOrder intent id nowNs) ts .ack intent.pricePaise 0 reason]),
      r.type = .ack ∨ r.type = .fill := by
    intro reason b r hr
    cases b
    · rw [List.mem_singleton.1 hr]
      exact Or.inl rfl
    · exact absurd hr List.not_mem_nil
  have hfills : ∀ r ∈ fillReports (newOrder intent id nowNs) ts levelFills,
      r.type = .ack ∨ r.type = .fill := fun r hr => Or.inr (type_fillReports r hr)
  have hlate : ∀ r ∈ (if delayedAck then
      [makeReport (newOrder intent id nowNs) ts .ack intent.pricePaise 0 "DELAYED_ACK"]
      else ([] : List ExecutionReport)), r.type = .ack ∨ r.type = .fill := by
    have hnot := hacks "DELAYED_ACK" (!delayedAck)
    cases delayedAck <;> exact hnot
  have hfront := errCode_foldl (List.forall_mem_append.2
    ⟨List.forall_mem_append.2 ⟨hacks "" delayedAck, hfills⟩, hlate⟩) (newOrder intent id nowNs)
  have hintent : (newOrder intent id nowNs).intent = intent := rfl
  dsimp only [matchReports]
  rw [List.foldl_append, hintent]
  by_cases hleft : (levelFills.map LevelFill.qty).sum < intent.qty
  · rw [if_pos hleft, if_pos hleft]
    rfl
  · rw [if_neg hleft, if_neg hleft]
    exact hfront

/-- A closed order that was matched. -/
theorem fate_matched {sc : ScenarioConfig} {books books' : BookManager}
    {levelFills : List (LevelFill ℤ)} (hdisc : sc.disconnected intent.venue = false)
    (hrole : intent.role ∉ sc.rejectRolesOnce) (hqty : 0 < intent.qty)
    (hclosed : Closed intent sc books
      (matchReports sc.delayedAck (newOrder intent id nowNs) ts levelFills) books'
      ((matchReports sc.delayedAck (newOrder intent id nowNs) ts levelFills).foldl Order.report
        (newOrder intent id nowNs))) :
    Fate sc ((matchReports sc.delayedAck (newOrder intent id nowNs) ts levelFills).foldl
      Order.report (newOrder intent id nowNs)) sc := by
  have hfilled := hclosed.filledQty
  rw [filledBy_matchReports] at hfilled
  have hle := hclosed.le_qty
  have hintent : ((matchReports sc.delayedAck (newOrder intent id nowNs) ts levelFills).foldl
      Order.report (newOrder intent id nowNs)).intent = intent := Order.intent_foldl _ _
  refine .matched ?_ ?_ ?_ ?_ ?_ ?_ <;> rw [hintent]
  · exact hdisc
  · exact hrole
  · exact ⟨hclosed.nonneg, hle⟩
  · exact hclosed.le_cap
  · rw [hfilled]
    exact (state_matchReports hqty (hfilled ▸ hle)).1
  · rw [errCode_matchReports, hfilled]
    split_ifs <;> first | rfl | omega

end MatchingEngine

namespace ReplayState

variable {env : Env} {s : ReplayState} {intent : OrderIntent}

open OrderManager MatchingEngine

/-- **How an order that a run sends fares.**  It is never refused for a missing book. -/
theorem Sendable.fate (h : s.Sendable intent) (nowNs : ℕ) :
    Fate s.gateway.scenario (s.sentRow env nowNs intent)
      (s.sendOrder env nowNs intent).gateway.scenario := by
  have hsent := MatchingEngine.send_spec h.sound.books env intent (s.oms.nextId intent) nowNs
  have horder : s.sentRow env nowNs intent = _ :=
    (order_submit h.sound.known intent (MatchingEngine.send env) s.gateway nowNs hsent.ids).2
  have hgateway : (s.sendOrder env nowNs intent).gateway = _ :=
    @Execution.gateway_submit ⟨s, {}⟩ h.sound env nowNs intent
  rw [hgateway, horder]
  show Fate _ _ (s.gateway.send env (newOrder intent (s.oms.nextId intent) nowNs)).2.scenario
  have hsending := send_sending env s.gateway (newOrder intent (s.oms.nextId intent) nowNs)
  generalize s.gateway.send env (newOrder intent (s.oms.nextId intent) nowNs) = res at hsending ⊢
  cases hsending with
  | reject ts hrefusal =>
    cases hrefusal with
    | disconnected hdisc => exact .disconnected hdisc rfl rfl rfl
    | scenario hdisc hrole => exact .refused hdisc hrole rfl rfl rfl
    | noBook hbook =>
      obtain ⟨b, hb⟩ := h.book
      rw [show s.gateway.books.book intent.venue intent.instrumentId = none from hbook] at hb
      cases hb
  | @matched b ts hdisc hrole hbook =>
    exact fate_matched hdisc hrole h.qty (closed_matched h.qty h.sound.books hbook
      (env.walk s.gateway.sends) s.gateway.scenario (s.oms.nextId intent) nowNs ts)

end ReplayState

/-! ### Orders and fills reconcile -/

/-- The quantity that `fills.csv` has under an order id. -/
def filledUnder (fills : List FillRow) (clientOrderId : String) : ℤ :=
  ((fills.filter fun f => f.clientOrderId = clientOrderId).map FillRow.fillQty).sum

/-- The row is a fill of the order. -/
structure FillRow.Of (f : FillRow) (o : Order) : Prop where
  clientOrderId : f.clientOrderId = o.clientOrderId
  parentArbId : f.parentArbId = o.intent.parentArbId
  instrumentId : f.instrumentId = o.intent.instrumentId
  venue : f.venue = o.intent.venue.text
  side : f.side = o.intent.side.text
  pos : 0 < f.fillQty
  within : WithinLimit o.intent.side o.intent.pricePaise f.fillPxPaise

/-- The order has come to an end, in the state that its quantities say. -/
structure Order.Ended (o : Order) : Prop where
  qty : 0 < o.intent.qty
  nonneg : 0 ≤ o.filledQty
  le_qty : o.filledQty ≤ o.intent.qty
  filled : o.state = .filled ↔ o.filledQty = o.intent.qty
  part : o.state = .partial_ ↔ 0 < o.filledQty ∧ o.filledQty < o.intent.qty
  unfilled : o.state = .rejected ∨ o.state = .expired ↔ o.filledQty = 0

/-- Orders and fills on file agree. -/
structure Logs.Reconciled (l : Logs) : Prop where
  ids : (l.orders.map Order.clientOrderId).Nodup
  rows : ∀ f ∈ l.fills, ∃ o ∈ l.orders, f.Of o
  filled : ∀ o ∈ l.orders, o.filledQty = filledUnder l.fills o.clientOrderId
  ended : ∀ o ∈ l.orders, o.Ended

theorem Fate.ended {sc sc' : ScenarioConfig} {o : Order} (h : Fate sc o sc')
    (hqty : 0 < o.intent.qty) : o.Ended := by
  cases h with
  | disconnected hdisc hstate hfilled herr =>
    exact ⟨hqty, hfilled.ge, by omega, by simp [hstate]; omega, by simp [hstate, hfilled],
      by simp [hstate, hfilled]⟩
  | refused hdisc hrole hstate hfilled herr =>
    exact ⟨hqty, hfilled.ge, by omega, by simp [hstate]; omega, by simp [hstate, hfilled],
      by simp [hstate, hfilled]⟩
  | matched hdisc hrole hfilled hcap hstate herr =>
    refine ⟨hqty, hfilled.1, hfilled.2, ?_, ?_, ?_⟩ <;> rw [hstate] <;> split_ifs with hall hsome <;>
      simp <;> omega

theorem filledUnder_append (a b : List FillRow) (id : String) :
    filledUnder (a ++ b) id = filledUnder a id + filledUnder b id := by
  simp [filledUnder]

theorem filledUnder_other {fills : List FillRow} {id : String}
    (h : ∀ f ∈ fills, f.clientOrderId ≠ id) : filledUnder fills id = 0 := by
  have hnone : (fills.filter fun f => f.clientOrderId = id) = [] := by
    rw [List.filter_eq_nil_iff]
    exact fun f hf => by simpa using h f hf
  rw [filledUnder, hnone]
  rfl

theorem filledUnder_own {fills : List FillRow} {id : String}
    (h : ∀ f ∈ fills, f.clientOrderId = id) :
    filledUnder fills id = (fills.map FillRow.fillQty).sum := by
  have hall : (fills.filter fun f => f.clientOrderId = id) = fills := by
    rw [List.filter_eq_self]
    exact fun f hf => by simpa using h f hf
  rw [filledUnder, hall]

/-- The fills that are reported add up to what the reports fill. -/
theorem OrderManager.sum_fillsOf (intent : OrderIntent) (id : String) (rs : List ExecutionReport) :
    ((fillsOf intent id rs).map Fill.fillQty).sum = filledBy rs := by
  have hqty : ∀ r ∈ rs.filter (fun r => r.type = .fill), r.qty = r.fillQty := by
    intro r hr
    have hfill : r.type = .fill := by simpa using (List.mem_filter.1 hr).2
    exact (if_pos hfill).symm
  rw [← filledBy_filter_fill, filledBy, fillsOf, List.map_map]
  exact congrArg List.sum (List.map_congr_left hqty)

namespace ReplayState

variable {env : Env} {s s' : ReplayState} {intent : OrderIntent}

/-- What is on file reconciles, and the order manager knows the orders on file. -/
structure Reconciled (s : ReplayState) : Prop where
  logs : s.logs.Reconciled
  known : ∀ o ∈ s.logs.orders, s.oms.intentOf o.clientOrderId = some o.intent

/-- The fills of a sent order are as many as its row says. -/
theorem Sendable.filledQty (h : s.Sendable intent) (nowNs : ℕ) :
    (s.sentRow env nowNs intent).filledQty =
      ((s.newFills env nowNs intent).map Fill.fillQty).sum := by
  have hsent := MatchingEngine.send_spec h.sound.books env intent (s.oms.nextId intent) nowNs
  have horder : s.sentRow env nowNs intent = _ := (OrderManager.order_submit h.sound.known intent
    (MatchingEngine.send env) s.gateway nowNs hsent.ids).2
  rw [horder, Order.filledQty_foldl]
  exact (zero_add _).trans (OrderManager.sum_fillsOf _ _ _).symm

/-- The fills of a sent order are its own. -/
theorem Sendable.rows (h : s.Sendable intent) (nowNs : ℕ) :
    ∀ f ∈ (s.newFills env nowNs intent).map Fill.row, f.Of (s.sentRow env nowNs intent) := by
  obtain ⟨hintent, hid, -⟩ := @sentRow_spec env s intent h.sound nowNs
  have hown := (@Execution.submit_submitted ⟨s, {}⟩ h.sound env nowNs intent).own
  refine List.forall_mem_map.2 fun f hf => ?_
  have hvenue : f.venue = intent.venue := by
    obtain ⟨r, -, rfl⟩ := List.mem_map.1 hf
    rfl
  refine ⟨?_, ?_, ?_, ?_, ?_, hown.pos f hf, ?_⟩
  · rw [hid]
    exact @Execution.clientOrderId_newFills env nowNs ⟨s, {}⟩ intent f hf
  · rw [hintent]
    exact hown.parent f hf
  · rw [hintent]
    exact hown.instrument f hf
  · rw [hintent, ← hvenue]
    rfl
  · rw [hintent, ← hown.side f hf]
    rfl
  · rw [hintent]
    exact @Execution.newFills_within env nowNs ⟨s, {}⟩ intent h.sound f hf

/-- A sent order is reconciled with its fills. -/
theorem Reconciled.send (h : s.Reconciled) (hsend : s.Sendable intent) (nowNs : ℕ) :
    (s.sendOrder env nowNs intent).Reconciled := by
  obtain ⟨hintent, hid, -⟩ := @sentRow_spec env s intent hsend.sound nowNs
  have hrows := @Sendable.rows env s intent hsend nowNs
  have hnew : ∀ o ∈ s.logs.orders, o.clientOrderId ≠ s.oms.nextId intent := by
    intro o ho heq
    have hknown := h.known o ho
    rw [heq, OrderManager.intentOf_nextId hsend.sound.known] at hknown
    cases hknown
  have hlogs := @logs_sendOrder env s intent hsend.sound nowNs
  obtain ⟨⟨hids, hold, hfilled, hended⟩, hknown⟩ := h
  refine ⟨⟨?_, ?_, ?_, ?_⟩, ?_⟩ <;> rw [hlogs] <;> dsimp only
  · rw [List.map_append, List.nodup_append]
    refine ⟨hids, List.nodup_singleton _, fun a ha b hb => ?_⟩
    obtain ⟨o, ho, rfl⟩ := List.mem_map.1 ha
    rw [List.mem_singleton.1 hb, hid]
    exact hnew o ho
  · refine List.forall_mem_append.2 ⟨fun f hf => ?_, fun f hf => ?_⟩
    · obtain ⟨o, ho, hof⟩ := hold f hf
      exact ⟨o, List.mem_append_left _ ho, hof⟩
    · exact ⟨_, List.mem_append_right _ (List.mem_singleton_self _), hrows f hf⟩
  · refine List.forall_mem_append.2 ⟨fun o ho => ?_, List.forall_mem_singleton.2 ?_⟩
    · have hother : ∀ f ∈ (s.newFills env nowNs intent).map Fill.row,
          f.clientOrderId ≠ o.clientOrderId := by
        intro f hf
        rw [(hrows f hf).clientOrderId, hid]
        exact (hnew o ho).symm
      rw [filledUnder_append, filledUnder_other hother, add_zero]
      exact hfilled o ho
    · have hother : ∀ f ∈ s.logs.fills,
          f.clientOrderId ≠ (s.sentRow env nowNs intent).clientOrderId := by
        intro f hf
        obtain ⟨o, ho, hof⟩ := hold f hf
        rw [hof.clientOrderId, hid]
        exact hnew o ho
      rw [filledUnder_append, filledUnder_other hother, zero_add,
        filledUnder_own fun f hf => (hrows f hf).clientOrderId, hsend.filledQty, List.map_map]
      rfl
  · refine List.forall_mem_append.2 ⟨hended, List.forall_mem_singleton.2 ?_⟩
    exact (@Sendable.fate env s intent hsend nowNs).ended (by rw [hintent]; exact hsend.qty)
  · refine List.forall_mem_append.2 ⟨fun o ho => ?_, List.forall_mem_singleton.2 ?_⟩
    · exact @Execution.intentOf_submit_kept env nowNs ⟨s, {}⟩ intent hsend.sound _ _ (hknown o ho)
    · rw [hid, hintent]
      exact (@Execution.intentOf_submit ⟨s, {}⟩ hsend.sound env nowNs intent _).trans (if_pos rfl)

theorem Reconciled.write (h : s.Reconciled) (hw : Write env s s') : s'.Reconciled := by
  cases hw with
  | note hnote =>
    cases hnote with
    | silent hs =>
      exact ⟨by rw [hs.logs]; exact h.logs, by rw [hs.logs, hs.oms]; exact h.known⟩
    | block ts severity rule instrumentId details htexts =>
      exact ⟨⟨h.logs.ids, h.logs.rows, h.logs.filled, h.logs.ended⟩, h.known⟩
    | leg nowNs intent hsend hrole => exact h.send hsend nowNs
    | hedge nowNs intent hsend hrole =>
      have hsent := @Reconciled.send env s intent h hsend nowNs
      exact ⟨hsent.logs, hsent.known⟩
  | watched d htrade hreason =>
    exact ⟨⟨h.logs.ids, h.logs.rows, h.logs.filled, h.logs.ended⟩, h.known⟩
  | announced d htrade hreason =>
    exact ⟨⟨h.logs.ids, h.logs.rows, h.logs.filled, h.logs.ended⟩, h.known⟩
  | pair p hparent herror =>
    exact ⟨⟨h.logs.ids, h.logs.rows, h.logs.filled, h.logs.ended⟩, h.known⟩

end ReplayState

/-! ### Orders and the scenario -/

/-- The scenario still refuses the role of the intent after the orders `sent`: each role in
`reject_roles_once` is refused for the first order that reaches a venue. -/
def ScenarioConfig.Refuses (sc : ScenarioConfig) (sent : List Order) (intent : OrderIntent) : Prop :=
  sc.disconnected intent.venue = false ∧ intent.role ∈ sc.rejectRolesOnce ∧
    ∀ o ∈ sent, o.intent.role = intent.role → sc.disconnected o.intent.venue = true

/-- The order is what the scenario makes of it after the orders `sent`. -/
structure ScenarioConfig.Answers (sc : ScenarioConfig) (sent : List Order) (o : Order) : Prop where
  disconnected : o.errCode = "GATEWAY_DISCONNECT" ↔ sc.disconnected o.intent.venue = true
  refused : o.errCode = "SCENARIO_REJECT" ↔ sc.Refuses sent o.intent
  rejected : o.state = .rejected ↔
    o.errCode = "GATEWAY_DISCONNECT" ∨ o.errCode = "SCENARIO_REJECT"
  filled : o.state = .filled ↔ o.errCode = ""
  remainder : o.state = .partial_ ∨ o.state = .expired ↔ o.errCode = "IOC_REMAINDER_EXPIRED"
  capped : ∀ cap, sc.maxFillQtyByRole o.intent.role = some cap → o.filledQty ≤ max 0 cap

/-- Every order on file is what the scenario makes of it after those before it. -/
def Logs.Follow (l : Logs) (sc : ScenarioConfig) : Prop :=
  ∀ n o, l.orders[n]? = some o → sc.Answers (l.orders.take n) o

namespace ReplayState

variable {env : Env} {s s' : ReplayState} {intent : OrderIntent} {sc : ScenarioConfig}

/-- The orders on file have been answered by the scenario, which has been used up as far as they
say. -/
structure Scripted (sc : ScenarioConfig) (s : ReplayState) : Prop where
  scenario : s.gateway.scenario =
    { sc with rejectRolesOnce := s.gateway.scenario.rejectRolesOnce }
  left : ∀ r, r ∈ s.gateway.scenario.rejectRolesOnce ↔ r ∈ sc.rejectRolesOnce ∧
    ∀ o ∈ s.logs.orders, o.intent.role = r → sc.disconnected o.intent.venue = true
  answers : s.logs.Follow sc

/-- An order that fares by a scenario used up to `sc'` is answered by the whole scenario. -/
theorem answers_of_fate {sc' sc'' : ScenarioConfig} {sent : List Order} {o : Order}
    (hsc : sc' = { sc with rejectRolesOnce := sc'.rejectRolesOnce })
    (hleft : ∀ r, r ∈ sc'.rejectRolesOnce ↔ r ∈ sc.rejectRolesOnce ∧
      ∀ o ∈ sent, o.intent.role = r → sc.disconnected o.intent.venue = true)
    (h : Fate sc' o sc'') : sc.Answers sent o := by
  have hdisc' : sc'.disconnected o.intent.venue = sc.disconnected o.intent.venue := by
    rw [hsc]
    rfl
  have hcaps : sc'.maxFillQtyByRole = sc.maxFillQtyByRole := by rw [hsc]
  have hrefuses : sc.Refuses sent o.intent ↔ sc.disconnected o.intent.venue = false ∧
      o.intent.role ∈ sc'.rejectRolesOnce := by
    rw [hleft]
    exact Iff.rfl
  cases h with
  | disconnected hdisc hstate hfilled herr =>
    rw [hdisc'] at hdisc
    refine ⟨?_, ?_, ?_, ?_, ?_, fun cap _ => ?_⟩ <;> simp [herr, hstate, hrefuses, hdisc, hfilled]
  | refused hdisc hrole hstate hfilled herr =>
    rw [hdisc'] at hdisc
    refine ⟨?_, ?_, ?_, ?_, ?_, fun cap _ => ?_⟩ <;>
      simp [herr, hstate, hrefuses, hdisc, hrole, hfilled]
  | matched hdisc hrole hfilled hcap hstate herr =>
    rw [hdisc'] at hdisc
    rw [hcaps] at hcap
    refine ⟨?_, ?_, ?_, ?_, ?_, hcap⟩ <;> rw [herr] <;> try rw [hstate]
    all_goals split_ifs <;> simp [hrefuses, hdisc, hrole]

/-- How the order fares uses up the scenario. -/
theorem left_of_fate {sc' sc'' : ScenarioConfig} {sent : List Order} {o : Order}
    (hsc : sc' = { sc with rejectRolesOnce := sc'.rejectRolesOnce })
    (hleft : ∀ r, r ∈ sc'.rejectRolesOnce ↔ r ∈ sc.rejectRolesOnce ∧
      ∀ o ∈ sent, o.intent.role = r → sc.disconnected o.intent.venue = true)
    (h : Fate sc' o sc'') :
    sc'' = { sc with rejectRolesOnce := sc''.rejectRolesOnce } ∧
      ∀ r, r ∈ sc''.rejectRolesOnce ↔ r ∈ sc.rejectRolesOnce ∧
        ∀ o' ∈ sent ++ [o], o'.intent.role = r → sc.disconnected o'.intent.venue = true := by
  have hdisc' : sc'.disconnected o.intent.venue = sc.disconnected o.intent.venue := by
    rw [hsc]
    rfl
  simp only [List.forall_mem_append, List.forall_mem_singleton, ← and_assoc, ← hleft, ← hdisc']
  cases h with
  | disconnected hdisc hstate hfilled herr => exact ⟨hsc, fun r => by simp [hdisc]⟩
  | refused hdisc hrole hstate hfilled herr =>
    refine ⟨by rw [hsc], fun r => ?_⟩
    rw [Finset.mem_erase, hdisc]
    simp only [Bool.false_eq_true, imp_false]
    exact ⟨fun h => ⟨h.2, Ne.symm h.1⟩, fun h => ⟨Ne.symm h.2, h.1⟩⟩
  | matched hdisc hrole hfilled hcap hstate herr =>
    refine ⟨hsc, fun r => ⟨fun hr => ⟨hr, fun heq => ?_⟩, And.left⟩⟩
    rw [heq] at hrole
    exact absurd hr hrole

/-- A sent order is answered by the scenario and uses it up. -/
theorem Scripted.send (h : s.Scripted sc) (hsend : s.Sendable intent) (nowNs : ℕ) :
    (s.sendOrder env nowNs intent).Scripted sc := by
  have hfate := @Sendable.fate env s intent hsend nowNs
  have hlogs : (s.sendOrder env nowNs intent).logs.orders =
      s.logs.orders ++ [s.sentRow env nowNs intent] := rfl
  obtain ⟨hsc, hleft⟩ := left_of_fate h.scenario h.left hfate
  refine ⟨hsc, by rw [hlogs]; exact hleft, fun n o ho => ?_⟩
  rw [hlogs] at ho ⊢
  rcases lt_trichotomy n s.logs.orders.length with hlt | rfl | hgt
  · rw [List.getElem?_append_left hlt] at ho
    rw [List.take_append_of_le_length hlt.le]
    exact h.answers n o ho
  · rw [List.getElem?_concat_length, Option.some_inj] at ho
    rw [List.take_left, ← ho]
    exact answers_of_fate h.scenario h.left hfate
  · rw [List.getElem?_eq_none (by simpa using hgt)] at ho
    cases ho

theorem Scripted.write (h : s.Scripted sc) (hw : Write env s s') : s'.Scripted sc := by
  cases hw with
  | note hnote =>
    cases hnote with
    | silent hs =>
      refine ⟨?_, ?_, ?_⟩
      · rw [hs.scenario]
        exact h.scenario
      · rw [hs.scenario, hs.logs]
        exact h.left
      · rw [hs.logs]
        exact h.answers
    | block ts severity rule instrumentId details htexts => exact ⟨h.scenario, h.left, h.answers⟩
    | leg nowNs intent hsend hrole => exact h.send hsend nowNs
    | hedge nowNs intent hsend hrole =>
      have hsent := @Scripted.send env s intent sc h hsend nowNs
      exact ⟨hsent.scenario, hsent.left, hsent.answers⟩
  | watched d htrade hreason => exact ⟨h.scenario, h.left, h.answers⟩
  | announced d htrade hreason => exact ⟨h.scenario, h.left, h.answers⟩
  | pair p hparent herror => exact ⟨h.scenario, h.left, h.answers⟩

end ReplayState

/-! ### Runs -/

namespace Simulator

open ReplayState

variable {sim : Simulator}

theorem reconciled_start (lines : List Bytes) : (sim.start lines).Reconciled := by
  have hlogs : (sim.start lines).logs = {} := rfl
  constructor <;> rw [hlogs]
  · exact ⟨List.nodup_nil, by simp, by simp, by simp⟩
  · simp

theorem scripted_start (lines : List Bytes) : (sim.start lines).Scripted sim.cfg.scenario := by
  have hlogs : (sim.start lines).logs = {} := rfl
  have hscenario : (sim.start lines).gateway.scenario = sim.cfg.scenario := rfl
  constructor
  · rw [hscenario]
  · rw [hscenario, hlogs]
    simp
  · rw [hlogs]
    intro n o ho
    cases ho

theorem reconciled_replayFor (cfg : SimConfig) (calls : List ReplayCall) (call : ReplayCall)
    (turns : ℕ) : ((afterRuns cfg calls).replayFor call turns).Reconciled :=
  replayFor_write (I := ReplayState.Reconciled) (afterRuns_spec cfg calls).1
    (afterRuns_keyed cfg calls) (reconciled_start _) (fun _ _ h => ⟨h.logs, h.known⟩)
    (fun _ _ h hw => h.write hw) turns

/-- **Orders and fills reconcile**, at every point of every run of a simulator that may have run
before: no two rows of `orders.csv` have one id, every row of `fills.csv` is a fill of one of them
within its limit, and every order was filled with what its fills add up to, and ended accordingly. -/
theorem run_reconciled (cfg : SimConfig) (calls : List ReplayCall) (call : ReplayCall) (turns : ℕ) :
    ((afterRuns cfg calls).replayFor call turns).logs.Reconciled :=
  (reconciled_replayFor cfg calls call turns).logs

/-- **A run follows its scenario**: every order of a run is answered as the scenario has it after the
orders before it.  A role is refused once, and only by a venue that is connected; nothing else is
rejected, and no fill exceeds its cap. -/
theorem run_scripted (cfg : SimConfig) (calls : List ReplayCall) (call : ReplayCall) (turns : ℕ) :
    ((afterRuns cfg calls).replayFor call turns).logs.Follow cfg.scenario := by
  have hstart := @scripted_start (afterRuns cfg calls) call.lines
  rw [(afterRuns_spec cfg calls).2] at hstart
  have hall : ((afterRuns cfg calls).replayFor call turns).Scripted cfg.scenario :=
    replayFor_write (I := Scripted cfg.scenario) (afterRuns_spec cfg calls).1
      (afterRuns_keyed cfg calls) hstart (fun _ _ h => ⟨h.scenario, h.left, h.answers⟩)
      (fun _ _ h hw => h.write hw) turns
  exact hall.answers

end Simulator

end Hft
