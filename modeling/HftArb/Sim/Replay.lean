import HftArb.Sim.Execution

/-!
# The turns of a replay

`onItem_itemTurn` splits the branches of the source once: nothing but a decision to trade
(`Decides`: both quotes are there, both feeds are healthy and `evaluate` wants to trade) leads to an
execution.  For the ledgers it is enough that a turn either executes no opportunity
(`ReplayState.Quiet`: the books take an event, logs and counters move) or ends with the execution of
one whose parent id is new (`Turn`).  `replayFor_induct` and `replayFor_items` are the invariant rules
for all runs, and `replay_ends` shows that a run reads its file to the end.
-/

namespace Hft

open Transition

namespace ReplayState

variable {env : Env} {cfg : SimConfig} {maxTrades : ℤ} {s s' : ReplayState}

/-- The turn executed nothing. -/
structure Quiet (s s' : ReplayState) : Prop where
  md : s'.md = s.md
  books : s.gateway.books.Wf → s'.gateway.books.Wf
  oms : s'.oms = s.oms
  risk : s'.risk = s.risk
  ids : s.ids.parentSeq ≤ s'.ids.parentSeq
  logs : s'.logs.fills = s.logs.fills ∧ s'.logs.pairs = s.logs.pairs
  trace : s'.trace = s.trace

theorem Quiet.refl (s : ReplayState) : Quiet s s := ⟨rfl, id, rfl, rfl, le_rfl, ⟨rfl, rfl⟩, rfl⟩

theorem Quiet.trans {s'' : ReplayState} (h : Quiet s s') (h' : Quiet s' s'') : Quiet s s'' :=
  ⟨h'.md.trans h.md, h'.books ∘ h.books, h'.oms.trans h.oms, h'.risk.trans h.risk,
    h.ids.trans h'.ids, ⟨h'.logs.1.trans h.logs.1, h'.logs.2.trans h.logs.2⟩,
    h'.trace.trans h.trace⟩

theorem quiet_riskBlock (ts : ℕ) (severity rule : String) (instrumentId : ℕ) (details : String) :
    Quiet s (s.riskBlock ts severity rule instrumentId details) :=
  ⟨rfl, id, rfl, rfl, le_rfl, ⟨rfl, rfl⟩, rfl⟩

theorem quiet_announce (d : StrategyDecision) : Quiet s (s.announce d).2 :=
  ⟨rfl, id, rfl, rfl, Nat.le_succ _, ⟨rfl, rfl⟩, rfl⟩

theorem quiet_onBookEvent (item : MdResult) (ev : BookEvent ℤ) :
    Quiet s (s.onBookEvent item ev) ∧ (s.onBookEvent item ev).ids = s.ids := by
  have hevent : Quiet s { s with
      gateway := { s.gateway with books := s.gateway.books.onEvent ev } } :=
    ⟨rfl, fun h => h.onEvent ev, rfl, rfl, le_rfl, ⟨rfl, rfl⟩, rfl⟩
  unfold onBookEvent
  dsimp only
  split_ifs
  · exact ⟨hevent.trans (quiet_riskBlock _ _ _ _ _), rfl⟩
  · exact ⟨hevent, rfl⟩

/-- What a turn of `run_replay` does after it has read an item. -/
inductive Turn (env : Env) (cfg : SimConfig) (s : ReplayState) : ReplayState → Prop
  | quiet {s' : ReplayState} (h : Quiet s s') : Turn env cfg s s'
  | execute {s₁ : ReplayState} (nowNs : ℕ) (opp : ArbOpportunity) (h : Quiet s s₁)
      (hseq : s₁.ids.parentSeq = s.ids.parentSeq + 1)
      (hparent : opp.parentArbId =
        parentIdText s₁.ids.idPrefix opp.instrumentId s₁.ids.parentSeq) :
      Turn env cfg s (s₁.executeOpportunity env cfg nowNs opp).countTrade

/-! ### The turn of an item -/

variable {item : MdResult}

/-- `run_replay` has handled the event of an item, finds both quotes and both feeds healthy, and
`evaluate` wants to trade. -/
structure Decides (cfg : SimConfig) (s : ReplayState) (item : MdResult) (ev : BookEvent ℤ)
    (nse bse : BestQuote) : Prop where
  event : item.event = some ev
  nseQuote : (s.onBookEvent item ev).gateway.books.quote .nse ev.instrumentId ev.tsIngestNs = some nse
  bseQuote : (s.onBookEvent item ev).gateway.books.quote .bse ev.instrumentId ev.tsIngestNs = some bse
  healthy : s.md.health.isHealthy .nse ev.instrumentId = true ∧
    s.md.health.isHealthy .bse ev.instrumentId = true
  trade : (evaluate cfg.strategy nse bse cfg.costs ev.tsIngestNs).shouldTrade = true

/-- The opportunity of a decision to trade, under its new parent id, and the run after it was
logged. -/
def opened (cfg : SimConfig) (s : ReplayState) (item : MdResult) (ev : BookEvent ℤ)
    (nse bse : BestQuote) : ArbOpportunity × ReplayState :=
  (s.onBookEvent item ev).announce (evaluate cfg.strategy nse bse cfg.costs ev.tsIngestNs)

/-- The books of both exchanges are quoted for an event. -/
def Quoted (s : ReplayState) (ev : BookEvent ℤ) : Prop :=
  (s.gateway.books.quote .nse ev.instrumentId ev.tsIngestNs).isSome = true ∧
    (s.gateway.books.quote .bse ev.instrumentId ev.tsIngestNs).isSome = true

/-- A feed of an event's instrument is not healthy. -/
def Unhealthy (s : ReplayState) (ev : BookEvent ℤ) : Prop :=
  ¬ s.md.health.isHealthy .nse ev.instrumentId = true ∨
    ¬ s.md.health.isHealthy .bse ev.instrumentId = true

instance (s : ReplayState) (ev : BookEvent ℤ) : Decidable (s.Quoted ev) :=
  inferInstanceAs (Decidable (_ ∧ _))

instance (s : ReplayState) (ev : BookEvent ℤ) : Decidable (s.Unhealthy ev) :=
  inferInstanceAs (Decidable (_ ∨ _))

/-- The row of a turn that finds quotes of both exchanges and a feed that is not healthy. -/
def alarm (s : ReplayState) (ev : BookEvent ℤ) : List RiskEvent :=
  if s.Quoted ev ∧ s.Unhealthy ev then
    [⟨ev.tsIngestNs, "HIGH", "UNHEALTHY_FEED", ev.instrumentId, "feed marked unsafe"⟩]
  else []

/-- The branches of a turn of `run_replay`. -/
inductive ItemCase (env : Env) (cfg : SimConfig) (maxTrades : ℤ) (s : ReplayState)
    (item : MdResult) : ReplayState → Prop
  | skip (h : item.event = none) : ItemCase env cfg maxTrades s item s
  | unquoted (ev : BookEvent ℤ) (h : item.event = some ev)
      (hnone : ¬ (s.onBookEvent item ev).Quoted ev) :
      ItemCase env cfg maxTrades s item (s.onBookEvent item ev)
  | unhealthy (ev : BookEvent ℤ) (h : item.event = some ev)
      (hquoted : (s.onBookEvent item ev).Quoted ev)
      (hhealth : (s.onBookEvent item ev).Unhealthy ev) :
      ItemCase env cfg maxTrades s item ((s.onBookEvent item ev).riskBlock ev.tsIngestNs "HIGH"
        "UNHEALTHY_FEED" ev.instrumentId "feed marked unsafe")
  | idle (ev : BookEvent ℤ) (nse bse : BestQuote) (h : item.event = some ev)
      (hquoted : (s.onBookEvent item ev).Quoted ev)
      (hhealth : ¬ (s.onBookEvent item ev).Unhealthy ev)
      (hno : ¬ (evaluate cfg.strategy nse bse cfg.costs ev.tsIngestNs).shouldTrade = true) :
      ItemCase env cfg maxTrades s item (s.onBookEvent item ev)
  | watched (ev : BookEvent ℤ) (nse bse : BestQuote) (h : item.event = some ev)
      (hquoted : (s.onBookEvent item ev).Quoted ev)
      (hhealth : ¬ (s.onBookEvent item ev).Unhealthy ev)
      (hno : ¬ (evaluate cfg.strategy nse bse cfg.costs ev.tsIngestNs).shouldTrade = true) :
      ItemCase env cfg maxTrades s item ((s.onBookEvent item ev).logOpportunity
        (evaluate cfg.strategy nse bse cfg.costs ev.tsIngestNs))
  | capped (ev : BookEvent ℤ) (nse bse : BestQuote) (h : Decides cfg s item ev nse bse)
      (hmax : maxTrades ≤ (s.opened cfg item ev nse bse).2.result.trades) :
      ItemCase env cfg maxTrades s item (s.opened cfg item ev nse bse).2
  | execute (ev : BookEvent ℤ) (nse bse : BestQuote) (h : Decides cfg s item ev nse bse)
      (htrades : (s.opened cfg item ev nse bse).2.result.trades < maxTrades) :
      ItemCase env cfg maxTrades s item
        ((s.opened cfg item ev nse bse).2.executeOpportunity env cfg ev.tsIngestNs
          (s.opened cfg item ev nse bse).1).countTrade

/-- **The branches of a turn** are those of the source. -/
theorem onItem_case (env : Env) (cfg : SimConfig) (maxTrades : ℤ) (s : ReplayState)
    (item : MdResult) : ItemCase env cfg maxTrades s item (s.onItem env cfg maxTrades item) := by
  unfold onItem
  cases hev : item.event with
  | none => exact .skip hev
  | some ev =>
    dsimp only
    split
    · next nse bse hnse hbse =>
      have hquoted : (s.onBookEvent item ev).Quoted ev := by
        rw [Quoted, hnse, hbse]
        exact ⟨rfl, rfl⟩
      split_ifs with hhealth
      · exact .unhealthy ev hev hquoted hhealth
      · unfold tradeOn
        dsimp only
        by_cases htrade : (evaluate cfg.strategy nse bse cfg.costs ev.tsIngestNs).shouldTrade = true
        · rw [if_neg (not_not.2 htrade)]
          have hmd : (s.onBookEvent item ev).md = s.md := (quiet_onBookEvent item ev).1.md
          rw [hmd] at hhealth
          have hdecides : Decides cfg s item ev nse bse :=
            ⟨hev, hnse, hbse, by simpa using hhealth, htrade⟩
          split_ifs with hmax
          · exact .capped ev nse bse hdecides hmax
          · exact .execute ev nse bse hdecides (not_le.1 hmax)
        · rw [if_pos htrade]
          split_ifs
          · exact .watched ev nse bse hev hquoted hhealth htrade
          · exact .idle ev nse bse hev hquoted hhealth htrade
    · next hnone =>
      refine .unquoted ev hev fun hquoted => ?_
      obtain ⟨nse, hnse⟩ := Option.isSome_iff_exists.1 hquoted.1
      obtain ⟨bse, hbse⟩ := Option.isSome_iff_exists.1 hquoted.2
      exact hnone nse bse hnse hbse

/-- Decisions to trade are made on healthy feeds. -/
theorem Decides.not_unhealthy {ev : BookEvent ℤ} {nse bse : BestQuote}
    (h : Decides cfg s item ev nse bse) : ¬ (s.onBookEvent item ev).Unhealthy ev := by
  have hmd : (s.onBookEvent item ev).md = s.md := (quiet_onBookEvent item ev).1.md
  rw [Unhealthy, hmd, h.healthy.1, h.healthy.2]
  simp

/-- After the event was handled the turn wrote nothing but log rows, counters and ids. -/
structure Noted (ev : BookEvent ℤ) (s s' : ReplayState) : Prop where
  md : s'.md = s.md
  gateway : s'.gateway = s.gateway
  risk : s'.risk = s.risk
  oms : s'.oms = s.oms
  ids : s.ids.parentSeq ≤ s'.ids.parentSeq
  logs : s'.logs.fills = s.logs.fills ∧ s'.logs.pairs = s.logs.pairs
  risks : s'.logs.risks = s.logs.risks ++ s.alarm ev
  trace : s'.trace = s.trace

/-- What a turn of `run_replay` does with an item. -/
inductive ItemTurn (env : Env) (cfg : SimConfig) (maxTrades : ℤ) (s : ReplayState)
    (item : MdResult) : ReplayState → Prop
  | skip (h : item.event = none) : ItemTurn env cfg maxTrades s item s
  | watch {s' : ReplayState} (ev : BookEvent ℤ) (h : item.event = some ev)
      (hnoted : Noted ev (s.onBookEvent item ev) s') : ItemTurn env cfg maxTrades s item s'
  | execute (ev : BookEvent ℤ) (nse bse : BestQuote) (h : Decides cfg s item ev nse bse)
      (htrades : (s.opened cfg item ev nse bse).2.result.trades < maxTrades) :
      ItemTurn env cfg maxTrades s item
        ((s.opened cfg item ev nse bse).2.executeOpportunity env cfg ev.tsIngestNs
          (s.opened cfg item ev nse bse).1).countTrade

theorem Noted.refl {ev : BookEvent ℤ} (h : s.alarm ev = []) : Noted ev s s :=
  ⟨rfl, rfl, rfl, rfl, le_rfl, ⟨rfl, rfl⟩, by rw [h, List.append_nil], rfl⟩

theorem ItemCase.itemTurn (h : ItemCase env cfg maxTrades s item s') :
    ItemTurn env cfg maxTrades s item s' := by
  have hcalm : ∀ ev, ¬ (s.onBookEvent item ev).Unhealthy ev →
      (s.onBookEvent item ev).alarm ev = [] := fun ev hhealth => if_neg fun h => hhealth h.2
  have hrisks : ∀ ev, ¬ (s.onBookEvent item ev).Unhealthy ev → (s.onBookEvent item ev).logs.risks =
      (s.onBookEvent item ev).logs.risks ++ (s.onBookEvent item ev).alarm ev := by
    intro ev hhealth
    rw [hcalm ev hhealth, List.append_nil]
  cases h with
  | skip h => exact .skip h
  | unquoted ev h hnone => exact .watch ev h (.refl (if_neg fun h => hnone h.1))
  | unhealthy ev h hquoted hhealth =>
    refine .watch ev h ⟨rfl, rfl, rfl, rfl, le_rfl, ⟨rfl, rfl⟩, ?_, rfl⟩
    rw [alarm, if_pos ⟨hquoted, hhealth⟩]
    rfl
  | idle ev nse bse h hquoted hhealth hno => exact .watch ev h (.refl (hcalm ev hhealth))
  | watched ev nse bse h hquoted hhealth hno =>
    exact .watch ev h ⟨rfl, rfl, rfl, rfl, le_rfl, ⟨rfl, rfl⟩, hrisks ev hhealth, rfl⟩
  | capped ev nse bse h hmax =>
    exact .watch ev h.event
      ⟨rfl, rfl, rfl, rfl, Nat.le_succ _, ⟨rfl, rfl⟩, hrisks ev h.not_unhealthy, rfl⟩
  | execute ev nse bse h htrades => exact .execute ev nse bse h htrades

/-- **How an execution comes about.** -/
theorem onItem_itemTurn (env : Env) (cfg : SimConfig) (maxTrades : ℤ) (s : ReplayState)
    (item : MdResult) : ItemTurn env cfg maxTrades s item (s.onItem env cfg maxTrades item) :=
  (onItem_case env cfg maxTrades s item).itemTurn

theorem Decides.quoted {ev : BookEvent ℤ} {nse bse : BestQuote}
    (h : Decides cfg s item ev nse bse) : (s.onBookEvent item ev).Quoted ev := by
  rw [Quoted, h.nseQuote, h.bseQuote]
  exact ⟨rfl, rfl⟩

/-- Without quotes of both exchanges a turn handles the event and nothing else. -/
theorem onItem_unquoted {ev : BookEvent ℤ} (hev : item.event = some ev)
    (hnone : ¬ (s.onBookEvent item ev).Quoted ev) :
    s.onItem env cfg maxTrades item = s.onBookEvent item ev := by
  have hcase := onItem_case env cfg maxTrades s item
  generalize s.onItem env cfg maxTrades item = s' at hcase ⊢
  cases hcase with
  | skip h =>
    rw [h] at hev
    cases hev
  | unquoted ev' h => cases h.symm.trans hev; rfl
  | unhealthy ev' h hquoted => cases h.symm.trans hev; exact absurd hquoted hnone
  | idle ev' nse bse h hquoted => cases h.symm.trans hev; exact absurd hquoted hnone
  | watched ev' nse bse h hquoted => cases h.symm.trans hev; exact absurd hquoted hnone
  | capped ev' nse bse h => cases h.event.symm.trans hev; exact absurd h.quoted hnone
  | execute ev' nse bse h => cases h.event.symm.trans hev; exact absurd h.quoted hnone

/-- A turn without an event. -/
theorem onItem_none (h : item.event = none) : s.onItem env cfg maxTrades item = s := by
  unfold onItem
  rw [h]

/-- Where `run_replay` decides to trade it executes the opportunity, up to `max_trades`. -/
theorem onItem_decides {ev : BookEvent ℤ} {nse bse : BestQuote} (h : Decides cfg s item ev nse bse)
    (htrades : (s.opened cfg item ev nse bse).2.result.trades < maxTrades) :
    s.onItem env cfg maxTrades item =
      ((s.opened cfg item ev nse bse).2.executeOpportunity env cfg ev.tsIngestNs
        (s.opened cfg item ev nse bse).1).countTrade := by
  have hmd : (s.onBookEvent item ev).md = s.md := (quiet_onBookEvent item ev).1.md
  have hhealth : ¬ (¬ s.md.health.isHealthy .nse ev.instrumentId = true ∨
      ¬ s.md.health.isHealthy .bse ev.instrumentId = true) := by simp [h.healthy]
  unfold onItem
  simp only [h.event, h.nseQuote, h.bseQuote, hmd]
  rw [if_neg hhealth, tradeOn, if_neg (not_not.2 h.trade)]
  exact if_neg (not_le.2 htrades)

theorem Noted.quiet {ev : BookEvent ℤ} (h : Noted ev s s') : Quiet s s' :=
  ⟨h.md, fun hb => by rw [h.gateway]; exact hb, h.oms, h.risk, h.ids, h.logs, h.trace⟩

theorem ItemTurn.turn (h : ItemTurn env cfg maxTrades s item s') : Turn env cfg s s' := by
  cases h with
  | skip h => exact .quiet (.refl s)
  | watch ev h hnoted => exact .quiet ((quiet_onBookEvent item ev).1.trans hnoted.quiet)
  | execute ev nse bse h htrades =>
    have hopened := (quiet_onBookEvent (s := s) item ev).1.trans (quiet_announce
      (evaluate cfg.strategy nse bse cfg.costs ev.tsIngestNs))
    exact .execute ev.tsIngestNs _ hopened
      (congrArg (fun ids => ids.parentSeq + 1) (quiet_onBookEvent item ev).2) rfl

/-- The rows of risk events that a turn adds once the event is in its book: an alarm, or those of an
execution. -/
theorem ItemTurn.risks (h : ItemTurn env cfg maxTrades s item s') {ev : BookEvent ℤ}
    (hev : item.event = some ev) :
    AddsVerdicts ((s.onBookEvent item ev).logs.risks ++ (s.onBookEvent item ev).alarm ev)
      s'.logs.risks := by
  cases h with
  | skip h =>
    rw [h] at hev
    cases hev
  | watch ev' h hnoted =>
    cases h.symm.trans hev
    rw [hnoted.risks]
    exact .refl _
  | execute ev' nse bse h htrades =>
    cases h.event.symm.trans hev
    have halarm : (s.onBookEvent item ev).alarm ev = [] := if_neg fun ha => h.not_unhealthy ha.2
    rw [halarm, List.append_nil]
    exact (executed_steps env cfg ev.tsIngestNs (s.opened cfg item ev nse bse).2
      (s.opened cfg item ev nse bse).1).risks

/-- **The turn of an item.** -/
theorem onItem_turn (env : Env) (cfg : SimConfig) (maxTrades : ℤ) (s : ReplayState)
    (item : MdResult) : Turn env cfg s (s.onItem env cfg maxTrades item) :=
  (onItem_itemTurn env cfg maxTrades s item).turn

theorem Turn.md (h : Turn env cfg s s') : s'.md = s.md := by
  cases h with
  | quiet h => exact h.md
  | execute nowNs opp h hseq hparent => exact (executed_steps env cfg nowNs _ opp).md.trans h.md

/-! ### Runs -/

/-- A turn that goes on has handled an item. -/
theorem replayBody_item (h : s.replayBody env cfg maxTrades = .yield s') :
    ∃ item md, s.md.next = (some item, md) ∧
      ItemTurn env cfg maxTrades { s with md := md } item s' := by
  unfold replayBody at h
  split at h
  · cases h
  · next item md hnext =>
    cases h
    exact ⟨item, md, hnext, onItem_itemTurn env cfg maxTrades _ item⟩

/-- A turn that goes on has read an item and handled it. -/
theorem replayBody_yield (h : s.replayBody env cfg maxTrades = .yield s') :
    ∃ item md, s.md.next = (some item, md) ∧ md.reader.lines.length < s.md.reader.lines.length ∧
      Turn env cfg { s with md := md } s' := by
  obtain ⟨item, md, hnext, hturn⟩ := replayBody_item h
  exact ⟨item, md, hnext, MarketDataHandler.lines_next hnext, hturn.turn⟩

theorem replayBody_done (h : s.replayBody env cfg maxTrades = .done s') :
    ∃ md, s.md.next = (none, md) ∧ s' = { s with md := md } := by
  unfold replayBody at h
  split at h
  · next md hnext =>
    cases h
    exact ⟨md, hnext, rfl⟩
  · cases h

end ReplayState

namespace Simulator

open ReplayState

variable {sim : Simulator} {call : ReplayCall}

/-- The invariant rule: what holds at the start, of whatever the handler reads, and after every turn
holds at every point of the loop of `run_replay`. -/
theorem replayFor_induct {I : ReplayState → Prop} (hstart : I (sim.start call.lines))
    (hmd : ∀ s md, I s → I { s with md := md })
    (hturn : ∀ s s', I s → Turn call.env sim.cfg s s' → I s') (turns : ℕ) :
    I (sim.replayFor call turns) := by
  refine runLoop_induct (fun s s' hs hbody => ?_) (fun s t hs hbody => ?_) turns hstart
  · obtain ⟨item, md, -, -, ht⟩ := replayBody_yield hbody
    exact hturn _ s' (hmd s md hs) ht
  · obtain ⟨md, -, rfl⟩ := replayBody_done hbody
    exact hmd s md hs

/-- The invariant rule of `run_replay`, item by item. -/
theorem replayFor_items {I : ReplayState → Prop} (hstart : I (sim.start call.lines))
    (hdone : ∀ s md, I s → s.md.next = (none, md) → I { s with md := md })
    (hitem : ∀ s item md s', I s → s.md.next = (some item, md) →
      ItemTurn call.env sim.cfg call.maxTrades { s with md := md } item s' → I s') (turns : ℕ) :
    I (sim.replayFor call turns) := by
  refine runLoop_induct (fun s s' hs hbody => ?_) (fun s t hs hbody => ?_) turns hstart
  · obtain ⟨item, md, hnext, hturn⟩ := replayBody_item hbody
    exact hitem s item md s' hs hnext hturn
  · obtain ⟨md, hnext, rfl⟩ := replayBody_done hbody
    exact hdone s md hs hnext

/-- The invariant rule from some turn on. -/
theorem replayFor_from {I : ReplayState → Prop} {n m : ℕ} (h : n ≤ m)
    (hn : I (sim.replayFor call n))
    (hdone : ∀ s md, I s → s.md.next = (none, md) → I { s with md := md })
    (hitem : ∀ s item md s', I s → s.md.next = (some item, md) →
      ItemTurn call.env sim.cfg call.maxTrades { s with md := md } item s' → I s') :
    I (sim.replayFor call m) := by
  obtain ⟨k, rfl⟩ := Nat.exists_eq_add_of_le h
  unfold replayFor at hn ⊢
  rcases @runLoop_add _ (replayBody call.env sim.cfg call.maxTrades) n k
    (sim.start call.lines) with ⟨-, heq⟩ | heq
  · rw [heq]
    exact hn
  · rw [heq]
    refine runLoop_induct (fun s s' hs hbody => ?_) (fun s t hs hbody => ?_) k hn
    · obtain ⟨item, md, hnext, hturn⟩ := replayBody_item hbody
      exact hitem s item md s' hs hnext hturn
    · obtain ⟨md, hnext, rfl⟩ := replayBody_done hbody
      exact hdone s md hs hnext

/-- The next turn of a run that has not come to the end of its file. -/
theorem replayFor_succ {n : ℕ} {item : MdResult} {md : MarketDataHandler}
    (hnext : (sim.replayFor call n).md.next = (some item, md)) : sim.replayFor call (n + 1) =
      onItem call.env sim.cfg call.maxTrades { sim.replayFor call n with md := md } item := by
  unfold replayFor at hnext ⊢
  rcases @runLoop_add _ (replayBody call.env sim.cfg call.maxTrades) n 1
    (sim.start call.lines) with ⟨⟨u, hu⟩, -⟩ | heq
  · obtain ⟨md', hend, heq⟩ := replayBody_done hu
    rw [heq] at hnext
    rw [MarketDataHandler.next_ended hend] at hnext
    cases hnext
  · rw [heq, runLoop, replayBody, hnext]
    rfl

/-- The next turn of a run: an item has been read and handled, or there is none. -/
theorem replayFor_step (sim : Simulator) (call : ReplayCall) (n : ℕ) :
    (∃ item md, (sim.replayFor call n).md.next = (some item, md) ∧
      ItemTurn call.env sim.cfg call.maxTrades { sim.replayFor call n with md := md } item
        (sim.replayFor call (n + 1))) ∨
      ∃ md, sim.replayFor call (n + 1) = { sim.replayFor call n with md := md } := by
  rcases hnext : (sim.replayFor call n).md.next with ⟨_ | item, md⟩
  · right
    unfold replayFor at hnext ⊢
    rcases @runLoop_add _ (replayBody call.env sim.cfg call.maxTrades) n 1
      (sim.start call.lines) with ⟨-, heq⟩ | heq
    · exact ⟨_, heq⟩
    · refine ⟨md, ?_⟩
      rw [heq, runLoop, replayBody, hnext]
  · refine Or.inl ⟨item, md, rfl, ?_⟩
    rw [replayFor_succ hnext]
    exact onItem_itemTurn _ _ _ _ item

/-- A run reads its file to the end: it never stops for want of turns. -/
theorem replay_ends (sim : Simulator) (call : ReplayCall) :
    Ends (replayBody call.env sim.cfg call.maxTrades) (sim.start call.lines)
      (sim.runReplay call) := by
  refine runLoop_ends (I := fun _ => True) (μ := fun s => s.md.reader.lines.length)
    (fun _ _ _ _ => trivial) (fun s s' _ hbody => ?_) trivial (Nat.lt_succ_self _)
  obtain ⟨item, md, -, hlt, hturn⟩ := replayBody_yield hbody
  rw [hturn.md]
  exact hlt

end Simulator

end Hft
