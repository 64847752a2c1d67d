import HftArb.Md.FeedLoss
import HftArb.Sim.Opening
import HftArb.Sim.PacketRun

/-!
# Two runs of one simulator

`run_replay` starts with new positions, orders and feed health, but with the books that the last run
left.  A book exists as soon as an event of its venue and instrument has been delivered
(`hasBook_packets`), so in a second run of the same file the first event of an instrument with events
from both venues finds both books and only one feed: a row `UNHEALTHY_FEED` that the first run does
not write (`lt_alarms`).  Without such an instrument nothing is ever quoted at both venues and both
runs write the same (`sameOutcome_iff`).
-/

namespace Hft

open Transition
open Std (ExtTreeMap)

/-! ### Delivered events -/

/-- The events that the handler delivers from a stream of packets. -/
def MarketDataHandler.events : MarketDataHandler → List RawPacket → List (BookEvent ℤ)
  | _, [] => []
  | h, pkt :: packets =>
      (h.onPacket pkt).1.event.toList ++ events (h.onPacket pkt).2 packets

/-- The events that a new handler delivers from a file. -/
def deliveredEvents (lines : List Bytes) : List (BookEvent ℤ) :=
  (MarketDataHandler.ofLines lines).unread.events (packetsOf lines false)

/-- The file has events of the instrument from both exchanges. -/
def BothVenues (lines : List Bytes) (i : ℕ) : Prop :=
  (∃ ev ∈ deliveredEvents lines, ev.venue = .nse ∧ ev.instrumentId = i) ∧
    ∃ ev ∈ deliveredEvents lines, ev.venue = .bse ∧ ev.instrumentId = i

/-- What `run_replay` returns and logs, less the stamps of the wall clock. -/
structure SameOutcome (s s' : ReplayState) : Prop where
  result : s'.result = s.result
  opportunities : s'.logs.opportunities = s.logs.opportunities
  intents : s'.logs.orders.map Order.intent = s.logs.orders.map Order.intent
  fills : s'.logs.fills.map (FillRow.stamped fun _ => 0) =
    s.logs.fills.map (FillRow.stamped fun _ => 0)
  risks : s'.logs.risks = s.logs.risks

/-! ### Which books exist -/

/-- There is a book of the venue and instrument. -/
def BookManager.Has (m : BookManager) (v : Venue) (i : ℕ) : Prop := (m.book v i).isSome = true

namespace BookManager

variable {m : BookManager} {v v' : Venue} {i i' : ℕ}

theorem has_onEvent (ev : BookEvent ℤ) :
    (m.onEvent ev).Has v i ↔ m.Has v i ∨ (ev.venue = v ∧ ev.instrumentId = i) := by
  unfold Has BookManager.onEvent
  rw [book_setBook]
  split_ifs with hkey
  · simp [hkey]
  · simp [hkey]

theorem has_send (env : Env) (g : MatchingEngine) (order : Order) :
    (g.send env order).2.books.Has v i ↔ g.books.Has v i := by
  have hsending := MatchingEngine.send_sending env g order
  generalize g.send env order = res at hsending ⊢
  cases hsending with
  | reject ts hrefusal => exact Iff.rfl
  | @matched b ts hdisc hrole hbook =>
    unfold Has
    dsimp only
    rw [book_setBook]
    split_ifs with hkey
    · obtain ⟨rfl, rfl⟩ := hkey
      simp [hbook]
    · exact Iff.rfl

end BookManager

namespace Execution

variable {env : Env} {nowNs : ℕ} {x x' : Execution} {v : Venue} {i : ℕ}

/-- An execution opens no book. -/
theorem Steps.hasBook (h : Steps env nowNs x x') :
    x'.run.gateway.books.Has v i ↔ x.run.gateway.books.Has v i := by
  induction h with
  | refl => exact Iff.rfl
  | tail _ hstep ih =>
    refine Iff.trans ?_ ih
    cases hstep with
    | quiet hq => rw [hq.gateway]
    | submit intent hclear => exact BookManager.has_send env _ _

end Execution

namespace ReplayState

variable (env : Env) (cfg : SimConfig) (maxTrades : ℤ) {s : ReplayState} {v : Venue} {i : ℕ}

theorem hasBook_onItem (s : ReplayState) (item : MdResult) :
    (s.onItem env cfg maxTrades item).gateway.books.Has v i ↔
      s.gateway.books.Has v i ∨ ∃ ev, item.event = some ev ∧ ev.venue = v ∧ ev.instrumentId = i := by
  have hturn := onItem_itemTurn env cfg maxTrades s item
  have hopen : ∀ ev, item.event = some ev →
      ((s.onBookEvent item ev).gateway.books.Has v i ↔ s.gateway.books.Has v i ∨
        ∃ ev, item.event = some ev ∧ ev.venue = v ∧ ev.instrumentId = i) := by
    intro ev hev
    have hbooks : (s.onBookEvent item ev).gateway.books = s.gateway.books.onEvent ev := by
      unfold onBookEvent
      dsimp only
      split_ifs <;> rfl
    rw [hbooks, BookManager.has_onEvent, hev]
    simp
  generalize s.onItem env cfg maxTrades item = s' at hturn ⊢
  cases hturn with
  | skip h => simp [h]
  | watch ev h hnoted =>
    rw [hnoted.gateway]
    exact hopen ev h
  | execute ev nse bse h htrades =>
    have hsteps := executed_steps env cfg ev.tsIngestNs (s.opened cfg item ev nse bse).2
      (s.opened cfg item ev nse bse).1
    exact hsteps.hasBook.trans (hopen ev h.event)

/-- **Which books exist**: those from before and those of the events delivered since. -/
theorem hasBook_packets (packets : List RawPacket) (s : ReplayState) :
    (packets.foldl (ReplayState.onPacket env cfg maxTrades) s).gateway.books.Has v i ↔
      s.gateway.books.Has v i ∨
        ∃ ev ∈ s.md.events packets, ev.venue = v ∧ ev.instrumentId = i := by
  induction packets generalizing s with
  | nil => simp [MarketDataHandler.events]
  | cons pkt packets ih =>
    have hmd : (s.onPacket env cfg maxTrades pkt).md = (s.md.onPacket pkt).2 :=
      (onItem_turn env cfg maxTrades _ _).md
    have hone := hasBook_onItem env cfg maxTrades (v := v) (i := i)
      { s with md := (s.md.onPacket pkt).2 } (s.md.onPacket pkt).1
    rw [List.foldl_cons, ih, hmd, MarketDataHandler.events]
    rw [show (s.onPacket env cfg maxTrades pkt).gateway.books.Has v i ↔ _ from hone]
    simp only [List.mem_append, Option.mem_toList, or_and_right, exists_or, or_assoc]

end ReplayState

/-! ### Rows of unhealthy feeds -/

/-- The rows that report an unhealthy feed. -/
def ReplayState.alarms (s : ReplayState) : ℕ :=
  s.logs.risks.countP fun r => r.ruleName = "UNHEALTHY_FEED"

theorem RiskEngine.rule_ne_unhealthy {e : RiskEngine} {positions : PositionBook} {o : OrderIntent}
    {q : BestQuote} {nowNs : ℕ} :
    (e.checkOrder positions o q nowNs).1.rule ≠ "UNHEALTHY_FEED" := by
  have hstatic : ∀ rd ∈ e.staticBlock id positions o q, rd.rule ≠ "UNHEALTHY_FEED" := by
    unfold RiskEngine.staticBlock
    iterate 9 refine forall_mem_ite_some (by simp [RiskDecision.block]) ?_
    simp
  rw [rule_checkOrder]
  split
  · next rd hrd => exact hstatic rd hrd
  · split_ifs <;> decide

theorem nextOrder_reason_ne (cfg : RiskConfig) (p : PairTrade) (nse bse : BestQuote) :
    (nextOrder cfg p nse bse).reason ≠ "UNHEALTHY_FEED" := by
  have hcand : ∀ v q, (candidateForVenue cfg p v q).reason ≠ "UNHEALTHY_FEED" := by
    intro v q
    unfold candidateForVenue
    dsimp only
    split_ifs <;> simp
  unfold nextOrder
  generalize (if p.residual > 0 then p.intendedSellVenue else p.intendedBuyVenue) = preferred
  dsimp only
  split_ifs
  · decide
  · decide
  · exact hcand _ _
  · exact hcand _ _
  · decide

namespace ReplayState

theorem alarms_riskBlock (s : ReplayState) (ts : ℕ) (severity rule : String) (i : ℕ)
    (details : String) : (s.riskBlock ts severity rule i details).alarms =
      s.alarms + if rule = "UNHEALTHY_FEED" then 1 else 0 := by
  unfold alarms riskBlock
  dsimp only
  rw [List.countP_append, List.countP_singleton]
  simp only [decide_eq_true_eq]

end ReplayState

theorem VerdictRule.ne_unhealthy {rule : String} (h : VerdictRule rule) :
    rule ≠ "UNHEALTHY_FEED" := by
  rcases h with ⟨e, positions, o, q, nowNs, rfl⟩ | ⟨cfg, p, nse, bse, rfl⟩
  · exact RiskEngine.rule_ne_unhealthy
  · exact nextOrder_reason_ne cfg p nse bse

/-- Rows of verdicts report no feed. -/
theorem AddsVerdicts.countP_unhealthy {rows rows' : List RiskEvent} (h : AddsVerdicts rows rows') :
    rows'.countP (fun r => r.ruleName = "UNHEALTHY_FEED") =
      rows.countP fun r => r.ruleName = "UNHEALTHY_FEED" := by
  obtain ⟨new, rfl, hnew⟩ := h
  have hnone : new.countP (fun r => r.ruleName = "UNHEALTHY_FEED") = 0 :=
    List.countP_eq_zero.2 fun r hr => by simpa using (hnew r hr).ne_unhealthy
  rw [List.countP_append, hnone, Nat.add_zero]

namespace ReplayState

variable {env : Env} {cfg : SimConfig} {maxTrades : ℤ} {s : ReplayState} {item : MdResult}

/-- The turn of an event finds a book of both exchanges and a feed that is not healthy. -/
def Alarming (s : ReplayState) (item : MdResult) : Prop :=
  ∃ ev, item.event = some ev ∧
    (s.gateway.books.onEvent ev).Has .nse ev.instrumentId ∧
    (s.gateway.books.onEvent ev).Has .bse ev.instrumentId ∧
    (s.md.health.isHealthy .nse ev.instrumentId = false ∨
      s.md.health.isHealthy .bse ev.instrumentId = false)

/-- The quotes of a turn are those of the books there are. -/
theorem quoted_onBookEvent {ev : BookEvent ℤ} : (s.onBookEvent item ev).Quoted ev ↔
    (s.gateway.books.onEvent ev).Has .nse ev.instrumentId ∧
      (s.gateway.books.onEvent ev).Has .bse ev.instrumentId := by
  unfold Quoted BookManager.quote BookManager.Has
  rw [gateway_onBookEvent, Option.isSome_map, Option.isSome_map]

theorem alarming_iff {ev : BookEvent ℤ} (hev : item.event = some ev) : s.Alarming item ↔
    (s.onBookEvent item ev).Quoted ev ∧ (s.onBookEvent item ev).Unhealthy ev := by
  have hmd : (s.onBookEvent item ev).md = s.md := (quiet_onBookEvent item ev).1.md
  rw [quoted_onBookEvent, Unhealthy, hmd, Bool.not_eq_true, Bool.not_eq_true, and_assoc]
  constructor
  · rintro ⟨ev', h, hall⟩
    rw [hev] at h
    cases h
    exact hall
  · intro hall
    exact ⟨ev, hev, hall⟩

open Classical in
/-- The row of a turn that finds a feed unhealthy. -/
theorem countP_alarm {ev : BookEvent ℤ} (hev : item.event = some ev) :
    ((s.onBookEvent item ev).alarm ev).countP (fun r => r.ruleName = "UNHEALTHY_FEED") =
      if s.Alarming item then 1 else 0 := by
  simp only [alarm, alarming_iff hev]
  split_ifs
  · simp
  · rfl

open Classical in
/-- **The rows of a turn.** -/
theorem alarms_onItem (env : Env) (cfg : SimConfig) (maxTrades : ℤ) (s : ReplayState)
    (item : MdResult) : (s.onItem env cfg maxTrades item).alarms =
      s.alarms + if s.Alarming item then 1 else 0 := by
  cases hev : item.event with
  | none =>
    have hno : ¬ s.Alarming item := by
      rintro ⟨ev, h, -⟩
      rw [hev] at h
      cases h
    rw [onItem_none hev, if_neg hno]
    rfl
  | some ev =>
    have hbefore : (s.onBookEvent item ev).alarms = s.alarms := by
      unfold onBookEvent
      dsimp only
      split_ifs
      · rw [alarms_riskBlock, if_neg (by decide)]
        rfl
      · rfl
    have hrows := ((onItem_itemTurn env cfg maxTrades s item).risks hev).countP_unhealthy
    rw [List.countP_append, countP_alarm hev] at hrows
    rw [← hbefore]
    exact hrows

/-! ### The second run against the first -/

/-- Two runs at the same packet, the second with at least the books of the first. -/
structure Behind (s s' : ReplayState) : Prop where
  md : s'.md = s.md
  books : ∀ v i, s.gateway.books.Has v i → s'.gateway.books.Has v i

section Behind

variable {s' : ReplayState} (h : Behind s s')

include h

theorem Behind.packets (env env' : Env) (cfg : SimConfig) (maxTrades : ℤ)
    (packets : List RawPacket) :
    Behind (packets.foldl (ReplayState.onPacket env cfg maxTrades) s)
      (packets.foldl (ReplayState.onPacket env' cfg maxTrades) s') := by
  refine ⟨?_, fun v i hhas => ?_⟩
  · rw [md_packets, md_packets, h.md]
  · rw [hasBook_packets] at hhas ⊢
    rw [h.md]
    exact hhas.imp_left (h.books v i)

theorem Behind.alarming (pkt : RawPacket)
    (hs : ({ s with md := (s.md.onPacket pkt).2 } : ReplayState).Alarming (s.md.onPacket pkt).1) :
    ({ s' with md := (s'.md.onPacket pkt).2 } : ReplayState).Alarming (s'.md.onPacket pkt).1 := by
  obtain ⟨ev, hev, hnse, hbse, hhealth⟩ := hs
  have hmono : ∀ v i, (s.gateway.books.onEvent ev).Has v i →
      (s'.gateway.books.onEvent ev).Has v i := by
    intro v i
    rw [BookManager.has_onEvent, BookManager.has_onEvent]
    exact Or.imp_left (h.books v i)
  rw [h.md]
  exact ⟨ev, hev, hmono _ _ hnse, hmono _ _ hbse, hhealth⟩

/-- Packet by packet, the second run reports at least as many unhealthy feeds. -/
theorem Behind.alarms_le (env env' : Env) (cfg : SimConfig) (maxTrades : ℤ)
    (packets : List RawPacket) :
    (packets.foldl (ReplayState.onPacket env cfg maxTrades) s).alarms + s'.alarms ≤
      (packets.foldl (ReplayState.onPacket env' cfg maxTrades) s').alarms + s.alarms := by
  classical
  induction packets generalizing s s' with
  | nil => exact (Nat.add_comm _ _).le
  | cons pkt packets ih =>
    have hnext : Behind (s.onPacket env cfg maxTrades pkt) (s'.onPacket env' cfg maxTrades pkt) :=
      h.packets env env' cfg maxTrades [pkt]
    have hih := ih hnext
    have hone := alarms_onItem env cfg maxTrades { s with md := (s.md.onPacket pkt).2 }
      (s.md.onPacket pkt).1
    have htwo := alarms_onItem env' cfg maxTrades { s' with md := (s'.md.onPacket pkt).2 }
      (s'.md.onPacket pkt).1
    change (s.onPacket env cfg maxTrades pkt).alarms = s.alarms + _ at hone
    change (s'.onPacket env' cfg maxTrades pkt).alarms = s'.alarms + _ at htwo
    rw [List.foldl_cons, List.foldl_cons]
    split_ifs at hone htwo with hs hs' hs'
    · omega
    · exact absurd (h.alarming pkt hs) hs'
    · omega
    · omega

end Behind

end ReplayState

/-! ### The first event of an instrument -/

theorem instrumentId_parse {pkt : RawPacket} {ev : BookEvent ℤ} (h : parse pkt = some ev) :
    ev.instrumentId < 2 ^ 32 := by
  unfold parse at h
  dsimp only at h
  split_ifs at h
  cases h
  exact toUint32_lt _

namespace MarketDataHandler

variable {h : MarketDataHandler} {v : Venue} {i : ℕ}

theorem event_onPacket {pkt : RawPacket} {ev : BookEvent ℤ}
    (hev : (h.onPacket pkt).1.event = some ev) : parse pkt = some ev := by
  have hhandled := onPacket_handled h pkt
  generalize h.onPacket pkt = res at hhandled hev
  cases hhandled with
  | duplicate hdup => cases hev
  | unparsed hdup hparse => cases hev
  | gap hgap hparse =>
    cases hev
    exact hparse
  | accepted hdup hgap hparse =>
    cases hev
    exact hparse

/-- A feed whose event is not delivered stays unknown. -/
theorem unknown_onPacket (hi : i < 2 ^ 32) (hnone : h.health.state v i = none) {pkt : RawPacket}
    (hno : ∀ ev, (h.onPacket pkt).1.event = some ev → ¬ (ev.venue = v ∧ ev.instrumentId = i)) :
    (h.onPacket pkt).2.health.state v i = none := by
  have hset : ∀ (ev : BookEvent ℤ) (st : FeedState), parse pkt = some ev →
      ¬ (ev.venue = v ∧ ev.instrumentId = i) →
      (h.health.setState ev.venue ev.instrumentId st).state v i = none := by
    intro ev st hparse hne
    rw [FeedHealth.state_setState _ (instrumentId_parse hparse) hi, if_neg, hnone]
    exact fun heq => hne (Prod.mk.inj heq)
  have hhandled := onPacket_handled h pkt
  generalize h.onPacket pkt = res at hhandled hno ⊢
  cases hhandled with
  | duplicate hdup => exact hnone
  | unparsed hdup hparse => exact hnone
  | gap hgap hparse => exact hset _ _ hparse (hno _ rfl)
  | accepted hdup hgap hparse => exact hset _ _ hparse (hno _ rfl)

theorem unknown_processed (hi : i < 2 ^ 32) (hnone : h.health.state v i = none)
    {packets : List RawPacket}
    (hno : ∀ ev ∈ h.events packets, ¬ (ev.venue = v ∧ ev.instrumentId = i)) :
    (h.processed packets).health.state v i = none := by
  induction packets generalizing h with
  | nil => exact hnone
  | cons pkt packets ih =>
    rw [events] at hno
    obtain ⟨hfirst, hrest⟩ := List.forall_mem_append.1 hno
    exact ih (unknown_onPacket hi hnone fun ev hev => hfirst ev (by simp [hev])) hrest

/-- The event of one feed does not make another healthy that has not been heard. -/
theorem not_healthy_of_unknown (hnone : h.health.state v i = none) {pkt : RawPacket}
    {ev : BookEvent ℤ} (hev : (h.onPacket pkt).1.event = some ev) (hi : ev.instrumentId = i)
    (hv : ev.venue ≠ v) : (h.onPacket pkt).2.health.isHealthy v i = false := by
  have hlt : i < 2 ^ 32 := hi ▸ instrumentId_parse (event_onPacket hev)
  have hstate : (h.onPacket pkt).2.health.state v i = none :=
    unknown_onPacket hlt hnone fun ev' hev' hkey => by
      rw [hev] at hev'
      cases hev'
      exact hv hkey.1
  unfold FeedHealth.isHealthy
  rw [hstate]

/-- The packet with the first event of an instrument. -/
theorem exists_first {packets : List RawPacket}
    (hex : ∃ ev ∈ h.events packets, ev.instrumentId = i) :
    ∃ pre pkt post ev, packets = pre ++ pkt :: post ∧
      (∀ ev' ∈ h.events pre, ev'.instrumentId ≠ i) ∧
      ((h.processed pre).onPacket pkt).1.event = some ev ∧ ev.instrumentId = i := by
  induction packets generalizing h with
  | nil => simp [events] at hex
  | cons pkt packets ih =>
    by_cases hfirst : ∃ ev, (h.onPacket pkt).1.event = some ev ∧ ev.instrumentId = i
    · obtain ⟨ev, hev, hinst⟩ := hfirst
      exact ⟨[], pkt, packets, ev, rfl, by simp [events], hev, hinst⟩
    · have hlater : ∃ ev ∈ (h.onPacket pkt).2.events packets, ev.instrumentId = i := by
        obtain ⟨ev, hev, hinst⟩ := hex
        rw [events, List.mem_append, Option.mem_toList] at hev
        rcases hev with hev | hev
        · exact absurd ⟨ev, hev, hinst⟩ hfirst
        · exact ⟨ev, hev, hinst⟩
      obtain ⟨pre, p, post, ev, rfl, hpre, hev, hinst⟩ := ih hlater
      refine ⟨pkt :: pre, p, post, ev, rfl, ?_, hev, hinst⟩
      rw [events]
      refine List.forall_mem_append.2 ⟨fun ev' hev' hinst' => ?_, hpre⟩
      exact hfirst ⟨ev', Option.mem_toList.1 hev', hinst'⟩

end MarketDataHandler

/-! ### Reruns -/

namespace ReplayState

variable {s s' : ReplayState} {pkt : RawPacket} {ev : BookEvent ℤ}

/-- The first event of an instrument without books does not find those of both exchanges. -/
theorem not_alarming_first (hev : (s.md.onPacket pkt).1.event = some ev)
    (hnobook : ∀ v, ¬ s.gateway.books.Has v ev.instrumentId) :
    ¬ ({ s with md := (s.md.onPacket pkt).2 } : ReplayState).Alarming (s.md.onPacket pkt).1 := by
  rintro ⟨ev', hev', hnse, hbse, -⟩
  rw [hev] at hev'
  cases hev'
  have hown : ∀ v, (s.gateway.books.onEvent ev).Has v ev.instrumentId → ev.venue = v := by
    intro v hhas
    rcases (BookManager.has_onEvent ev).1 hhas with hhas | hkey
    · exact absurd hhas (hnobook v)
    · exact hkey.1
  have hboth := (hown .nse hnse).symm.trans (hown .bse hbse)
  cases hboth

/-- The first event of an instrument with books of both exchanges finds one feed unheard. -/
theorem alarming_first (hev : (s.md.onPacket pkt).1.event = some ev)
    (hbooks : s.gateway.books.Has .nse ev.instrumentId ∧ s.gateway.books.Has .bse ev.instrumentId)
    (hunknown : ∀ v, s.md.health.state v ev.instrumentId = none) :
    ({ s with md := (s.md.onPacket pkt).2 } : ReplayState).Alarming (s.md.onPacket pkt).1 := by
  refine ⟨ev, hev, (BookManager.has_onEvent ev).2 (Or.inl hbooks.1),
    (BookManager.has_onEvent ev).2 (Or.inl hbooks.2), ?_⟩
  have hother : ∀ v, ev.venue ≠ v →
      (s.md.onPacket pkt).2.health.isHealthy v ev.instrumentId = false := fun v hv =>
    MarketDataHandler.not_healthy_of_unknown (hunknown v) hev rfl hv
  by_cases hv : ev.venue = .nse
  · exact Or.inr (hother .bse (by rw [hv]; decide))
  · exact Or.inl (hother .nse hv)

/-- From the first event of an instrument on, the second run is ahead by a row, if it has the books
of both exchanges from before. -/
theorem Behind.alarms_lt (env env' : Env) (cfg : SimConfig) (maxTrades : ℤ) (h : Behind s s')
    {pre : List RawPacket} (hnobook : ∀ v, ¬ s.gateway.books.Has v ev.instrumentId)
    (hold : s'.gateway.books.Has .nse ev.instrumentId ∧ s'.gateway.books.Has .bse ev.instrumentId)
    (hunknown : ∀ v i, s.md.health.state v i = none)
    (hpre : ∀ ev' ∈ s.md.events pre, ev'.instrumentId ≠ ev.instrumentId)
    (hev : ((s.md.processed pre).onPacket pkt).1.event = some ev) (post : List RawPacket) :
    ((pre ++ pkt :: post).foldl (ReplayState.onPacket env cfg maxTrades) s).alarms + s'.alarms <
      ((pre ++ pkt :: post).foldl (ReplayState.onPacket env' cfg maxTrades) s').alarms +
        s.alarms := by
  classical
  have hab := h.packets env env' cfg maxTrades pre
  have hbefore := h.alarms_le env env' cfg maxTrades pre
  have hbooks := fun v => hasBook_packets env cfg maxTrades (v := v) (i := ev.instrumentId) pre s
  have hbooks' := fun v => hasBook_packets env' cfg maxTrades (v := v) (i := ev.instrumentId) pre s'
  have hmd := md_packets env cfg maxTrades pre s
  rw [List.foldl_append, List.foldl_append, List.foldl_cons, List.foldl_cons]
  revert hab hbefore hbooks hbooks' hmd
  generalize pre.foldl (ReplayState.onPacket env cfg maxTrades) s = a
  generalize pre.foldl (ReplayState.onPacket env' cfg maxTrades) s' = b
  intro hab hbefore hbooks hbooks' hmd
  have hafter := (hab.packets env env' cfg maxTrades [pkt]).alarms_le env env' cfg maxTrades post
  have hone := alarms_onItem env cfg maxTrades { a with md := (a.md.onPacket pkt).2 }
    (a.md.onPacket pkt).1
  have htwo := alarms_onItem env' cfg maxTrades { b with md := (b.md.onPacket pkt).2 }
    (b.md.onPacket pkt).1
  change (a.onPacket env cfg maxTrades pkt).alarms = a.alarms + _ at hone
  change (b.onPacket env' cfg maxTrades pkt).alarms = b.alarms + _ at htwo
  rw [List.foldl_cons, List.foldl_nil, List.foldl_cons, List.foldl_nil] at hafter
  have hevent : (a.md.onPacket pkt).1.event = some ev := by rw [hmd]; exact hev
  have hevent' : (b.md.onPacket pkt).1.event = some ev := by rw [hab.md]; exact hevent
  have hi := instrumentId_parse (MarketDataHandler.event_onPacket hevent)
  -- the first run has no book of the instrument yet
  have hquiet := not_alarming_first hevent fun v hhas => by
    rcases (hbooks v).1 hhas with hhas | ⟨ev', hev', -, hinst⟩
    · exact hnobook v hhas
    · exact hpre ev' hev' hinst
  -- the second has both, and has heard of no feed
  have hloud := alarming_first hevent'
    ⟨(hbooks' .nse).2 (Or.inl hold.1), (hbooks' .bse).2 (Or.inl hold.2)⟩ fun v => by
      rw [hab.md, hmd]
      exact MarketDataHandler.unknown_processed hi (hunknown _ _)
        fun ev' hev' hkey => hpre ev' hev' hkey.2
  rw [if_neg hquiet] at hone
  rw [if_pos hloud] at htwo
  omega

/-- The turn is silent: no event is quoted at both exchanges. -/
def Silent (s : ReplayState) (events : List (BookEvent ℤ)) : Prop :=
  ∀ v i, s.gateway.books.Has v i → ∃ ev ∈ events, ev.venue = v ∧ ev.instrumentId = i

variable {env env' : Env} {cfg : SimConfig} {maxTrades : ℤ}

/-- Two runs write the same along packets that never lead to a quote of both exchanges. -/
theorem silent_packets (env env' : Env) (cfg : SimConfig) (maxTrades : ℤ)
    {events : List (BookEvent ℤ)}
    (hone : ∀ i, ¬ ((∃ ev ∈ events, ev.venue = .nse ∧ ev.instrumentId = i) ∧
      ∃ ev ∈ events, ev.venue = .bse ∧ ev.instrumentId = i)) (packets : List RawPacket)
    (hs : s.Silent events) (hs' : s'.Silent events) (hmd : s'.md = s.md)
    (hevents : ∀ ev ∈ s.md.events packets, ev ∈ events)
    (hsame : s'.logs = s.logs ∧ s'.result = s.result) :
    (packets.foldl (ReplayState.onPacket env' cfg maxTrades) s').logs =
        (packets.foldl (ReplayState.onPacket env cfg maxTrades) s).logs ∧
      (packets.foldl (ReplayState.onPacket env' cfg maxTrades) s').result =
        (packets.foldl (ReplayState.onPacket env cfg maxTrades) s).result := by
  induction packets generalizing s s' with
  | nil => exact hsame
  | cons pkt packets ih =>
    rw [MarketDataHandler.events] at hevents
    obtain ⟨hfirst, hrest⟩ := List.forall_mem_append.1 hevents
    have hkeep : ∀ (e : Env) {r : ReplayState}, r.Silent events → r.md = s.md →
        (r.onPacket e cfg maxTrades pkt).Silent events := by
      intro e r hr hrmd v i hhas
      have hone := (hasBook_packets e cfg maxTrades (v := v) (i := i) [pkt] r).1 hhas
      rcases hone with hhas | ⟨ev, hev, hkey⟩
      · exact hr v i hhas
      · rw [hrmd, MarketDataHandler.events, MarketDataHandler.events, List.append_nil] at hev
        exact ⟨ev, hfirst ev hev, hkey⟩
    have hmd' : (s'.onPacket env' cfg maxTrades pkt).md = (s.onPacket env cfg maxTrades pkt).md := by
      rw [md_onPacket, md_onPacket, hmd]
    refine ih (hkeep env hs rfl) (hkeep env' hs' hmd) hmd' (by rw [md_onPacket]; exact hrest) ?_
    unfold ReplayState.onPacket
    rw [hmd]
    dsimp only
    cases hev : (s.md.onPacket pkt).1.event with
    | none =>
      rw [onItem_none hev, onItem_none hev]
      exact hsame
    | some ev =>
      have hno : ∀ {r : ReplayState}, r.Silent events →
          ¬ ((r.gateway.books.onEvent ev).Has .nse ev.instrumentId ∧
            (r.gateway.books.onEvent ev).Has .bse ev.instrumentId) := by
        intro r hr hboth
        have hopen : ∀ v, (r.gateway.books.onEvent ev).Has v ev.instrumentId →
            ∃ ev' ∈ events, ev'.venue = v ∧ ev'.instrumentId = ev.instrumentId := by
          intro v hhas
          rcases (BookManager.has_onEvent ev).1 hhas with hhas | hkey
          · exact hr v _ hhas
          · exact ⟨ev, hfirst ev (by simp [hev]), hkey⟩
        exact hone ev.instrumentId ⟨hopen .nse hboth.1, hopen .bse hboth.2⟩
      rw [onItem_unquoted (s := { s with md := (s.md.onPacket pkt).2 }) hev
          (mt quoted_onBookEvent.1 (hno hs)),
        onItem_unquoted (s := { s' with md := (s.md.onPacket pkt).2 }) hev
          (mt quoted_onBookEvent.1 (hno hs'))]
      unfold onBookEvent riskBlock
      dsimp only
      rw [hsame.1, hsame.2]
      split_ifs <;> exact ⟨rfl, rfl⟩

end ReplayState

namespace Simulator

open ReplayState

/-- The second of two calls of `run_replay` on a new simulator, with the same arguments. -/
def secondRun (cfg : SimConfig) (env env' : Env) (lines : List Bytes) (maxTrades : ℤ) :
    ReplayState :=
  (({ cfg := cfg } : Simulator).afterRun ⟨env, lines, maxTrades⟩).runReplay ⟨env', lines, maxTrades⟩

/-- The first of them. -/
def firstRun (cfg : SimConfig) (env : Env) (lines : List Bytes) (maxTrades : ℤ) : ReplayState :=
  ({ cfg := cfg } : Simulator).runReplay ⟨env, lines, maxTrades⟩

variable {cfg : SimConfig} {env env' : Env} {lines : List Bytes} {maxTrades : ℤ}

theorem unread_firstRun : (firstRun cfg env lines maxTrades).unread = (packetsOf lines false).foldl
    (ReplayState.onPacket env cfg maxTrades) (({ cfg := cfg } : Simulator).start lines).unread :=
  runReplay_packets { cfg := cfg } ⟨env, lines, maxTrades⟩

theorem unread_secondRun : (secondRun cfg env env' lines maxTrades).unread =
    (packetsOf lines false).foldl (ReplayState.onPacket env' cfg maxTrades)
      ((({ cfg := cfg } : Simulator).afterRun ⟨env, lines, maxTrades⟩).start lines).unread :=
  runReplay_packets (({ cfg := cfg } : Simulator).afterRun ⟨env, lines, maxTrades⟩)
    ⟨env', lines, maxTrades⟩

theorem hasBook_firstRun {v : Venue} {i : ℕ} :
    (firstRun cfg env lines maxTrades).gateway.books.Has v i ↔
      ∃ ev ∈ deliveredEvents lines, ev.venue = v ∧ ev.instrumentId = i := by
  show (firstRun cfg env lines maxTrades).unread.gateway.books.Has v i ↔ _
  rw [unread_firstRun, hasBook_packets]
  have hempty : ¬ (({ cfg := cfg } : Simulator).start lines).unread.gateway.books.Has v i := by
    simp [BookManager.Has, BookManager.book, ReplayState.unread, start]
  exact or_iff_right hempty

/-- The rows the first run does not write. -/
theorem lt_alarms (cfg : SimConfig) (env env' : Env) (maxTrades : ℤ) {i : ℕ}
    (hboth : BothVenues lines i) :
    (firstRun cfg env lines maxTrades).alarms < (secondRun cfg env env' lines maxTrades).alarms := by
  classical
  have hevents : ∃ ev ∈ (MarketDataHandler.ofLines lines).unread.events (packetsOf lines false),
      ev.instrumentId = i := by
    obtain ⟨⟨ev, hev, -, hinst⟩, -⟩ := hboth
    exact ⟨ev, hev, hinst⟩
  obtain ⟨pre, pkt, post, ev, hsplit, hpre, hev, rfl⟩ := MarketDataHandler.exists_first hevents
  have hbehind : Behind (({ cfg := cfg } : Simulator).start lines).unread
      ((({ cfg := cfg } : Simulator).afterRun ⟨env, lines, maxTrades⟩).start lines).unread := by
    refine ⟨rfl, fun v i hhas => ?_⟩
    simp [BookManager.Has, BookManager.book, ReplayState.unread, start] at hhas
  have hnobook : ∀ v, ¬ (({ cfg := cfg } : Simulator).start lines).unread.gateway.books.Has v
      ev.instrumentId := by
    simp [BookManager.Has, BookManager.book, ReplayState.unread, start]
  have hlt := hbehind.alarms_lt env env' cfg maxTrades hnobook
    ⟨hasBook_firstRun.2 hboth.1, hasBook_firstRun.2 hboth.2⟩ (fun v i => rfl) hpre hev post
  rw [← hsplit, ← unread_firstRun, ← unread_secondRun] at hlt
  show (firstRun cfg env lines maxTrades).unread.alarms <
    (secondRun cfg env env' lines maxTrades).unread.alarms
  exact hlt

theorem sameOutcome_of_not_bothVenues (hno : ∀ i, ¬ BothVenues lines i) :
    SameOutcome (firstRun cfg env lines maxTrades) (secondRun cfg env env' lines maxTrades) := by
  have hfresh : (({ cfg := cfg } : Simulator).start lines).unread.Silent (deliveredEvents lines) := by
    intro v i hhas
    simp [BookManager.Has, BookManager.book, ReplayState.unread, start] at hhas
  have hold : ((({ cfg := cfg } : Simulator).afterRun ⟨env, lines, maxTrades⟩).start
      lines).unread.Silent (deliveredEvents lines) := fun v i hhas => hasBook_firstRun.1 hhas
  obtain ⟨hlogs, hresult⟩ := silent_packets env env' cfg maxTrades hno (packetsOf lines false)
    hfresh hold rfl (fun ev hev => hev) ⟨rfl, rfl⟩
  rw [← unread_firstRun, ← unread_secondRun] at hlogs hresult
  change (secondRun cfg env env' lines maxTrades).logs = (firstRun cfg env lines maxTrades).logs
    at hlogs
  exact ⟨hresult, by rw [hlogs], by rw [hlogs], by rw [hlogs], by rw [hlogs]⟩

/-- **Reruns are reproducible** exactly for files without events of one instrument from both
exchanges, whatever the configuration, the clocks and the walks of both runs. -/
theorem sameOutcome_iff (cfg : SimConfig) (env env' : Env) (lines : List Bytes) (maxTrades : ℤ) :
    SameOutcome (firstRun cfg env lines maxTrades) (secondRun cfg env env' lines maxTrades) ↔
      ∀ i, ¬ BothVenues lines i := by
  constructor
  · intro hsame i hboth
    have hlt := lt_alarms cfg env env' maxTrades hboth
    have heq : (secondRun cfg env env' lines maxTrades).alarms =
        (firstRun cfg env lines maxTrades).alarms := by
      unfold ReplayState.alarms
      rw [hsame.risks]
    omega
  · exact sameOutcome_of_not_bothVenues

/-- One order at each exchange. -/
def twoVenues : List Bytes :=
  ["1,1,NSE,1,1,ADD,1,1,ADD,1,BUY,120,100", "1,2,BSE,1,1,ADD,1,1,ADD,2,SELL,130,100"].map String.toList

/-- The second run of a file with one order at each exchange reports an unhealthy feed. -/
theorem not_sameOutcome_twoVenues :
    ¬ SameOutcome (firstRun {} ⟨fun _ => 0, fun _ => .byId⟩ twoVenues 1)
      (secondRun {} ⟨fun _ => 0, fun _ => .byId⟩ ⟨fun _ => 0, fun _ => .byId⟩ twoVenues 1) := by
  have hone : (firstRun {} ⟨fun _ => 0, fun _ => .byId⟩ twoVenues 1).logs.risks = [] := by
    decide +kernel
  have htwo : (secondRun {} ⟨fun _ => 0, fun _ => .byId⟩ ⟨fun _ => 0, fun _ => .byId⟩ twoVenues
      1).logs.risks = [⟨1, "HIGH", "UNHEALTHY_FEED", 1, "feed marked unsafe"⟩] := by
    decide +kernel
  intro hsame
  have hrisks := hsame.risks
  rw [hone, htwo] at hrisks
  cases hrisks

end Simulator

end Hft
