import HftArb.Book.Isolation
import HftArb.Sim.Rerun

/-!
# Two clocks of one book

A book and its feed each keep the time of their last event, the one in `OrderBook::last_update_ns_`
and the other in `FeedState::last_event_ns`.  After events that were all accepted both hold the time
of the last one (`lastUpdate_packets`, `lastEvent_processed`), and the two ages that are computed
from it are the same, however the clocks run.  But 0 is not a time: the feed calls its age unknown
and returns `UINT32_MAX`, and the quote is 0 microseconds old (`ages_agree_iff`).
-/

namespace Hft

open Transition

/-! ### Events of a feed -/

/-- What `next` returns for a stream of packets. -/
def MarketDataHandler.results : MarketDataHandler → List RawPacket → List MdResult
  | _, [] => []
  | h, pkt :: packets => (h.onPacket pkt).1 :: results (h.onPacket pkt).2 packets

/-- The events of a venue and instrument. -/
def feedEvents (v : Venue) (i : ℕ) (results : List MdResult) : List (BookEvent ℤ) :=
  (results.filterMap MdResult.event).filter fun ev => ev.venue = v ∧ ev.instrumentId = i

/-- The events of the venue and instrument were all delivered with status `Ok` or `Reset`. -/
def AcceptedOnly (v : Venue) (i : ℕ) (results : List MdResult) : Prop :=
  ∀ r ∈ results, ∀ ev, r.event = some ev → ev.venue = v ∧ ev.instrumentId = i →
    r.sequenceStatus = .ok ∨ r.sequenceStatus = .reset

/-- The time of arrival of the last event. -/
def lastStamp (v : Venue) (i : ℕ) (results : List MdResult) : Option ℕ :=
  (feedEvents v i results).getLast?.map BookEvent.tsIngestNs

section Stamp

variable {v : Venue} {i : ℕ} {r : MdResult} {ev : BookEvent ℤ}

theorem lastStamp_cons (r : MdResult) (results : List MdResult) :
    lastStamp v i (r :: results) = (lastStamp v i results).or (lastStamp v i [r]) := by
  have hevents : feedEvents v i (r :: results) = feedEvents v i [r] ++ feedEvents v i results := by
    unfold feedEvents
    rw [← List.filter_append, ← List.filterMap_append, List.singleton_append]
  unfold lastStamp
  rw [hevents, List.getLast?_append, Option.map_or]

theorem lastStamp_none (h : r.event = none) : lastStamp v i [r] = none := by
  simp [lastStamp, feedEvents, h]

theorem lastStamp_some (h : r.event = some ev) : lastStamp v i [r] =
    if ev.venue = v ∧ ev.instrumentId = i then some ev.tsIngestNs else none := by
  unfold lastStamp feedEvents
  rw [List.filterMap_cons_some h, List.filterMap_nil]
  split_ifs with hkey
  · rw [List.filter_cons_of_pos (by simpa using hkey)]
    rfl
  · rw [List.filter_cons_of_neg (by simpa using hkey)]
    rfl

end Stamp

/-! ### The clock of a book -/

/-- Matching does not touch the clock. -/
theorem OrderBook.lastUpdateNs_matchIoc (b : OrderBook ℤ) (walk : WalkOrder ℤ) (aggressor : Side)
    (limitPx qty : ℤ) :
    (b.matchIoc walk aggressor limitPx qty).1.lastUpdateNs = b.lastUpdateNs := by
  unfold matchIoc
  split_ifs with hbad
  · rfl
  · refine runLoop_induct (I := fun s : MatchState ℤ => s.book.lastUpdateNs = b.lastUpdateNs)
      (fun s s' hs hbody => ?_) (fun s t hs hbody => ?_) _ rfl
    · obtain ⟨px, level, -, -, -, rfl⟩ := matchBody_yield hbody
      exact header_removeFromLevel.2.2.trans hs
    · rw [matchBody_done hbody]
      exact hs

namespace BookManager

/-- The time of the last event of a book. -/
def lastUpdate (m : BookManager) (v : Venue) (i : ℕ) : Option ℕ :=
  (m.book v i).map OrderBook.lastUpdateNs

theorem lastUpdate_onEvent (m : BookManager) (ev : BookEvent ℤ) (v : Venue) (i : ℕ) :
    (m.onEvent ev).lastUpdate v i =
      if ev.venue = v ∧ ev.instrumentId = i then some ev.tsIngestNs else m.lastUpdate v i := by
  unfold lastUpdate
  rw [book_onEvent]
  split_ifs
  · exact congrArg some (OrderBook.header_apply _ ev).2.2
  · rfl

theorem lastUpdate_send (env : Env) (g : MatchingEngine) (order : Order) (v : Venue) (i : ℕ) :
    (g.send env order).2.books.lastUpdate v i = g.books.lastUpdate v i := by
  have hsending := MatchingEngine.send_sending env g order
  generalize g.send env order = res at hsending ⊢
  cases hsending with
  | reject ts hrefusal => rfl
  | @matched b ts hdisc hrole hbook =>
    unfold lastUpdate
    dsimp only
    rw [book_setBook]
    split_ifs with hkey
    · obtain ⟨rfl, rfl⟩ := hkey
      rw [hbook]
      exact congrArg some (b.lastUpdateNs_matchIoc _ _ _ _)
    · rfl

end BookManager

namespace Execution

variable {env : Env} {nowNs : ℕ} {x x' : Execution}

/-- An execution does not touch the clocks. -/
theorem Steps.lastUpdate (h : Steps env nowNs x x') (v : Venue) (i : ℕ) :
    x'.run.gateway.books.lastUpdate v i = x.run.gateway.books.lastUpdate v i := by
  induction h with
  | refl => rfl
  | tail _ hstep ih =>
    refine Eq.trans ?_ ih
    cases hstep with
    | quiet hq => rw [hq.gateway]
    | submit intent hclear => exact BookManager.lastUpdate_send env _ _ v i

end Execution

namespace ReplayState

variable (env : Env) (cfg : SimConfig) (maxTrades : ℤ) {v : Venue} {i : ℕ}

/-- A turn sets the clock of its event's book. -/
theorem lastUpdate_onItem (s : ReplayState) (item : MdResult) :
    (s.onItem env cfg maxTrades item).gateway.books.lastUpdate v i =
      (lastStamp v i [item]).or (s.gateway.books.lastUpdate v i) := by
  have hturn := onItem_itemTurn env cfg maxTrades s item
  have hset : ∀ ev, item.event = some ev →
      (s.onBookEvent item ev).gateway.books.lastUpdate v i =
        (lastStamp v i [item]).or (s.gateway.books.lastUpdate v i) := by
    intro ev hev
    have hbooks : (s.onBookEvent item ev).gateway.books = s.gateway.books.onEvent ev := by
      unfold onBookEvent
      dsimp only
      split_ifs <;> rfl
    rw [hbooks, BookManager.lastUpdate_onEvent, lastStamp_some hev]
    split_ifs <;> rfl
  generalize s.onItem env cfg maxTrades item = s' at hturn ⊢
  cases hturn with
  | skip h =>
    rw [lastStamp_none h]
    rfl
  | watch ev h hnoted =>
    rw [hnoted.gateway]
    exact hset ev h
  | execute ev nse bse h htrades =>
    have hsteps := executed_steps env cfg ev.tsIngestNs (s.opened cfg item ev nse bse).2
      (s.opened cfg item ev nse bse).1
    exact (hsteps.lastUpdate v i).trans (hset ev h.event)

/-- **The clock of a book** shows its last event, in this run or before it. -/
theorem lastUpdate_packets (packets : List RawPacket) (s : ReplayState) :
    (packets.foldl (ReplayState.onPacket env cfg maxTrades) s).gateway.books.lastUpdate v i =
      (lastStamp v i (s.md.results packets)).or (s.gateway.books.lastUpdate v i) := by
  induction packets generalizing s with
  | nil => rfl
  | cons pkt packets ih =>
    have hone := lastUpdate_onItem env cfg maxTrades (v := v) (i := i)
      { s with md := (s.md.onPacket pkt).2 } (s.md.onPacket pkt).1
    rw [List.foldl_cons, ih, md_onPacket, MarketDataHandler.results, lastStamp_cons,
      Option.or_assoc]
    exact congrArg _ hone

end ReplayState

/-! ### The clock of a feed -/

/-- The time of the last event of a feed. -/
def FeedHealth.lastEvent (h : FeedHealth) (v : Venue) (i : ℕ) : Option ℕ :=
  (h.state v i).map FeedState.lastEventNs

theorem FeedHealth.lastEvent_setState (h : FeedHealth) {v v' : Venue} {i i' : ℕ} (hi : i < 2 ^ 32)
    (hi' : i' < 2 ^ 32) (st : FeedState) : (h.setState v i st).lastEvent v' i' =
      if v = v' ∧ i = i' then some st.lastEventNs else h.lastEvent v' i' := by
  unfold lastEvent
  rw [state_setState _ hi hi']
  simp only [Prod.mk.injEq]
  split_ifs <;> rfl

namespace MarketDataHandler

variable {h : MarketDataHandler} {v : Venue} {i : ℕ}

/-- Where the file stands does not matter. -/
theorem results_unread (h : MarketDataHandler) (packets : List RawPacket) :
    h.unread.results packets = h.results packets := by
  induction packets generalizing h with
  | nil => rfl
  | cons pkt packets ih => rw [results, results, onPacket_unread, ih]

/-- An event that is not behind a gap sets the clock of its feed. -/
theorem lastEvent_onPacket (hi : i < 2 ^ 32) {pkt : RawPacket}
    (hacc : AcceptedOnly v i [(h.onPacket pkt).1]) :
    (h.onPacket pkt).2.health.lastEvent v i =
      (lastStamp v i [(h.onPacket pkt).1]).or (h.health.lastEvent v i) := by
  have hhandled := onPacket_handled h pkt
  generalize h.onPacket pkt = res at hacc hhandled ⊢
  cases hhandled with
  | duplicate hdup => rfl
  | unparsed hdup hparse => rfl
  | @gap ev hgap hparse =>
    rw [lastStamp_some rfl, FeedHealth.markUnhealthy,
      FeedHealth.lastEvent_setState _ (instrumentId_parse hparse) hi]
    by_cases hkey : ev.venue = v ∧ ev.instrumentId = i
    · rcases hacc _ (List.mem_singleton_self _) ev rfl hkey with hstatus | hstatus
      · cases hgap.symm.trans hstatus
      · cases hgap.symm.trans hstatus
    · rw [if_neg hkey, if_neg hkey]
      rfl
  | @accepted ev hdup hgap hparse =>
    rw [lastStamp_some rfl, FeedHealth.onEvent,
      FeedHealth.lastEvent_setState _ (instrumentId_parse hparse) hi]
    split_ifs <;> rfl

/-- **The clock of a feed** shows its last event of the run. -/
theorem lastEvent_processed (hi : i < 2 ^ 32) {packets : List RawPacket}
    (hacc : AcceptedOnly v i (h.results packets)) :
    (h.processed packets).health.lastEvent v i =
      (lastStamp v i (h.results packets)).or (h.health.lastEvent v i) := by
  induction packets generalizing h with
  | nil => rfl
  | cons pkt packets ih =>
    rw [results] at hacc
    have hone := lastEvent_onPacket (h := h) hi
      (fun r hr => hacc r (List.mem_singleton.1 hr ▸ List.mem_cons_self))
    have hrest := ih (h := (h.onPacket pkt).2) fun r hr => hacc r (List.mem_cons_of_mem _ hr)
    rw [results, lastStamp_cons, Option.or_assoc, ← hone, ← hrest]
    rfl

/-- Delivered events come from parsed lines. -/
theorem instrumentId_results {packets : List RawPacket} {r : MdResult} {ev : BookEvent ℤ}
    (hr : r ∈ h.results packets) (hev : r.event = some ev) : ev.instrumentId < 2 ^ 32 := by
  induction packets generalizing h with
  | nil => cases hr
  | cons pkt packets ih =>
    rcases List.mem_cons.1 hr with rfl | hr
    · exact instrumentId_parse (event_onPacket hev)
    · exact ih hr

end MarketDataHandler

/-! ### The ages -/

/-- The two ages of one time of the last event. -/
theorem age_eq_iff {h : FeedHealth} {m : BookManager} {v : Venue} {i stamp : ℕ}
    (hfeed : h.lastEvent v i = some stamp) (hbook : m.lastUpdate v i = some stamp) (nowNs : ℕ) :
    (m.quote v i nowNs).map BestQuote.bookAgeUs = some (h.bookAgeUs v i nowNs) ↔ stamp ≠ 0 := by
  obtain ⟨st, hst, rfl⟩ := Option.map_eq_some_iff.1 hfeed
  obtain ⟨b, hb, hstamp⟩ := Option.map_eq_some_iff.1 hbook
  rw [BookManager.quote, hb, FeedHealth.bookAgeUs, hst, Option.map_some, Option.map_some,
    Option.some_inj, OrderBook.bestQuote]
  dsimp only
  rw [hstamp]
  by_cases hzero : st.lastEventNs = 0
  · rw [if_pos hzero, if_neg (by omega)]
    exact iff_of_false (by decide) (not_not.2 hzero)
  · rw [if_neg hzero]
    refine iff_of_true ?_ hzero
    by_cases hnow : nowNs < st.lastEventNs
    · rw [if_pos hnow, if_neg (by omega)]
    · rw [if_neg hnow, if_pos (by omega)]
      rfl

/-- **When the clocks agree.**  In every run, after events of a venue and instrument that were all
delivered as `Ok` or `Reset`, the age of the quote and the age of the feed are the same at any time
exactly when the last of the events has a time of arrival. -/
theorem ages_agree_iff (sim : Simulator) (call : ReplayCall) (turns : ℕ) {v : Venue} {i : ℕ}
    {ev : BookEvent ℤ}
    (hacc : AcceptedOnly v i
      ((MarketDataHandler.ofLines call.lines).results ((packetsOf call.lines false).take turns)))
    (hlast : (feedEvents v i ((MarketDataHandler.ofLines call.lines).results
      ((packetsOf call.lines false).take turns))).getLast? = some ev) (nowNs : ℕ) :
    ((sim.replayFor call turns).gateway.books.quote v i nowNs).map BestQuote.bookAgeUs =
        some ((sim.replayFor call turns).md.health.bookAgeUs v i nowNs) ↔ ev.tsIngestNs ≠ 0 := by
  have hrun := sim.replayFor_packets call turns
  generalize (packetsOf call.lines false).take turns = packets at hacc hlast hrun
  rw [← MarketDataHandler.results_unread] at hacc hlast
  have hstamp : lastStamp v i ((MarketDataHandler.ofLines call.lines).unread.results packets) =
      some ev.tsIngestNs := by rw [lastStamp, hlast, Option.map_some]
  have hi : i < 2 ^ 32 := by
    obtain ⟨hmem, hkey⟩ := List.mem_filter.1 (List.mem_of_getLast? hlast)
    obtain ⟨r, hr, hev⟩ := List.mem_filterMap.1 hmem
    rw [← (of_decide_eq_true hkey).2]
    exact MarketDataHandler.instrumentId_results hr hev
  have hbook : (sim.replayFor call turns).unread.gateway.books.lastUpdate v i =
      some ev.tsIngestNs := by
    rw [hrun, ReplayState.lastUpdate_packets]
    show (lastStamp v i ((MarketDataHandler.ofLines call.lines).unread.results packets)).or _ = _
    rw [hstamp, Option.some_or]
  have hfeed : (sim.replayFor call turns).unread.md.health.lastEvent v i =
      some ev.tsIngestNs := by
    rw [hrun, ReplayState.md_packets]
    refine (MarketDataHandler.lastEvent_processed hi hacc).trans ?_
    rw [hstamp, Option.some_or]
  exact age_eq_iff hfeed hbook nowNs

/-- A file of one line. -/
def oneLine (line : String) : ReplayCall where
  env := ⟨fun _ => 0, fun _ => .byId⟩
  lines := [line.toList]
  maxTrades := 10

theorem acceptedOnly_of_ok {v : Venue} {i : ℕ} {results : List MdResult}
    (h : (results.all fun r => decide (r.sequenceStatus = .ok)) = true) :
    AcceptedOnly v i results :=
  fun r hr _ _ _ => Or.inl (of_decide_eq_true (List.all_eq_true.1 h r hr))

/-- An event without a time of arrival: new for the quote, unknown to the feed. -/
theorem not_ages_agree_zero :
    ¬ ∀ (sim : Simulator) (call : ReplayCall) (turns : ℕ) (v : Venue) (i : ℕ),
      AcceptedOnly v i
        ((MarketDataHandler.ofLines call.lines).results ((packetsOf call.lines false).take turns)) →
      feedEvents v i ((MarketDataHandler.ofLines call.lines).results
        ((packetsOf call.lines false).take turns)) ≠ [] →
      ∀ nowNs, ((sim.replayFor call turns).gateway.books.quote v i nowNs).map
        BestQuote.bookAgeUs = some ((sim.replayFor call turns).md.health.bookAgeUs v i nowNs) := by
  intro hall
  have hages := hall { cfg := {} } (oneLine "1,0,NSE,1,1,ADD,7,7,ADD,1,BUY,120,100") 1 .nse 7
    (acceptedOnly_of_ok (by decide +kernel)) (by decide +kernel) 9000
  exact absurd hages (by decide +kernel)

/-- An event that arrived at 5000 is 4 microseconds old at 9000 for both. -/
theorem ages_agree_iff_stamped :
    ((({ cfg := {} } : Simulator).replayFor
        (oneLine "1,5000,NSE,1,1,ADD,7,7,ADD,1,BUY,120,100") 1).gateway.books.quote .nse 7 9000).map
          BestQuote.bookAgeUs =
      some ((({ cfg := {} } : Simulator).replayFor
        (oneLine "1,5000,NSE,1,1,ADD,7,7,ADD,1,BUY,120,100") 1).md.health.bookAgeUs .nse 7 9000) :=
  (@ages_agree_iff { cfg := {} } (oneLine "1,5000,NSE,1,1,ADD,7,7,ADD,1,BUY,120,100") 1 .nse 7
    ⟨1, 5000, .nse, 7, 7, .add, 1, .buy, 120, 100,
      "1,5000,NSE,1,1,ADD,7,7,ADD,1,BUY,120,100".toList⟩
    (acceptedOnly_of_ok (by decide +kernel)) (by decide +kernel) 9000).2 (by decide)

end Hft
