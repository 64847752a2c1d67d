import HftArb.Sim.Opening

/-!
# No trading after a gap

A gap marks the feed of its event unhealthy and leaves a reason; `on_event` makes a feed healthy
again only where there is no reason.  A feed that is `Lost` therefore stays lost whatever packets
follow (`Lost.next`), and an execution needs both feeds of its instrument healthy (`Decides`).
-/

namespace Hft

open Transition
open Execution
open Std (ExtTreeMap)

namespace FeedHealth

variable {h : FeedHealth} {v : Venue} {i : ℕ}

/-- The feed is unhealthy for a reason. -/
def Lost (h : FeedHealth) (v : Venue) (i : ℕ) : Prop :=
  ∃ st, h.state v i = some st ∧ st.healthy = false ∧ st.reason ≠ ""

theorem Lost.not_healthy (hl : h.Lost v i) : h.isHealthy v i = false := by
  obtain ⟨st, hst, hhealthy, -⟩ := hl
  rw [isHealthy, hst]
  exact hhealthy

/-- A new state of some feed leaves a lost feed lost, if it is lost itself where it replaces it. -/
theorem Lost.setState (hl : h.Lost v i) {v' : Venue} {i' : ℕ} {st' : FeedState}
    (hkeep : ∀ st, h.state v' i' = some st → st.healthy = false → st.reason ≠ "" →
      st'.healthy = false ∧ st'.reason ≠ "") : (h.setState v' i' st').Lost v i := by
  obtain ⟨st, hst, hhealthy, hreason⟩ := hl
  unfold Lost FeedHealth.state FeedHealth.setState at *
  rw [ExtTreeMap.getElem?_insert]
  by_cases hkey : compare (feedKey v' i') (feedKey v i) = .eq
  · rw [if_pos hkey]
    rw [compare_eq_iff_eq] at hkey
    exact ⟨st', rfl, hkeep st (by rw [hkey]; exact hst) hhealthy hreason⟩
  · rw [if_neg hkey]
    exact ⟨st, hst, hhealthy, hreason⟩

theorem Lost.onEvent (hl : h.Lost v i) (v' : Venue) (i' tsIngestNs : ℕ) :
    (h.onEvent v' i' tsIngestNs).Lost v i := by
  refine hl.setState fun st hst hhealthy hreason => ?_
  rw [hst, Option.getD_some]
  exact ⟨by simp only [if_neg hreason]; exact hhealthy, hreason⟩

theorem Lost.markUnhealthy (hl : h.Lost v i) (v' : Venue) (i' : ℕ) {reason : String}
    (hreason : reason ≠ "") : (h.markUnhealthy v' i' reason).Lost v i := by
  have hkeep : ∀ st, h.state v' i' = some st → st.healthy = false → st.reason ≠ "" →
      ({ (h.state v' i').getD {} with healthy := false, reason := reason } : FeedState).healthy =
        false ∧ reason ≠ "" := fun _ _ _ _ => ⟨rfl, hreason⟩
  unfold FeedHealth.markUnhealthy
  exact hl.setState hkeep

theorem lost_markUnhealthy (h : FeedHealth) (v : Venue) (i : ℕ) {reason : String}
    (hreason : reason ≠ "") : (h.markUnhealthy v i reason).Lost v i := by
  refine ⟨{ (h.state v i).getD {} with healthy := false, reason := reason }, ?_, rfl, hreason⟩
  simp only [state, FeedHealth.markUnhealthy, FeedHealth.setState, ExtTreeMap.getElem?_insert_self]

end FeedHealth

namespace MarketDataHandler

variable {h h' : MarketDataHandler} {item : MdResult} {v : Venue} {i : ℕ}

/-- No packet brings a lost feed back. -/
theorem lost_onPacket (hl : h.health.Lost v i) (pkt : RawPacket) :
    (h.onPacket pkt).2.health.Lost v i := by
  have hhandled := onPacket_handled h pkt
  generalize h.onPacket pkt = res at hhandled ⊢
  cases hhandled with
  | duplicate hdup => exact hl
  | unparsed hdup hparse => exact hl
  | gap hgap hparse => exact hl.markUnhealthy _ _ (by decide)
  | accepted hdup hgap hparse => exact hl.onEvent _ _ _

theorem lost_next (hl : h.health.Lost v i) (hn : h.next = (some item, h')) :
    h'.health.Lost v i := by
  obtain ⟨pkt, reader, -, heq⟩ := next_some hn
  rw [show h' = ({ h with reader := reader }.onPacket pkt).2 from congrArg Prod.snd heq]
  exact lost_onPacket (h := { h with reader := reader }) hl pkt

/-- An event with status `Gap` loses its feed. -/
theorem lost_of_gap {ev : BookEvent ℤ} (hn : h.next = (some item, h')) (hev : item.event = some ev)
    (hgap : item.sequenceStatus = .gap) : h'.health.Lost ev.venue ev.instrumentId := by
  obtain ⟨pkt, reader, -, heq⟩ := next_some hn
  have hhandled := onPacket_handled { h with reader := reader } pkt
  rw [← heq] at hhandled
  cases hhandled with
  | duplicate hdup => cases hev
  | unparsed hdup hparse => cases hev
  | gap hstatus hparse =>
    cases hev
    exact FeedHealth.lost_markUnhealthy _ _ _ (by decide)
  | accepted hdup hno hparse => exact absurd hgap hno

end MarketDataHandler

namespace ReplayState

variable {env : Env} {cfg : SimConfig} {maxTrades : ℤ} {s s' : ReplayState} {item : MdResult}

/-- The executions on an instrument, as `pairs.csv` lists them. -/
def pairsOn (s : ReplayState) (i : ℕ) : List PairTrade :=
  s.logs.pairs.filter fun p => p.instrumentId = i

/-- An instrument with an unhealthy feed is not traded in a turn. -/
theorem ItemTurn.pairsOn (h : ItemTurn env cfg maxTrades s item s') (hs : s.Filed) {v : Venue}
    {i : ℕ} (hv : v = .nse ∨ v = .bse) (hbad : s.md.health.isHealthy v i = false) :
    s'.pairsOn i = s.pairsOn i := by
  cases h with
  | skip h => rfl
  | watch ev h hnoted =>
    unfold ReplayState.pairsOn
    rw [hnoted.logs.2, (quiet_onBookEvent item ev).1.logs.2]
  | execute ev nse bse h htrades =>
    have hinst := h.instrument hs.keyed
    have hne : ev.instrumentId ≠ i := by
      rintro rfl
      rcases hv with rfl | rfl
      · exact absurd hbad (by rw [h.healthy.1]; decide)
      · exact absurd hbad (by rw [h.healthy.2]; decide)
    have hsteps := executed_steps env cfg ev.tsIngestNs (s.opened cfg item ev nse bse).2
      (s.opened cfg item ev nse bse).1
    obtain ⟨cur, ht⟩ := hsteps.tracks
      (tracks_start (sound_opened hs.balanced.sound item ev nse bse) (s.opened cfg item ev nse bse).1)
    have hpair := hsteps.sameTrade.instrumentId.trans hinst
    have hold : (s.opened cfg item ev nse bse).2.logs.pairs = s.logs.pairs :=
      (quiet_onBookEvent item ev).1.logs.2
    obtain ⟨-, -, -, -, -, hlogs, -⟩ := executeOpportunity_eq env cfg ev.tsIngestNs
      (s.opened cfg item ev nse bse).2 (s.opened cfg item ev nse bse).1
    unfold ReplayState.pairsOn
    change ((executeOpportunity env cfg ev.tsIngestNs (s.opened cfg item ev nse bse).2
      (s.opened cfg item ev nse bse).1).logs.pairs.filter _) = _
    rw [hlogs, ht.pairs, hold, List.filter_append, List.filter_singleton]
    simp [hpair, hne]

end ReplayState

namespace Simulator

open ReplayState

/-- **No trading after a gap.**  Once the handler of a run, of a simulator that may have run before,
has returned an event of NSE or BSE with status `Gap`, no opportunity on its instrument is executed
in the rest of the run. -/
theorem run_gapHalt (cfg : SimConfig) (calls : List ReplayCall) (call : ReplayCall) (n m : ℕ)
    {item : MdResult} {md : MarketDataHandler} {ev : BookEvent ℤ}
    (hnext : ((afterRuns cfg calls).replayFor call n).md.next = (some item, md))
    (hev : item.event = some ev) (hgap : item.sequenceStatus = .gap)
    (hv : ev.venue = .nse ∨ ev.venue = .bse) (hm : n ≤ m) :
    ((afterRuns cfg calls).replayFor call m).pairsOn ev.instrumentId =
      ((afterRuns cfg calls).replayFor call n).pairsOn ev.instrumentId := by
  have hfiled := run_filed cfg calls call n
  -- from the gap on its feed is lost
  refine (replayFor_from (I := fun s => s.Filed ∧ s.pairsOn ev.instrumentId =
    ((afterRuns cfg calls).replayFor call n).pairsOn ev.instrumentId ∧
      (s = (afterRuns cfg calls).replayFor call n ∨
        s.md.health.Lost ev.venue ev.instrumentId)) hm ⟨hfiled, rfl, Or.inl rfl⟩ ?_ ?_).2.1
  · rintro s md' ⟨hs, hpairs, hor⟩ hnext'
    refine ⟨hs.read md', hpairs, Or.inr ?_⟩
    rcases hor with rfl | hlost
    · rw [hnext] at hnext'
      cases hnext'
    · show md'.health.Lost ev.venue ev.instrumentId
      rw [(MarketDataHandler.next_none hnext').2]
      exact hlost
  · rintro s item' md' s' ⟨hs, hpairs, hor⟩ hnext' hturn
    have hlost : md'.health.Lost ev.venue ev.instrumentId := by
      rcases hor with rfl | hlost
      · rw [hnext] at hnext'
        cases hnext'
        exact MarketDataHandler.lost_of_gap hnext hev hgap
      · exact MarketDataHandler.lost_next hlost hnext'
    refine ⟨(hs.read md').turn hturn, ?_, Or.inr ?_⟩
    · exact (hturn.pairsOn (hs.read md') hv hlost.not_healthy).trans hpairs
    · rw [hturn.turn.md]
      exact hlost

/-- A feed on which the second packet of NSE is lost before the market is crossed. -/
def gappedMarket : ReplayCall where
  env := ⟨fun _ => 0, fun _ => .byId⟩
  lines := ["1,1,NSE,1,1,ADD,1,1,ADD,1,BUY,120,100", "1,2,NSE,1,3,ADD,1,1,ADD,2,SELL,130,100",
    "1,3,BSE,1,1,ADD,1,1,ADD,3,BUY,90,100", "1,4,BSE,1,2,ADD,1,1,ADD,4,SELL,100,50",
    "1,5,NSE,1,4,ADD,1,1,ADD,5,BUY,121,50"].map String.toList
  maxTrades := 10

/-- The market is crossed to the end of the file, and nothing is traded. -/
theorem run_gapHalt_crossed :
    let s := (afterRuns {} []).replayFor gappedMarket
    ∃ item md ev, (s 1).md.next = (some item, md) ∧ item.event = some ev ∧
      item.sequenceStatus = .gap ∧ ev.venue = .nse ∧ (s 6).result.riskBlocks = 4 ∧
      (s 6).pairsOn ev.instrumentId = (s 1).pairsOn ev.instrumentId := by
  intro s
  have hread : ((s 1).md.next.1.map fun item =>
      (item.sequenceStatus, item.event.map BookEvent.venue)) = some (.gap, some .nse) := by
    decide +kernel
  have hblocks : (s 6).result.riskBlocks = 4 := by decide +kernel
  rcases hnext : (s 1).md.next with ⟨_ | item, md⟩
  · rw [hnext] at hread
    cases hread
  · rw [hnext] at hread
    obtain ⟨hstatus, hevent⟩ := Prod.mk.inj (Option.some.inj hread)
    obtain ⟨ev, hev, hvenue⟩ := Option.map_eq_some_iff.1 hevent
    have hsame := run_gapHalt {} [] gappedMarket 1 6 hnext hev hstatus (Or.inl hvenue) (by decide)
    exact ⟨item, md, ev, rfl, hev, hstatus, hvenue, hblocks, hsame⟩

end Simulator

end Hft
