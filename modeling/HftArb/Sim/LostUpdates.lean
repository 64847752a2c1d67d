import HftArb.Md.FeedLoss
import HftArb.Sim.GapHalt
import HftArb.Sim.PacketRun

/-!
# Lost packets and trading

A run that reads the packets of a delivery has, after `n` turns, the feeds of what was delivered by
then (`replayFor_feeds`).  So it stays away from the books that missed an update as long as the
health of their feeds shows it, and `keepsOut_iff` says when it does at every point of the delivery:
a loss has to be seen at a packet of the feed that it has hurt.
-/

namespace Hft

open ReplayState

/-- The handler of a run after `n` turns has processed the first `n` packets of its file. -/
theorem Simulator.replayFor_feeds (sim : Simulator) (call : ReplayCall) (n : ℕ) :
    MarketDataHandler.SameFeeds (sim.replayFor call n).md
      ((MarketDataHandler.ofLines []).processed ((packetsOf call.lines false).take n)) := by
  have hrun : (sim.replayFor call n).md.unread = (sim.start call.lines).unread.md.processed
      ((packetsOf call.lines false).take n) := by
    rw [← md_packets call.env sim.cfg call.maxTrades, ← replayFor_packets]
    rfl
  have hstart : MarketDataHandler.SameFeeds (sim.start call.lines).unread.md (.ofLines []) :=
    ⟨rfl, rfl⟩
  have hsame := hstart.processed ((packetsOf call.lines false).take n)
  rw [← hrun] at hsame
  exact hsame

namespace Delivery

open Simulator

variable {F : PublishedFeed}

/-- The books of a feed that a loss has hurt are kept out of trading: at every point of the delivery
its feed is unhealthy, and no run that reads the delivery executes an opportunity on its
instrument. -/
structure KeepsOut (D : Delivery F) : Prop where
  taints : ∀ n, (D.upTo n).TaintsHurt
  halts : ∀ (cfg : SimConfig) (calls : List ReplayCall) (call : ReplayCall),
    packetsOf call.lines false = D.packets → ∀ (n : ℕ) (venue : Venue) (instrumentId : ℕ),
      venue = .nse ∨ venue = .bse → (D.upTo (n + 1)).Hurt venue instrumentId →
        ((afterRuns cfg calls).replayFor call (n + 1)).pairsOn instrumentId =
          ((afterRuns cfg calls).replayFor call n).pairsOn instrumentId

/-- A run executes nothing on an instrument in a turn that leaves a feed of it unhealthy. -/
theorem pairsOn_of_unhealthy (cfg : SimConfig) (calls : List ReplayCall) (call : ReplayCall) (n : ℕ)
    {v : Venue} {i : ℕ} (hv : v = .nse ∨ v = .bse)
    (hbad : ((afterRuns cfg calls).replayFor call (n + 1)).md.health.isHealthy v i = false) :
    ((afterRuns cfg calls).replayFor call (n + 1)).pairsOn i =
      ((afterRuns cfg calls).replayFor call n).pairsOn i := by
  have hfiled := run_filed cfg calls call n
  rcases replayFor_step (afterRuns cfg calls) call n with ⟨item, md, -, hturn⟩ | ⟨md, hend⟩
  · rw [hturn.turn.md] at hbad
    exact hturn.pairsOn (hfiled.read md) hv hbad
  · rw [hend]
    rfl

/-- **When the books that missed an update are kept out.**  At every point of the delivery, each feed
that a loss has hurt by then has had no packet at all, or one that directly follows a loss on its
channel. -/
theorem keepsOut_iff (D : Delivery F) :
    D.KeepsOut ↔ ∀ n venue instrumentId, (D.upTo n).Hurt venue instrumentId →
      (∀ q ∈ (D.upTo n).packets, q.feed ≠ some (venue, instrumentId)) ∨
        ∃ q ∈ (D.upTo n).packets, q.feed = some (venue, instrumentId) ∧ (D.upTo n).Reveals q := by
  constructor
  · intro h n
    exact (taintsHurt_iff (D.upTo n)).1 (h.taints n)
  · intro h
    have htaints : ∀ n, (D.upTo n).TaintsHurt := fun n => (taintsHurt_iff (D.upTo n)).2 (h n)
    refine ⟨htaints, fun cfg calls call hpackets n v i hv hhurt => ?_⟩
    have hfeeds := replayFor_feeds (afterRuns cfg calls) call (n + 1)
    rw [hpackets] at hfeeds
    have hbad : (D.upTo (n + 1)).handler.health.isHealthy v i = false := htaints (n + 1) v i hhurt
    rw [← show _ = (D.upTo (n + 1)).handler.health from hfeeds.2] at hbad
    exact pairsOn_of_unhealthy cfg calls call n hv hbad

end Delivery

end Hft
