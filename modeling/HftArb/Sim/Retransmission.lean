import HftArb.Md.Retransmission
import HftArb.Sim.PacketRun

/-!
# Retransmissions change no run

A run drops a retransmitted packet whole (`onPacket_retransmitted`), so that a file with
retransmissions put in leads through the same events to the same states, the place in the file apart
(`run_retransmissions`).
-/

namespace Hft

open Transition

namespace ReplayState

variable (env : Env) (cfg : SimConfig) (maxTrades : ℤ) {s : ReplayState}

/-- What the handler delivers with an event along `packets`, each with the run after its turn: its
books, the health of the feeds, the verdicts, orders and fills so far. -/
def deliveries (env : Env) (cfg : SimConfig) (maxTrades : ℤ) :
    ReplayState → List RawPacket → List (MdResult × ReplayState)
  | _, [] => []
  | s, pkt :: packets =>
      let s' := s.onPacket env cfg maxTrades pkt
      let rest := deliveries env cfg maxTrades s' packets
      if (s.md.onPacket pkt).1.event = none then rest else ((s.md.onPacket pkt).1, s') :: rest

/-- A run drops a retransmitted packet. -/
theorem onPacket_retransmitted (hfits : s.md.seq.Fits) {pkt : RawPacket} (hpos : 0 < pkt.sequenceNo)
    (hle : pkt.sequenceNo ≤ s.md.seq.last pkt.venue pkt.channelId) :
    s.onPacket env cfg maxTrades pkt = s ∧ (s.md.onPacket pkt).1.event = none := by
  have hdrop := MarketDataHandler.onPacket_retransmitted hfits hpos hle
  unfold ReplayState.onPacket
  rw [hdrop]
  exact ⟨rfl, rfl⟩

/-- A stream and the same stream with retransmissions lead through the same states. -/
theorem retransmitted {t : SequenceTracker} {l l' : List RawPacket} (h : Retransmitted t l l')
    (hsized : ∀ p ∈ l', p.Sized) (ht : t.Fits) (hs : s.md.seq = t) :
    l'.foldl (ReplayState.onPacket env cfg maxTrades) s =
        l.foldl (ReplayState.onPacket env cfg maxTrades) s ∧
      s.deliveries env cfg maxTrades l' = s.deliveries env cfg maxTrades l := by
  induction h generalizing s with
  | nil t => exact ⟨rfl, rfl⟩
  | @keep t l l' pkt h ih =>
    obtain ⟨hpkt, hrest⟩ := List.forall_mem_cons.1 hsized
    have hseq := seq_onPacket env cfg maxTrades s pkt
    rw [hs] at hseq
    obtain ⟨hfold, hdeliveries⟩ := ih hrest
      (ht.onPacket pkt.venue pkt.channelId hpkt.sequenceNo) hseq
    unfold deliveries
    dsimp only
    rw [List.foldl_cons, List.foldl_cons, hfold, hdeliveries]
    exact ⟨rfl, rfl⟩
  | @insert t l l' pkt hpos hle h ih =>
    obtain ⟨-, hrest⟩ := List.forall_mem_cons.1 hsized
    subst hs
    obtain ⟨hdrop, hnone⟩ := onPacket_retransmitted env cfg maxTrades ht hpos hle
    obtain ⟨hfold, hdeliveries⟩ := ih hrest ht rfl
    rw [List.foldl_cons, hdrop]
    refine ⟨hfold, ?_⟩
    rw [← hdeliveries, deliveries, if_pos hnone, hdrop]

end ReplayState

namespace Simulator

open ReplayState

/-- **Retransmissions are harmless.**  A file whose packets are those of another one with any number
of retransmitted packets put in delivers the same events, each to a run in the same state, and the
whole run ends in the same state, the place in the file apart.  The non-zero numbers accepted on a
channel rise. -/
theorem run_retransmissions (sim : Simulator) (env : Env) (maxTrades : ℤ) {lines lines' : List Bytes}
    (h : Retransmitted {} (packetsOf lines false) (packetsOf lines' false)) :
    (sim.start lines').unread.deliveries env sim.cfg maxTrades (packetsOf lines' false) =
        (sim.start lines).unread.deliveries env sim.cfg maxTrades (packetsOf lines false) ∧
      (sim.runReplay ⟨env, lines', maxTrades⟩).unread =
        (sim.runReplay ⟨env, lines, maxTrades⟩).unread ∧
      ∀ v c, c < 2 ^ 32 →
        (SequenceTracker.accepted v c {} (packetsOf lines' false)).Pairwise (· < ·) := by
  have hsized := sized_packetsOf lines' false
  have hstart : (sim.start lines').unread = (sim.start lines).unread := rfl
  obtain ⟨hfold, hdeliveries⟩ := retransmitted env sim.cfg maxTrades
    (s := (sim.start lines).unread) h hsized SequenceTracker.fits_empty rfl
  refine ⟨hdeliveries, ?_, fun v c hc => ?_⟩
  · rw [runReplay_packets, runReplay_packets, hstart]
    exact hfold
  · exact (SequenceTracker.accepted_pairwise v hc hsized SequenceTracker.fits_empty).2

/-- A bid at NSE, and packet 1 of its channel. -/
def bidLine : Bytes := "1,1,NSE,1,1,ADD,1,1,ADD,1,BUY,120,100".toList

/-- A line with the same packet number and other contents. -/
def againLine : Bytes := "1,2,NSE,1,1,ADD,1,1,ADD,2,SELL,90,100".toList

/-- The bid is delivered once, although its number comes twice. -/
theorem run_retransmissions_bid :
    Retransmitted {} (packetsOf [bidLine] false) (packetsOf [bidLine, againLine] false) ∧
      let sim : Simulator := { cfg := {} }
      (sim.runReplay ⟨⟨fun _ => 0, fun _ => .byId⟩, [bidLine, againLine], 10⟩).unread =
        (sim.runReplay ⟨⟨fun _ => 0, fun _ => .byId⟩, [bidLine], 10⟩).unread := by
  have hbid : packetsOf [bidLine] false =
      [⟨1, .nse, 1, 1, "ADD".toList, [], bidLine⟩] := by decide +kernel
  have hagain : packetsOf [bidLine, againLine] false =
      [⟨1, .nse, 1, 1, "ADD".toList, [], bidLine⟩, ⟨2, .nse, 1, 1, "ADD".toList, [], againLine⟩] := by
    decide +kernel
  have hret : Retransmitted {} (packetsOf [bidLine] false)
      (packetsOf [bidLine, againLine] false) := by
    rw [hbid, hagain]
    exact .keep _ (.insert _ (by decide) (by decide +kernel) (.nil _))
  exact ⟨hret, (run_retransmissions _ _ _ hret).2.1⟩

end Simulator

end Hft
