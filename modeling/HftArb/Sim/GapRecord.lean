import HftArb.Md.HighWater
import HftArb.Sim.PacketRun

/-!
# What is recorded of a gap

The tracker moves on to the packet after a gap before its text is parsed.  If the text parses, its
feed is marked and `run_replay` logs a row (`gapRecorded_of_parse`); if it does not, the handler
returns before it looks at the verdict, nothing is recorded, and the next packet is `Ok` again.  So
the gaps of a run are all recorded exactly when the packets that reveal them parse
(`gapsRecorded_iff`).
-/

namespace Hft

open Transition

/-! ### The tracker along a stream -/

/-- After the packets `before` the tracker returns `Gap` for `pkt`. -/
def RevealsGap (before : List RawPacket) (pkt : RawPacket) : Prop :=
  ((SequenceTracker.tracked before).onPacket pkt.venue pkt.channelId pkt.sequenceNo).1 = .gap

instance (before : List RawPacket) (pkt : RawPacket) : Decidable (RevealsGap before pkt) :=
  inferInstanceAs (Decidable (_ = _))

/-- What is read from a line names one venue, as a packet and as an event. -/
theorem venue_of_parse {line : Bytes} {pkt : RawPacket} (h : packetOf line = some pkt)
    {ev : BookEvent ℤ} (hev : parse pkt = some ev) : ev.venue = pkt.venue := by
  unfold packetOf at h
  dsimp only at h
  split_ifs at h
  cases h
  unfold parse at hev
  dsimp only at hev
  split_ifs at hev
  cases hev
  rfl

theorem line_of_packetsOf {lines : List Bytes} {headerSkipped : Bool} {pkt : RawPacket}
    (h : pkt ∈ packetsOf lines headerSkipped) : ∃ line, packetOf line = some pkt := by
  fun_induction packetsOf lines headerSkipped with
  | case1 => cases h
  | case2 headerSkipped line lines trimmed hempty ih => exact ih h
  | case3 headerSkipped line lines trimmed hempty hheader ih => exact ih h
  | case4 headerSkipped line lines trimmed hempty hheader hnone ih => exact ih h
  | case5 headerSkipped line lines trimmed hempty hheader pkt' hsome ih =>
    rcases List.mem_cons.1 h with rfl | hmem
    · exact ⟨_, hsome⟩
    · exact ih hmem

/-! ### One packet -/

namespace ReplayState

variable {env : Env} {cfg : SimConfig} {maxTrades : ℤ} {s : ReplayState} {pkt : RawPacket}

/-- A turn keeps the rows there are once the event is in its book. -/
theorem risks_onItem {item : MdResult} {ev : BookEvent ℤ} (hev : item.event = some ev) :
    (s.onBookEvent item ev).logs.risks <+: (s.onItem env cfg maxTrades item).logs.risks := by
  obtain ⟨new, hrisks, -⟩ := (onItem_itemTurn env cfg maxTrades s item).risks hev
  rw [hrisks, List.append_assoc]
  exact List.prefix_append _ _

/-- From `s` to `s'` a feed of the packet's venue has been marked, and a row has been logged. -/
structure GapRecorded (pkt : RawPacket) (s s' : ReplayState) : Prop where
  marked : ∃ instrumentId,
    s'.md.health = s.md.health.markUnhealthy pkt.venue instrumentId "SEQUENCE_GAP"
  logged : ∃ row : RiskEvent, row.ruleName = "SEQUENCE_GAP" ∧
    s.logs.risks ++ [row] <+: s'.logs.risks

/-- A gap found at a packet that parses is recorded. -/
theorem gapRecorded_of_parse {line : Bytes} (hline : packetOf line = some pkt)
    (hgap : (s.md.track pkt).1 = .gap) (hparse : parse pkt ≠ none) :
    GapRecorded pkt s (s.onPacket env cfg maxTrades pkt) := by
  have hmd := @md_onPacket env cfg maxTrades s pkt
  unfold ReplayState.onPacket at hmd ⊢
  have hhandled := MarketDataHandler.onPacket_handled s.md pkt
  generalize s.md.onPacket pkt = res at hhandled hmd
  cases hhandled with
  | duplicate hdup => rw [hgap] at hdup; cases hdup
  | unparsed hdup hnone => exact absurd hnone hparse
  | accepted hdup hno hev => exact absurd hgap hno
  | @gap ev _ hev =>
    refine ⟨⟨ev.instrumentId, ?_⟩, ?_⟩
    · rw [hmd, venue_of_parse hline hev]
    · have hrow : ∀ s₁ : ReplayState, (s₁.onBookEvent
          { event := some ev, sequenceStatus := (s.md.track pkt).1, warning := "sequence gap" }
            ev).logs.risks = s₁.logs.risks ++
              [⟨ev.tsIngestNs, "HIGH", "SEQUENCE_GAP", ev.instrumentId, "sequence gap"⟩] := by
        intro s₁
        unfold onBookEvent
        rw [if_pos hgap]
        rfl
      refine ⟨⟨ev.tsIngestNs, "HIGH", "SEQUENCE_GAP", ev.instrumentId, "sequence gap"⟩, rfl, ?_⟩
      have hkept := @risks_onItem env cfg maxTrades { s with md := { s.md with
        seq := (s.md.track pkt).2
        health := s.md.health.markUnhealthy ev.venue ev.instrumentId "SEQUENCE_GAP" } }
          { event := some ev, sequenceStatus := (s.md.track pkt).1, warning := "sequence gap" }
            ev rfl
      rwa [hrow] at hkept

/-- A gap found at a packet that does not parse leaves no row. -/
theorem not_gapRecorded (hparse : parse pkt = none) :
    ¬ GapRecorded pkt s (s.onPacket env cfg maxTrades pkt) := by
  rintro ⟨-, row, -, hprefix⟩
  have hsame : (s.onPacket env cfg maxTrades pkt).logs.risks = s.logs.risks := by
    unfold ReplayState.onPacket
    have hhandled := MarketDataHandler.onPacket_handled s.md pkt
    generalize s.md.onPacket pkt = res at hhandled
    cases hhandled with
    | duplicate hdup => rfl
    | unparsed hdup hnone => rfl
    | gap hgap hev => rw [hparse] at hev; cases hev
    | accepted hdup hno hev => rw [hparse] at hev; cases hev
  have hlength := hprefix.length_le
  rw [hsame, List.length_append, List.length_singleton] at hlength
  omega

end ReplayState

/-! ### A run -/

namespace Simulator

open ReplayState

/-- Every gap of the run is recorded in the turn of the packet that reveals it. -/
def GapsRecorded (sim : Simulator) (call : ReplayCall) : Prop :=
  ∀ n pkt, (packetsOf call.lines false)[n]? = some pkt →
    RevealsGap ((packetsOf call.lines false).take n) pkt →
      GapRecorded pkt (sim.replayFor call n) (sim.replayFor call (n + 1))

/-- The tracker of a run has seen the packets so far. -/
theorem seq_foldl (env : Env) (cfg : SimConfig) (maxTrades : ℤ) (packets : List RawPacket)
    (s : ReplayState) : (packets.foldl (ReplayState.onPacket env cfg maxTrades) s).md.seq =
      packets.foldl (fun t pkt => (t.onPacket pkt.venue pkt.channelId pkt.sequenceNo).2)
        s.md.seq := by
  induction packets generalizing s with
  | nil => rfl
  | cons pkt packets ih =>
    rw [List.foldl_cons, ih, seq_onPacket]
    rfl

/-- **When every gap is recorded.**  In a run of any file, each gap the tracker finds marks a feed of
the packet's venue and is logged exactly when every packet that reveals a gap has all thirteen
columns. -/
theorem gapsRecorded_iff (sim : Simulator) (call : ReplayCall) : sim.GapsRecorded call ↔
    ∀ n pkt, (packetsOf call.lines false)[n]? = some pkt →
      RevealsGap ((packetsOf call.lines false).take n) pkt →
        13 ≤ (splitCsv pkt.payloadBytes).length := by
  refine forall_congr' fun n => forall_congr' fun pkt => forall_congr' fun hpkt =>
    forall_congr' fun hreveals => ?_
  obtain ⟨line, hline⟩ := line_of_packetsOf (List.mem_of_getElem? hpkt)
  -- the turn of the packet, its place in the file apart
  have hturn : (sim.replayFor call (n + 1)).unread =
      (sim.replayFor call n).unread.onPacket call.env sim.cfg call.maxTrades pkt := by
    rw [replayFor_packets, replayFor_packets, List.take_add_one, hpkt, Option.toList_some,
      List.foldl_append]
    rfl
  have hgap : ((sim.replayFor call n).unread.md.track pkt).1 = .gap := by
    have hseq : (sim.replayFor call n).unread.md.seq =
        SequenceTracker.tracked ((packetsOf call.lines false).take n) := by
      rw [replayFor_packets, seq_foldl]
      rfl
    rw [MarketDataHandler.track, hseq]
    exact hreveals
  have hrecorded : GapRecorded pkt (sim.replayFor call n) (sim.replayFor call (n + 1)) ↔
      GapRecorded pkt (sim.replayFor call n).unread (sim.replayFor call (n + 1)).unread :=
    ⟨fun h => ⟨h.marked, h.logged⟩, fun h => ⟨h.marked, h.logged⟩⟩
  rw [hrecorded, hturn, ← not_lt, ← parse_eq_none_iff]
  exact ⟨fun h hnone => not_gapRecorded hnone h, fun h => gapRecorded_of_parse hline hgap h⟩

/-- Packet 2 is lost, and packet 3 has the columns of a packet but not those of an event. -/
def brokenAfterGap : ReplayCall where
  env := ⟨fun _ => 0, fun _ => .byId⟩
  lines := ["1,1,NSE,1,1,ADD,1,1,ADD,1,BUY,120,100", "1,2,NSE,1,3,ADD",
    "1,3,NSE,1,4,ADD,1,1,ADD,2,SELL,130,100"].map String.toList
  maxTrades := 10

/-- The gap is found and nothing is recorded: at the end the feed is healthy and no row is logged. -/
theorem not_gapsRecorded_brokenAfterGap :
    (({ cfg := {} } : Simulator).runReplay brokenAfterGap).md.health.isHealthy .nse 1 = true ∧
      (({ cfg := {} } : Simulator).runReplay brokenAfterGap).logs.risks = [] ∧
      ¬ ({ cfg := {} } : Simulator).GapsRecorded brokenAfterGap := by
  refine ⟨by decide +kernel, by decide +kernel, fun h => ?_⟩
  have hreveals : (packetsOf brokenAfterGap.lines false)[1]?.any (fun pkt =>
      RevealsGap ((packetsOf brokenAfterGap.lines false).take 1) pkt) = true := by
    decide +kernel
  obtain ⟨pkt, hpkt, hgap⟩ := (Option.any_eq_true _ _).1 hreveals
  have hnone : (({ cfg := {} } : Simulator).replayFor brokenAfterGap (1 + 1)).logs.risks = [] := by
    decide +kernel
  obtain ⟨row, -, hprefix⟩ := (h 1 pkt hpkt (of_decide_eq_true hgap)).logged
  rw [hnone] at hprefix
  exact List.append_ne_nil_of_right_ne_nil _ (List.cons_ne_nil _ _) (List.prefix_nil.1 hprefix)

end Simulator

end Hft
