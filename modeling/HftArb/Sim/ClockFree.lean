import HftArb.Sim.TwoRuns

/-!
# The wall clock decides nothing

Two runs of one file differ in what `now_ns()` returns inside `send` and in `extra_latency_us`.
`run_clockFree`: after any number of turns they are the same, once the stamps that the gateway wrote
are blotted out.
-/

namespace Hft

open Transition

/-- A run with the latency of its scenario and every stamp of the gateway set to 0: `ts_ack_ns` and
`ts_done_ns` of an order, `ts_fill_ns` of a fill, and the copy of these that a pair keeps in memory
as `ts_last_update_ns`. -/
def ReplayState.withoutClock (s : ReplayState) : ReplayState :=
  { s with
    gateway := s.gateway.timeless
    oms := s.oms.stamped fun _ => 0
    logs := s.logs.stamped fun _ => 0
    trace := s.trace.map (Observation.stamped fun _ => 0) }

namespace ReplayState

variable {env env' : Env} {cfg cfg' : SimConfig} {latencyUs latencyUs' : ℤ}
  {s s' : ReplayState}

/-- Two runs that differ in nothing but the gateway's stamps and the latency. -/
structure SameButClock (latencyUs latencyUs' : ℤ) (s s' : ReplayState) : Prop where
  alike : s.Alike (fun _ => 0) latencyUs latencyUs' s'
  md : s'.md = s.md

theorem SameButClock.withoutClock (h : SameButClock latencyUs latencyUs' s s') :
    s'.withoutClock = s.withoutClock := by
  unfold ReplayState.withoutClock
  rw [h.md, h.alike.gateway, h.alike.risk, h.alike.oms, h.alike.ids, h.alike.result, h.alike.logs,
    h.alike.trace]

theorem SameButClock.replayBody
    (hr : MatchingEngine.SameReadings (fun _ => 0) env env' latencyUs latencyUs')
    (hcfg : cfg'.timeless = cfg.timeless) (h : SameButClock latencyUs latencyUs' s s')
    (maxTrades : ℤ) : SameTurn (SameButClock latencyUs latencyUs') (s.replayBody env cfg maxTrades)
      (s'.replayBody env' cfg' maxTrades) := by
  unfold ReplayState.replayBody
  rw [h.md]
  rcases s.md.next with ⟨_ | item, md⟩
  · exact .done ⟨{ h.alike with health := rfl }, rfl⟩
  · have hread : ReplayState.Alike (fun _ => 0) latencyUs latencyUs' { s with md := md }
        { s' with md := md } := { h.alike with health := rfl }
    refine .yield ⟨hread.onItem hr hcfg maxTrades item, ?_⟩
    rw [(onItem_turn env' cfg' maxTrades { s' with md := md } item).md,
      (onItem_turn env cfg maxTrades { s with md := md } item).md]

end ReplayState

namespace Simulator

open ReplayState

/-- The simulator with another `extra_latency_us`. -/
def withLatency (sim : Simulator) (latencyUs : ℤ) : Simulator :=
  { sim with cfg := { sim.cfg with
      scenario := { sim.cfg.scenario with extraLatencyUs := latencyUs } } }

/-- **Decisions do not depend on the wall clock.**  Whatever the clock reads and whatever latency is
added to it, a run of any simulator on any file makes the same turns: the same opportunities,
intents, verdicts, fills, states, positions and results, stamps apart. -/
theorem run_clockFree (sim : Simulator) (lines : List Bytes) (maxTrades : ℤ)
    (walk : ℕ → WalkOrder ℤ) (clock clock' : ℕ → ℕ) (latencyUs latencyUs' : ℤ) (turns : ℕ) :
    ((sim.withLatency latencyUs').replayFor ⟨⟨clock', walk⟩, lines, maxTrades⟩ turns).withoutClock =
      ((sim.withLatency latencyUs).replayFor ⟨⟨clock, walk⟩, lines, maxTrades⟩ turns).withoutClock := by
  have hr : MatchingEngine.SameReadings (fun _ => 0) ⟨clock, walk⟩ ⟨clock', walk⟩ latencyUs
      latencyUs' := ⟨rfl, fun _ => rfl⟩
  have hstart : SameButClock latencyUs latencyUs' ((sim.withLatency latencyUs).start lines)
      ((sim.withLatency latencyUs').start lines) :=
    ⟨⟨rfl, rfl, rfl, rfl, rfl, rfl, rfl, rfl, rfl, rfl⟩, rfl⟩
  have hcfg : (sim.withLatency latencyUs').cfg.timeless = (sim.withLatency latencyUs).cfg.timeless :=
    rfl
  have hrun := runLoop_related (fun s s' hs => hs.replayBody hr hcfg maxTrades) turns hstart
  exact hrun.withoutClock

end Simulator

end Hft
