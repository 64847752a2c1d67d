import HftArb.Sim.TwoRuns

/-!
# A run, packet by packet

What a run does depends on its file only through the packets the reader returns: after `n` turns it
is the fold of `ReplayState.onPacket` over the first `n` of them (`replayFor_packets`), the place in
the file apart (`unread`).
-/

namespace Hft

open Transition
open Std (ExtTreeMap)

/-! ### The place in the file -/

namespace MarketDataHandler

/-- The handler, without its place in the file. -/
def unread (h : MarketDataHandler) : MarketDataHandler := { h with reader := ⟨[], true⟩ }

theorem onPacket_unread (h : MarketDataHandler) (pkt : RawPacket) :
    h.unread.onPacket pkt = ((h.onPacket pkt).1, (h.onPacket pkt).2.unread) := by
  unfold onPacket
  dsimp only [unread]
  generalize h.seq.onPacket pkt.venue pkt.channelId pkt.sequenceNo = tracked
  obtain ⟨status, seq⟩ := tracked
  cases parse pkt with
  | none =>
    dsimp only
    split_ifs <;> rfl
  | some ev =>
    dsimp only
    split_ifs <;> rfl

end MarketDataHandler

/-! ### All of a stamp kept -/

theorem OrderManager.stamped_id (m : OrderManager) : m.stamped id = m := by
  have horders : (m.orders.map fun _ o => Order.stamped id o) = m.orders := ExtTreeMap.map_id
  have hfills : m.fills.map (Fill.stamped id) = m.fills := List.map_id _
  unfold OrderManager.stamped
  rw [horders, hfills]

theorem Logs.stamped_id (l : Logs) : l.stamped id = l := by
  have horders : l.orders.map (Order.stamped id) = l.orders := List.map_id _
  have hfills : l.fills.map (FillRow.stamped id) = l.fills := List.map_id _
  have hpairs : l.pairs.map (PairTrade.stamped id) = l.pairs := List.map_id _
  unfold Logs.stamped
  rw [horders, hfills, hpairs]

theorem Observation.stamped_id : Observation.stamped id = id := by
  funext o
  cases o <;> rfl

theorem MatchingEngine.eq_of_timeless {g g' : MatchingEngine} (h : g'.timeless = g.timeless)
    (hlatency : g'.scenario.extraLatencyUs = g.scenario.extraLatencyUs) : g' = g := by
  have hrestore : ∀ g : MatchingEngine, { g.timeless with
      scenario := { g.timeless.scenario with extraLatencyUs := g.scenario.extraLatencyUs } } = g :=
    fun _ => rfl
  rw [← hrestore g', ← hrestore g, h, hlatency]

namespace ReplayState

variable {env : Env} {cfg : SimConfig} {maxTrades : ℤ} {s s' : ReplayState}

/-- Runs that are alike, stamps included, differ in their handlers alone. -/
theorem Alike.eq_of_id {latencyUs : ℤ} (h : s.Alike id latencyUs latencyUs s') :
    s' = { s with md := s'.md } := by
  have hgateway : s'.gateway = s.gateway := MatchingEngine.eq_of_timeless h.gateway
    (h.latency'.trans h.latency.symm)
  have homs := h.oms
  have hlogs := h.logs
  have htrace := h.trace
  rw [OrderManager.stamped_id, OrderManager.stamped_id] at homs
  rw [Logs.stamped_id, Logs.stamped_id] at hlogs
  rw [Observation.stamped_id, List.map_id, List.map_id] at htrace
  obtain ⟨md, gateway, risk, oms, ids, result, logs, trace⟩ := s'
  obtain rfl : gateway = s.gateway := hgateway
  obtain rfl : risk = s.risk := h.risk
  obtain rfl : oms = s.oms := homs
  obtain rfl : ids = s.ids := h.ids
  obtain rfl : result = s.result := h.result
  obtain rfl : logs = s.logs := hlogs
  obtain rfl : trace = s.trace := htrace
  rfl

/-- What a turn does with an item depends on the handler through the health of the feeds alone. -/
theorem onItem_read (env : Env) (cfg : SimConfig) (maxTrades : ℤ) (s : ReplayState)
    (md : MarketDataHandler) (h : md.health = s.md.health) (item : MdResult) :
    { s with md := md }.onItem env cfg maxTrades item =
      { s.onItem env cfg maxTrades item with md := md } := by
  have halike : s.Alike id s.gateway.scenario.extraLatencyUs s.gateway.scenario.extraLatencyUs
      { s with md := md } := ⟨h, rfl, rfl, rfl, rfl, rfl, rfl, rfl, rfl, rfl⟩
  have hclock : MatchingEngine.SameReadings id env env s.gateway.scenario.extraLatencyUs
      s.gateway.scenario.extraLatencyUs := ⟨rfl, fun _ => rfl⟩
  have hturn := (halike.onItem hclock (rfl : cfg.timeless = cfg.timeless) maxTrades item).eq_of_id
  rw [hturn, (onItem_turn env cfg maxTrades { s with md := md } item).md]

/-- The run, without the place in the file. -/
def unread (s : ReplayState) : ReplayState := { s with md := s.md.unread }

/-- What a run does with a packet. -/
def onPacket (env : Env) (cfg : SimConfig) (maxTrades : ℤ) (s : ReplayState) (pkt : RawPacket) :
    ReplayState :=
  let (item, md) := s.md.onPacket pkt
  { s with md := md }.onItem env cfg maxTrades item

theorem md_onPacket (env : Env) (cfg : SimConfig) (maxTrades : ℤ) (s : ReplayState)
    (pkt : RawPacket) : (s.onPacket env cfg maxTrades pkt).md = (s.md.onPacket pkt).2 :=
  (onItem_turn env cfg maxTrades { s with md := (s.md.onPacket pkt).2 } (s.md.onPacket pkt).1).md

theorem md_packets (env : Env) (cfg : SimConfig) (maxTrades : ℤ) (packets : List RawPacket)
    (s : ReplayState) : (packets.foldl (ReplayState.onPacket env cfg maxTrades) s).md =
      s.md.processed packets := by
  induction packets generalizing s with
  | nil => rfl
  | cons pkt packets ih =>
    rw [List.foldl_cons, ih, md_onPacket]
    rfl

theorem seq_onPacket (env : Env) (cfg : SimConfig) (maxTrades : ℤ) (s : ReplayState)
    (pkt : RawPacket) : (s.onPacket env cfg maxTrades pkt).md.seq =
      (s.md.seq.onPacket pkt.venue pkt.channelId pkt.sequenceNo).2 := by
  rw [md_onPacket]
  exact MarketDataHandler.seq_onPacket s.md pkt

theorem unread_onItem (s : ReplayState) {md : MarketDataHandler} (item : MdResult) :
    ({ s with md := md }.onItem env cfg maxTrades item).unread =
      { s with md := md.unread }.onItem env cfg maxTrades item := by
  have hread := onItem_read env cfg maxTrades { s with md := md } md.unread rfl item
  unfold ReplayState.unread
  rw [hread, (onItem_turn env cfg maxTrades { s with md := md } item).md]

/-- The run, with its place in the file and without, takes a packet alike. -/
theorem unread_onPacket (s : ReplayState) (pkt : RawPacket) :
    (s.onPacket env cfg maxTrades pkt).unread = s.unread.onPacket env cfg maxTrades pkt := by
  unfold ReplayState.onPacket
  rw [show s.unread.md.onPacket pkt = ((s.md.onPacket pkt).1, (s.md.onPacket pkt).2.unread) from
    MarketDataHandler.onPacket_unread s.md pkt]
  exact unread_onItem s _

/-- A turn that goes on has taken the next packet. -/
theorem replayBody_packet (h : s.replayBody env cfg maxTrades = .yield s') :
    ∃ pkt, s.md.reader.packets = pkt :: s'.md.reader.packets ∧
      s'.unread = s.unread.onPacket env cfg maxTrades pkt := by
  unfold ReplayState.replayBody at h
  split at h
  · cases h
  · next item md hnext =>
    cases h
    obtain ⟨pkt, reader, hread, heq⟩ := MarketDataHandler.next_some hnext
    have hmd := (onItem_turn env cfg maxTrades { s with md := md } item).md
    have hreader : md.reader = reader := by
      rw [show md = ({ s.md with reader := reader }.onPacket pkt).2 from congrArg Prod.snd heq]
      exact MarketDataHandler.reader_onPacket _ pkt
    refine ⟨pkt, ?_, ?_⟩
    · rw [hmd, hreader]
      exact (nextPacketLoop_some hread).1
    · have htaken : { s with md := md }.onItem env cfg maxTrades item =
          { s with md := { s.md with reader := reader } }.onPacket env cfg maxTrades pkt := by
        unfold ReplayState.onPacket
        rw [← heq]
      rw [htaken, unread_onPacket]
      rfl

theorem replayBody_end (h : s.replayBody env cfg maxTrades = .done s') :
    s.md.reader.packets = [] ∧ s'.unread = s.unread := by
  unfold ReplayState.replayBody MarketDataHandler.next at h
  split at h
  · next hnext =>
    split at hnext
    · next reader hread =>
      cases hnext
      cases h
      exact ⟨nextPacketLoop_none hread, rfl⟩
    · cases hnext
  · cases h

end ReplayState

namespace Simulator

open ReplayState

/-- **A run is the fold of its packets.** -/
theorem replayFor_packets (sim : Simulator) (call : ReplayCall) (turns : ℕ) :
    (sim.replayFor call turns).unread = ((packetsOf call.lines false).take turns).foldl
      (ReplayState.onPacket call.env sim.cfg call.maxTrades) (sim.start call.lines).unread := by
  have hloop : ∀ turns s, (runLoop (replayBody call.env sim.cfg call.maxTrades) turns s).unread =
      (s.md.reader.packets.take turns).foldl
        (ReplayState.onPacket call.env sim.cfg call.maxTrades) s.unread := by
    intro turns
    induction turns with
    | zero => intro s; rfl
    | succ turns ih =>
      intro s
      rw [runLoop]
      cases hbody : replayBody call.env sim.cfg call.maxTrades s with
      | done s' =>
        obtain ⟨hnil, heq⟩ := replayBody_end hbody
        rw [hnil]
        exact heq
      | yield s' =>
        obtain ⟨pkt, hcons, heq⟩ := replayBody_packet hbody
        rw [hcons, List.take_succ_cons, List.foldl_cons, ← heq]
        exact ih s'
  exact hloop turns (sim.start call.lines)

theorem length_packetsOf (lines : List Bytes) (headerSkipped : Bool) :
    (packetsOf lines headerSkipped).length ≤ lines.length := by
  fun_induction packetsOf lines headerSkipped with
  | case1 => rfl
  | case2 headerSkipped line lines trimmed hempty ih => exact ih.trans (Nat.le_succ _)
  | case3 headerSkipped line lines trimmed hempty hheader ih => exact ih.trans (Nat.le_succ _)
  | case4 headerSkipped line lines trimmed hempty hheader hnone ih => exact ih.trans (Nat.le_succ _)
  | case5 headerSkipped line lines trimmed hempty hheader pkt hsome ih => exact Nat.succ_le_succ ih

/-- A whole run is the fold of all packets of its file. -/
theorem runReplay_packets (sim : Simulator) (call : ReplayCall) :
    (sim.runReplay call).unread = (packetsOf call.lines false).foldl
      (ReplayState.onPacket call.env sim.cfg call.maxTrades) (sim.start call.lines).unread := by
  have hlength := length_packetsOf call.lines false
  unfold Simulator.runReplay
  rw [replayFor_packets, List.take_of_length_le (by omega)]

end Simulator

end Hft
