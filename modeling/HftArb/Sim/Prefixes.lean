import HftArb.Sim.Counts
import HftArb.Sim.LogFiles
import HftArb.Sim.PacketRun

/-!
# Runs that are the beginning of others

A run only ever appends to its log files (`foldl_grows`), and it is the fold of its packets.  So what
it has decided by a point of its file does not depend on what comes behind (`run_causal`), and a
smaller `max_trades` cuts a run short without changing what was traded before (`run_maxTrades`).
-/

namespace Hft

/-- The second logs go on where the first end. -/
structure Logs.Grows (l l' : Logs) : Prop where
  opportunities : l.opportunities <+: l'.opportunities
  orders : l.orders <+: l'.orders
  fills : l.fills <+: l'.fills
  risks : l.risks <+: l'.risks
  pairs : l.pairs <+: l'.pairs

namespace Logs

variable {l l' l'' : Logs}

theorem Grows.refl (l : Logs) : l.Grows l :=
  ⟨List.prefix_rfl, List.prefix_rfl, List.prefix_rfl, List.prefix_rfl, List.prefix_rfl⟩

theorem Grows.trans (h : l.Grows l') (h' : l'.Grows l'') : l.Grows l'' :=
  ⟨h.opportunities.trans h'.opportunities, h.orders.trans h'.orders, h.fills.trans h'.fills,
    h.risks.trans h'.risks, h.pairs.trans h'.pairs⟩

/-- More rows make a longer text. -/
theorem text_grows {f f' : LogFile} (hnames : f'.names = f.names) (hrows : f.rows <+: f'.rows) :
    f.text <+: f'.text := by
  obtain ⟨more, hmore⟩ := hrows
  refine ⟨fileText more, ?_⟩
  unfold LogFile.text LogFile.header fileText textOf
  rw [hnames, ← hmore, ← List.flatMap_append, ← List.map_append, List.cons_append]

/-- The files grow with the logs. -/
theorem Grows.files (h : l.Grows l') :
    List.Forall₂ (fun f f' : LogFile => f.text <+: f'.text) l.files l'.files :=
  .cons (text_grows rfl (h.opportunities.map _)) (.cons (text_grows rfl (h.orders.map _))
    (.cons (text_grows rfl (h.fills.map _)) (.cons (text_grows rfl (h.risks.map _))
      (.cons (text_grows rfl (h.pairs.map _)) .nil))))

end Logs

namespace ReplayState

variable {env : Env} {cfg : SimConfig} {maxTrades : ℤ} {s s' : ReplayState}

/-- Nothing that is on file is taken back. -/
theorem Write.grows (h : Write env s s') : s.logs.Grows s'.logs := by
  have hsend : ∀ (nowNs : ℕ) (intent : OrderIntent),
      s.logs.Grows (s.sendOrder env nowNs intent).logs := fun _ _ =>
    ⟨List.prefix_rfl, List.prefix_append _ _, List.prefix_append _ _, List.prefix_rfl,
      List.prefix_rfl⟩
  cases h with
  | note h =>
    cases h with
    | silent h =>
      rw [h.logs]
      exact .refl _
    | block ts severity rule instrumentId details htexts =>
      exact { Logs.Grows.refl s.logs with risks := List.prefix_append _ _ }
    | leg nowNs intent hsendable hrole => exact hsend nowNs intent
    | hedge nowNs intent hsendable hrole => exact hsend nowNs intent
  | watched d htrade hreason =>
    exact { Logs.Grows.refl s.logs with opportunities := List.prefix_append _ _ }
  | announced d htrade hreason =>
    exact { Logs.Grows.refl s.logs with opportunities := List.prefix_append _ _ }
  | pair p hparent herror =>
    exact { Logs.Grows.refl s.logs with pairs := List.prefix_append _ _ }

theorem Writes.grows (h : Writes env s s') : s.logs.Grows s'.logs := by
  induction h with
  | refl => exact .refl _
  | tail _ hwrite ih => exact ih.trans hwrite.grows

/-- What every state of a run is. -/
structure Running (s : ReplayState) : Prop where
  filed : s.Filed
  idPrefix : Word s.ids.idPrefix.toList

/-- What a run does with a packet. -/
theorem Running.onPacket (h : s.Running) (env : Env) (cfg : SimConfig) (maxTrades : ℤ)
    (pkt : RawPacket) : (s.onPacket env cfg maxTrades pkt).Running ∧
      TurnWrites env cfg maxTrades { s with md := (s.md.onPacket pkt).2 }
        (s.onPacket env cfg maxTrades pkt) := by
  have hread := h.filed.read (s.md.onPacket pkt).2
  have hturn : TurnWrites env cfg maxTrades { s with md := (s.md.onPacket pkt).2 }
      (s.onPacket env cfg maxTrades pkt) :=
    onItem_writes hread h.idPrefix (MarketDataHandler.printable_onPacket _ _) env cfg maxTrades
  refine ⟨⟨hread.turn (onItem_itemTurn env cfg maxTrades _ _), ?_⟩, hturn⟩
  rw [hturn.writes.idPrefix]
  exact h.idPrefix

theorem foldl_running (h : s.Running) (packets : List RawPacket) :
    (packets.foldl (ReplayState.onPacket env cfg maxTrades) s).Running := by
  induction packets generalizing s with
  | nil => exact h
  | cons pkt packets ih => exact ih (h.onPacket env cfg maxTrades pkt).1

/-- **A run appends to its log files.** -/
theorem foldl_grows (h : s.Running) (packets : List RawPacket) :
    s.logs.Grows (packets.foldl (ReplayState.onPacket env cfg maxTrades) s).logs := by
  induction packets generalizing s with
  | nil => exact .refl _
  | cons pkt packets ih =>
    obtain ⟨hrunning, hturn⟩ := h.onPacket env cfg maxTrades pkt
    have hgrows : s.logs.Grows (s.onPacket env cfg maxTrades pkt).logs := hturn.writes.grows
    exact hgrows.trans (ih hrunning)

/-! ### The limit on trades -/

/-- Below two limits a turn does the same under both. -/
theorem onItem_below {maxTrades' : ℤ} (h : s.result.trades < maxTrades)
    (h' : s.result.trades < maxTrades') (item : MdResult) :
    s.onItem env cfg maxTrades' item = s.onItem env cfg maxTrades item := by
  have htrades : ∀ (ev : BookEvent ℤ) (d : StrategyDecision),
      ((s.onBookEvent item ev).announce d).2.result.trades = s.result.trades := by
    intro ev d
    show (s.onBookEvent item ev).result.trades = s.result.trades
    unfold onBookEvent
    dsimp only
    split_ifs <;> rfl
  have htrade : ∀ (ev : BookEvent ℤ) (nowNs : ℕ) (nse bse : BestQuote),
      (s.onBookEvent item ev).tradeOn env cfg maxTrades' nowNs nse bse =
        (s.onBookEvent item ev).tradeOn env cfg maxTrades nowNs nse bse := by
    intro ev nowNs nse bse
    unfold tradeOn
    dsimp only
    rw [if_neg (not_le.2 (htrades ev _ ▸ h')), if_neg (not_le.2 (htrades ev _ ▸ h))]
  unfold onItem
  cases item.event with
  | none => rfl
  | some ev =>
    dsimp only
    simp only [htrade]

/-- At the limit a turn trades no more. -/
theorem TurnWrites.full (ht : TurnWrites env cfg maxTrades s s')
    (hfull : maxTrades ≤ s.result.trades) : s'.result.trades = s.result.trades ∧
      s'.logs.orders = s.logs.orders ∧ s'.logs.fills = s.logs.fills ∧
        s'.logs.pairs = s.logs.pairs := by
  cases ht with
  | watched h hlevel => exact ⟨hlevel.trades, hlevel.orders, hlevel.fills, hlevel.pairs⟩
  | capped d h hlevel hannounce hmax =>
    exact ⟨hlevel.trades, hlevel.orders, hlevel.fills, hlevel.pairs⟩
  | executed nowNs d h hlevel hannounce hmax hstarted hparent =>
    rw [hlevel.trades] at hmax
    exact absurd hfull (not_le.2 hmax)

/-- A run at its limit, and one that may have gone on trading. -/
structure Cut (maxTrades : ℤ) (s s' : ReplayState) : Prop where
  full : maxTrades ≤ s.result.trades
  orders : s.logs.orders <+: s'.logs.orders
  fills : s.logs.fills <+: s'.logs.fills
  pairs : s.logs.pairs <+: s'.logs.pairs

/-- Both runs take a packet. -/
theorem Running.cut {maxTrades' : ℤ} (h : s.Running) (h' : s'.Running) (hle : maxTrades ≤ maxTrades')
    (hcut : s' = s ∨ Cut maxTrades s s') (pkt : RawPacket) :
    s'.onPacket env cfg maxTrades' pkt = s.onPacket env cfg maxTrades pkt ∨
      Cut maxTrades (s.onPacket env cfg maxTrades pkt) (s'.onPacket env cfg maxTrades' pkt) := by
  have hturn := (h.onPacket env cfg maxTrades pkt).2
  have hgrows : s'.logs.Grows (s'.onPacket env cfg maxTrades' pkt).logs :=
    (h'.onPacket env cfg maxTrades' pkt).2.writes.grows
  by_cases hfull : maxTrades ≤ s.result.trades
  · have hcut : Cut maxTrades s s' := by
      rcases hcut with rfl | hcut
      · exact ⟨hfull, List.prefix_rfl, List.prefix_rfl, List.prefix_rfl⟩
      · exact hcut
    obtain ⟨htrades, horders, hfills, hpairs⟩ := hturn.full hfull
    refine .inr ⟨by rw [htrades]; exact hfull, ?_, ?_, ?_⟩
    · rw [horders]
      exact hcut.orders.trans hgrows.orders
    · rw [hfills]
      exact hcut.fills.trans hgrows.fills
    · rw [hpairs]
      exact hcut.pairs.trans hgrows.pairs
  · obtain rfl : s' = s := hcut.resolve_right fun hcut => hfull hcut.full
    have hbelow : s'.result.trades < maxTrades := not_le.1 hfull
    refine .inl ?_
    unfold ReplayState.onPacket
    exact @onItem_below env cfg maxTrades { s' with md := (s'.md.onPacket pkt).2 } maxTrades' hbelow
      (hbelow.trans_le hle) (s'.md.onPacket pkt).1

theorem foldl_cut {maxTrades' : ℤ} (h : s.Running) (h' : s'.Running) (hle : maxTrades ≤ maxTrades')
    (hcut : s' = s ∨ Cut maxTrades s s') (packets : List RawPacket) :
    packets.foldl (ReplayState.onPacket env cfg maxTrades') s' =
        packets.foldl (ReplayState.onPacket env cfg maxTrades) s ∨
      Cut maxTrades (packets.foldl (ReplayState.onPacket env cfg maxTrades) s)
        (packets.foldl (ReplayState.onPacket env cfg maxTrades') s') := by
  induction packets generalizing s s' with
  | nil => exact hcut
  | cons pkt packets ih =>
    exact ih (h.onPacket env cfg maxTrades pkt).1 (h'.onPacket env cfg maxTrades' pkt).1
      (h.cut h' hle hcut pkt)

end ReplayState

/-- The packets of a file that goes on. -/
theorem packetsOf_append (lines more : List Bytes) (headerSkipped : Bool) :
    ∃ headerSkipped', packetsOf (lines ++ more) headerSkipped =
      packetsOf lines headerSkipped ++ packetsOf more headerSkipped' := by
  induction lines generalizing headerSkipped with
  | nil => exact ⟨headerSkipped, rfl⟩
  | cons line lines ih =>
    simp only [List.cons_append, packetsOf.eq_2]
    split_ifs
    · exact ih headerSkipped
    · exact ih true
    · cases packetOf (trim line) with
      | none => exact ih true
      | some pkt =>
        obtain ⟨headerSkipped', heq⟩ := ih true
        exact ⟨headerSkipped', by rw [heq, List.cons_append]⟩

namespace Simulator

open ReplayState

theorem running_start (cfg : SimConfig) (calls : List ReplayCall) (lines : List Bytes) :
    ((afterRuns cfg calls).start lines).unread.Running := by
  have hfiled := filed_replayFor (afterRuns_spec cfg calls).1 (afterRuns_keyed cfg calls)
    ⟨⟨fun _ => 0, fun _ => .byId⟩, lines, 0⟩ 0
  exact ⟨hfiled.read _, show Word "SIM".toList from word_of_all (by decide)⟩

/-- **No look-ahead**: the run on a file passes through the end of the run on any first lines of it,
and the log files of the one begin with those of the other.  Nothing a run has decided, sent or
printed depends on a line it has not read. -/
theorem run_causal (cfg : SimConfig) (calls : List ReplayCall) (env : Env) (maxTrades : ℤ)
    (lines more : List Bytes) :
    let short := (afterRuns cfg calls).runReplay ⟨env, lines, maxTrades⟩
    let long := (afterRuns cfg calls).runReplay ⟨env, lines ++ more, maxTrades⟩
    (∃ packets : List RawPacket,
      long.unread = packets.foldl (onPacket env cfg maxTrades) short.unread) ∧
      short.logs.Grows long.logs ∧
      List.Forall₂ (fun f f' : LogFile => f.text <+: f'.text) short.logs.files long.logs.files := by
  intro short long
  have hshort : short.unread = _ := runReplay_packets (afterRuns cfg calls) ⟨env, lines, maxTrades⟩
  have hlong : long.unread = _ :=
    runReplay_packets (afterRuns cfg calls) ⟨env, lines ++ more, maxTrades⟩
  have hstart : ((afterRuns cfg calls).start (lines ++ more)).unread =
      ((afterRuns cfg calls).start lines).unread := rfl
  obtain ⟨headerSkipped, hpackets⟩ := packetsOf_append lines more false
  rw [(afterRuns_spec cfg calls).2] at hshort hlong
  dsimp only at hshort hlong
  rw [hpackets, List.foldl_append, hstart, ← hshort] at hlong
  have hrunning : short.unread.Running := by
    rw [hshort]
    exact foldl_running (running_start cfg calls lines) _
  have hgrows : short.logs.Grows long.logs := by
    have hunread : long.logs = long.unread.logs := rfl
    rw [hunread, hlong]
    exact foldl_grows hrunning _
  exact ⟨⟨_, hlong⟩, hgrows, hgrows.files⟩

/-- **A smaller limit cuts the trading short and changes nothing before**: the pairs under a limit are
the first ones of the run under any greater limit, and its orders and fills the first ones too. -/
theorem run_maxTrades (cfg : SimConfig) (calls : List ReplayCall) (env : Env) (lines : List Bytes)
    (maxTrades : ℤ) (more : ℕ) :
    let few := (afterRuns cfg calls).runReplay ⟨env, lines, maxTrades⟩
    let many := (afterRuns cfg calls).runReplay ⟨env, lines, maxTrades + more⟩
    few.logs.pairs = many.logs.pairs.take (max 0 maxTrades).toNat ∧
      few.logs.orders <+: many.logs.orders ∧ few.logs.fills <+: many.logs.fills := by
  intro few many
  have hfew : few.unread = _ := runReplay_packets (afterRuns cfg calls) ⟨env, lines, maxTrades⟩
  have hmany : many.unread = _ :=
    runReplay_packets (afterRuns cfg calls) ⟨env, lines, maxTrades + more⟩
  rw [(afterRuns_spec cfg calls).2] at hfew hmany
  have hrunning := running_start cfg calls lines
  have hcut : many.unread = few.unread ∨ Cut maxTrades few.unread many.unread := by
    have hle : maxTrades ≤ maxTrades + more := by omega
    rw [hfew, hmany]
    exact foldl_cut hrunning hrunning hle (.inl rfl) _
  have hcounted : few.Counted cfg maxTrades := counted_replayFor cfg calls ⟨env, lines, maxTrades⟩ _
  have htrades := hcounted.tallied.trades
  have hcapped := hcounted.capped
  rcases hcut with heq | hcut
  · have hlogs : many.logs = few.logs := (congrArg ReplayState.logs heq :)
    rw [hlogs, List.take_of_length_le (by omega)]
    exact ⟨rfl, List.prefix_rfl, List.prefix_rfl⟩
  · have hfull : maxTrades ≤ few.result.trades := hcut.full
    refine ⟨?_, hcut.orders, hcut.fills⟩
    have hlength : (max 0 maxTrades).toNat = few.logs.pairs.length := by omega
    rw [hlength]
    exact List.prefix_iff_eq_take.1 hcut.pairs

end Simulator

end Hft
