import HftArb.Sim.BookAge
import HftArb.Sim.Prefixes

/-!
# Where the fills come from

The gateway fills orders out of the replayed books, and what it fills is gone.  So at every price a
run is filled at most what the feed has offered there, and what is filled is never offered again
(`run_liquidity`).  The account is kept price by price: an event adds no more to the depth than it
offers (`depthAt_apply_le`), and a submission moves depth into fills (`Potential.submit`).
-/

namespace Hft

/-- What an event offers on a side at a price: orders that are added there or moved there. -/
def BookEvent.offered (ev : BookEvent ℤ) (side : Side) (px : ℤ) : ℤ :=
  if (ev.eventType = .add ∧ ev.side = side ∨
      ev.eventType = .modify ∧ (ev.side = side ∨ ev.side = .unknown)) ∧ ev.pricePaise = px
  then max 0 ev.qty
  else 0

theorem BookEvent.offered_nonneg (ev : BookEvent ℤ) (side : Side) (px : ℤ) :
    0 ≤ ev.offered side px := by
  unfold offered
  split_ifs
  · exact le_max_left _ _
  · exact le_rfl

namespace OrderBook

variable {b : OrderBook ℤ} {side s : Side} {px p qty : ℤ}

/-! ### Events -/

/-- Nothing that is removed adds depth. -/
theorem depthAt_removeFromLevel_le (h : b.LevelsPos) :
    (b.removeFromLevel s p qty).depthAt side px ≤ b.depthAt side px := by
  rcases le_or_gt qty 0 with hle | hpos
  · have hsame : b.removeFromLevel s p qty = b := if_pos hle
    rw [hsame]
  · have hnonneg := h.depthAt_nonneg side px
    rw [depthAt_removeFromLevel h hpos.le]
    split_ifs
    · omega
    · exact le_rfl

theorem depthAt_cancel_le (h : b.LevelsPos) (id : ℕ) :
    (b.cancel id).LevelsPos ∧ (b.cancel id).depthAt side px ≤ b.depthAt side px := by
  unfold cancel
  cases b.orders[id]? with
  | none => exact ⟨h, le_rfl⟩
  | some o =>
    refine ⟨h.removeFromLevel.withOrders _, ?_⟩
    dsimp only
    rw [depthAt_withOrders]
    exact depthAt_removeFromLevel_le h

theorem depthAt_trade_le (h : b.LevelsPos) (id : ℕ) :
    (b.trade id s p qty).depthAt side px ≤ b.depthAt side px := by
  unfold trade
  by_cases hqty : qty ≤ 0
  · rw [if_pos hqty]
  · rw [if_neg hqty]
    cases b.orders[id]? with
    | none =>
      dsimp only
      split_ifs
      · exact depthAt_removeFromLevel_le h
      · exact le_rfl
    | some o =>
      dsimp only
      rw [depthAt_withOrders]
      exact depthAt_removeFromLevel_le h

theorem depthAt_add_le (h : b.LevelsPos) (id : ℕ) :
    (b.add id s p qty).depthAt side px ≤
      b.depthAt side px + if s = side ∧ p = px then max 0 qty else 0 := by
  have hoffered : (0 : ℤ) ≤ if s = side ∧ p = px then max 0 qty else 0 := by
    split_ifs <;> omega
  unfold add
  by_cases hbad : id = 0 ∨ s = .unknown ∨ p ≤ 0 ∨ qty ≤ 0
  · rw [if_pos hbad]
    omega
  · rw [if_neg hbad]
    dsimp only
    have hold : (if id ∈ b.orders then b.cancel id else b).depthAt side px ≤ b.depthAt side px := by
      split_ifs
      · exact (depthAt_cancel_le h id).2
      · exact le_rfl
    generalize (if id ∈ b.orders then b.cancel id else b) = b' at hold ⊢
    rw [depthAt_addLevel fun hs => hbad (.inr (.inl hs)), depthAt_withOrders]
    simp only [eq_comm (a := side), eq_comm (a := px)]
    split_ifs
    · omega
    · omega

theorem depthAt_modify_le (h : b.Wf) (id : ℕ) :
    (b.modify id s p qty).depthAt side px ≤
      b.depthAt side px + if (s = side ∨ s = .unknown) ∧ p = px then max 0 qty else 0 := by
  unfold modify
  cases ho : b.orders[id]? with
  | none =>
    refine (depthAt_add_le h.levels id).trans ?_
    split_ifs <;> grind
  | some o =>
    dsimp only
    have hold := @depthAt_removeFromLevel_le b side o.side px o.pricePaise o.qty h.levels
    have hknown : (if s = .unknown then o.side else s) ≠ .unknown := by
      split_ifs with hs
      · exact (h.index id o ho).2
      · exact hs
    by_cases hqty : qty ≤ 0
    · rw [if_pos hqty, depthAt_withOrders]
      split_ifs <;> omega
    · rw [if_neg hqty, depthAt_addLevel hknown, depthAt_withOrders]
      have hmax : max 0 qty = qty := max_eq_right (by omega)
      rw [hmax]
      split_ifs <;> grind

/-- An event adds no more to the depth than it offers. -/
theorem depthAt_apply_le (h : b.Wf) (ev : BookEvent ℤ) :
    (b.apply ev).depthAt side px ≤ b.depthAt side px + ev.offered side px := by
  have hheader := (keeps_withHeader h ev).wf
  have hoffered := ev.offered_nonneg side px
  rw [← depthAt_withHeader b ev side px]
  unfold apply
  generalize b.withHeader ev = b' at hheader ⊢
  have hnonneg := hheader.levels.depthAt_nonneg side px
  cases htype : ev.eventType with
  | add =>
    have hadd := @depthAt_add_le b' side ev.side px ev.pricePaise ev.qty hheader.levels ev.orderId
    simpa [BookEvent.offered, htype] using hadd
  | modify =>
    have hmodify := @depthAt_modify_le b' side ev.side px ev.pricePaise ev.qty hheader ev.orderId
    simpa [BookEvent.offered, htype] using hmodify
  | cancel => exact (depthAt_cancel_le hheader.levels _).2.trans (by omega)
  | trade => exact (depthAt_trade_le hheader.levels _).trans (by omega)
  | reset =>
    have hclear : b'.clear.depthAt side px = 0 := by cases side <;> simp [clear, depthAt]
    show b'.clear.depthAt side px ≤ _
    omega
  | heartbeat => exact Int.le_add_of_nonneg_right hoffered
  | unknown => exact Int.le_add_of_nonneg_right hoffered

end OrderBook

/-! ### Books -/

namespace BookManager

/-- The depth of a book at a price. -/
def depth (m : BookManager) (v : Venue) (i : ℕ) (side : Side) (px : ℤ) : ℤ :=
  ((m.book v i).map fun b => b.depthAt side px).getD 0

variable {m : BookManager} {v : Venue} {i : ℕ} {side : Side} {px : ℤ}

theorem Wf.depth_nonneg (h : m.Wf) : 0 ≤ m.depth v i side px := by
  unfold depth
  cases hb : m.book v i with
  | none => exact le_rfl
  | some b => exact (h.book hb).levels.depthAt_nonneg side px

theorem Wf.depth_onEvent_le (h : m.Wf) (ev : BookEvent ℤ) : (m.onEvent ev).depth v i side px ≤
    m.depth v i side px +
      if ev.venue = v ∧ ev.instrumentId = i then ev.offered side px else 0 := by
  unfold depth
  rw [book_onEvent]
  split_ifs with hkey
  · rw [Option.map_some, Option.getD_some]
    cases hb : m.book v i with
    | none =>
      have hnew := @OrderBook.depthAt_apply_le (.new v i) side px (.new v i) ev
      have hempty : (OrderBook.new v i : OrderBook ℤ).depthAt side px = 0 := by
        cases side <;> simp [OrderBook.new, OrderBook.depthAt]
      rw [hempty] at hnew
      exact hnew
    | some b => exact OrderBook.depthAt_apply_le (h.book hb) ev
  · omega

end BookManager

/-! ### Fills -/

/-- The quantity of the fills for a side at a price of a book. -/
def takenAt (v : Venue) (i : ℕ) (side : Side) (px : ℤ) (rows : List FillRow) : ℤ :=
  ((rows.filter fun f => f.venue = v.text ∧ f.instrumentId = i ∧ f.side = side.text ∧
    f.fillPxPaise = px).map FillRow.fillQty).sum

theorem takenAt_append (v : Venue) (i : ℕ) (side : Side) (px : ℤ) (rows rows' : List FillRow) :
    takenAt v i side px (rows ++ rows') = takenAt v i side px rows + takenAt v i side px rows' := by
  unfold takenAt
  rw [List.filter_append, List.map_append, List.sum_append]

namespace MatchingEngine

open OrderManager OrderBook

variable {v : Venue} {i : ℕ} {side : Side} {px : ℤ}

/-- What an order takes is taken at its own book, for its own side. -/
theorem takenAt_matchReports (intent : OrderIntent) (id : String) (delayedAck : Bool) (order : Order)
    (ts : ℕ) (levelFills : List (LevelFill ℤ)) :
    takenAt v i side px
        ((fillsOf intent id (matchReports delayedAck order ts levelFills)).map Fill.row) =
      if intent.venue = v ∧ intent.instrumentId = i ∧ intent.side = side
      then filledAt levelFills px else 0 := by
  have hvenue : intent.venue.text = v.text ↔ intent.venue = v := by
    cases intent.venue <;> cases v <;> decide
  have hside : intent.side.text = side.text ↔ intent.side = side := by
    cases intent.side <;> cases side <;> decide
  rw [fillsOf_matchReports, List.map_map]
  unfold takenAt filledAt
  rw [List.filter_map, List.map_map]
  split_ifs with hkey
  · obtain ⟨hv, hi, hs⟩ := hkey
    simp [Function.comp_def, Fill.row, Order.fillOf, newOrder, makeReport, hv, hi, hs]
  · have hnone : ∀ lf ∈ levelFills, ¬ (intent.venue.text = v.text ∧ intent.instrumentId = i ∧
        intent.side.text = side.text ∧ lf.pricePaise = px) := fun lf _ h =>
      hkey ⟨hvenue.1 h.1, h.2.1, hside.1 h.2.2.1⟩
    have hempty : levelFills.filter (fun lf => intent.venue.text = v.text ∧
        intent.instrumentId = i ∧ intent.side.text = side.text ∧ lf.pricePaise = px) = [] :=
      List.filter_eq_nil_iff.2 fun lf hlf => by simpa using hnone lf hlf
    simp only [Function.comp_def, Fill.row, Order.fillOf, newOrder, makeReport]
    rw [hempty]
    rfl

/-- **What an order takes, the books lose.** -/
theorem send_moves {env : Env} {g : MatchingEngine} (h : g.books.Wf) {intent : OrderIntent}
    (hside : intent.side ≠ .unknown) (id : String) (nowNs : ℕ) :
    let sent := g.send env (newOrder intent id nowNs)
    sent.2.books.depth v i (opposite side) px +
        takenAt v i side px ((fillsOf intent id sent.1).map Fill.row) =
      g.books.depth v i (opposite side) px := by
  intro sent
  have hsending : Sending env g (newOrder intent id nowNs) sent := send_sending env g _
  generalize sent = res at hsending ⊢
  cases hsending with
  | reject ts hrefusal => exact add_zero _
  | @matched b ts hdisc hrole hbook =>
    dsimp only
    rw [takenAt_matchReports]
    simp only [newOrder] at hbook ⊢
    have htaken := (h.book hbook).takenFromDepth (env.walk g.sends) intent.side intent.pricePaise
      (g.scenario.capFillQty intent.role intent.qty)
    unfold BookManager.depth
    rw [BookManager.book_setBook]
    by_cases hbooked : intent.venue = v ∧ intent.instrumentId = i
    · obtain ⟨rfl, rfl⟩ := hbooked
      rw [if_pos ⟨rfl, rfl⟩, hbook]
      by_cases hs : intent.side = side
      · subst hs
        have hdepth := htaken.depthAt px
        simp only [Option.map_some, Option.getD_some, and_self, if_true]
        omega
      · have hown := htaken.own px
        simp only [hs, and_false, if_false, Option.map_some, Option.getD_some, add_zero]
        cases side with
        | unknown => rfl
        | buy =>
          have hsell : intent.side = .sell := by cases hi : intent.side <;> simp_all
          rw [hsell] at hown ⊢
          exact hown
        | sell =>
          have hbuy : intent.side = .buy := by cases hi : intent.side <;> simp_all
          rw [hbuy] at hown ⊢
          exact hown
    · have hnot : ¬ (intent.venue = v ∧ intent.instrumentId = i ∧ intent.side = side) :=
        fun hall => hbooked ⟨hall.1, hall.2.1⟩
      rw [if_neg hbooked, if_neg hnot, add_zero]

end MatchingEngine

/-! ### Runs -/

/-- What the run has been filled at a price, and what is left there. -/
def ReplayState.potential (s : ReplayState) (v : Venue) (i : ℕ) (side : Side) (px : ℤ) : ℤ :=
  s.gateway.books.depth v i (opposite side) px + takenAt v i side px s.logs.fills

namespace Execution

variable {env : Env} {nowNs : ℕ} {x x' : Execution} {v : Venue} {i : ℕ} {side : Side} {px : ℤ}

/-- An execution moves depth into fills. -/
theorem Steps.potential (h : Steps env nowNs x x') (hs : x.run.Sound) :
    x'.run.potential v i side px = x.run.potential v i side px := by
  induction h with
  | refl => rfl
  | @tail y y' hsteps hstep ih =>
    refine Eq.trans ?_ ih
    have hsound := Steps.sound hsteps hs
    cases hstep with
    | quiet hq =>
      unfold ReplayState.potential
      rw [hq.gateway, hq.logs.1]
    | submit intent hclear =>
      have hmoves := @MatchingEngine.send_moves v i side px env y.run.gateway hsound.books intent
        hclear.side (y.run.oms.nextId intent) nowNs
      unfold ReplayState.potential
      rw [gateway_submit hsound, (submit_submitted hsound env nowNs intent).logs.1, takenAt_append,
        ← hmoves]
      unfold newFills
      ring

end Execution

/-- What the events of a venue and instrument offered on a side at a price. -/
def offeredIn (v : Venue) (i : ℕ) (side : Side) (px : ℤ) (results : List MdResult) : ℤ :=
  ((feedEvents v i results).map fun ev => ev.offered side px).sum

section Offers

variable {v : Venue} {i : ℕ} {side : Side} {px : ℤ} {r : MdResult} {ev : BookEvent ℤ}

theorem offeredIn_cons (r : MdResult) (results : List MdResult) :
    offeredIn v i side px (r :: results) =
      offeredIn v i side px [r] + offeredIn v i side px results := by
  have hevents : feedEvents v i (r :: results) = feedEvents v i [r] ++ feedEvents v i results := by
    unfold feedEvents
    rw [← List.filter_append, ← List.filterMap_append, List.singleton_append]
  unfold offeredIn
  rw [hevents, List.map_append, List.sum_append]

theorem offeredIn_none (h : r.event = none) : offeredIn v i side px [r] = 0 := by
  simp [offeredIn, feedEvents, h]

theorem offeredIn_some (h : r.event = some ev) : offeredIn v i side px [r] =
    if ev.venue = v ∧ ev.instrumentId = i then ev.offered side px else 0 := by
  unfold offeredIn feedEvents
  rw [List.filterMap_cons_some h, List.filterMap_nil]
  split_ifs with hkey
  · rw [List.filter_cons_of_pos (by simpa using hkey)]
    exact add_zero _
  · rw [List.filter_cons_of_neg (by simpa using hkey)]
    rfl

end Offers

namespace ReplayState

variable {env : Env} {cfg : SimConfig} {maxTrades : ℤ} {s : ReplayState}
variable {v : Venue} {i : ℕ} {side : Side} {px : ℤ}

/-- A turn adds what its event offers. -/
theorem potential_onItem (hs : s.Sound) (item : MdResult) :
    (s.onItem env cfg maxTrades item).potential v i side px ≤
      s.potential v i side px + offeredIn v i (opposite side) px [item] := by
  have hevent : ∀ ev, item.event = some ev → (s.onBookEvent item ev).potential v i side px ≤
      s.potential v i side px + offeredIn v i (opposite side) px [item] := by
    intro ev hev
    have hfills : (s.onBookEvent item ev).logs.fills = s.logs.fills :=
      (quiet_onBookEvent item ev).1.logs.1
    have hdepth := @BookManager.Wf.depth_onEvent_le _ v i (opposite side) px hs.books ev
    unfold potential
    rw [gateway_onBookEvent, hfills, offeredIn_some hev]
    dsimp only
    omega
  have hturn := onItem_itemTurn env cfg maxTrades s item
  generalize s.onItem env cfg maxTrades item = s' at hturn ⊢
  cases hturn with
  | skip h => rw [offeredIn_none h, add_zero]
  | watch ev h hnoted =>
    refine Eq.trans_le ?_ (hevent ev h)
    unfold potential
    rw [hnoted.gateway, hnoted.logs.1]
  | execute ev nse bse h htrades =>
    have hsteps := executed_steps env cfg ev.tsIngestNs (s.opened cfg item ev nse bse).2
      (s.opened cfg item ev nse bse).1
    have hmoved := @Execution.Steps.potential _ _ _ _ v i side px hsteps
      (sound_opened hs item ev nse bse)
    exact hmoved.trans_le (hevent ev h.event)

/-- **At every price a run is filled what the feed has offered**, and what is left was not filled. -/
theorem potential_packets (h : s.Running) (packets : List RawPacket) :
    (packets.foldl (ReplayState.onPacket env cfg maxTrades) s).potential v i side px ≤
      s.potential v i side px + offeredIn v i (opposite side) px (s.md.results packets) := by
  induction packets generalizing s with
  | nil => exact (add_zero _).ge
  | cons pkt packets ih =>
    have hone := @potential_onItem env cfg maxTrades { s with md := (s.md.onPacket pkt).2 } v i side
      px (h.filed.read _).balanced.sound (s.md.onPacket pkt).1
    have hrest := ih (h.onPacket env cfg maxTrades pkt).1
    rw [md_onPacket] at hrest
    rw [List.foldl_cons, MarketDataHandler.results, offeredIn_cons, ← add_assoc]
    exact hrest.trans (by gcongr; exact hone)

end ReplayState

namespace Simulator

open ReplayState

/-- **No order is filled out of nothing.**  At every point of every run, what the fills of a side have
taken at a price of a book, and what is still shown there, is at most what the book showed when the
run began and what the feed has offered since. -/
theorem run_liquidity (cfg : SimConfig) (calls : List ReplayCall) (call : ReplayCall) (turns : ℕ)
    (v : Venue) (i : ℕ) (side : Side) (px : ℤ) :
    let s := (afterRuns cfg calls).replayFor call turns
    let results := (MarketDataHandler.ofLines []).results ((packetsOf call.lines false).take turns)
    0 ≤ s.gateway.books.depth v i (opposite side) px ∧
      takenAt v i side px s.logs.fills + s.gateway.books.depth v i (opposite side) px ≤
        (afterRuns cfg calls).books.depth v i (opposite side) px +
          offeredIn v i (opposite side) px results := by
  intro s results
  have hpackets : s.unread = _ := replayFor_packets (afterRuns cfg calls) call turns
  have hresults : ((afterRuns cfg calls).start call.lines).unread.md.results
      ((packetsOf call.lines false).take turns) = results :=
    MarketDataHandler.results_unread (.ofLines []) _
  have hrunning := running_start cfg calls call.lines
  have hend : s.unread.Running := by
    rw [hpackets]
    exact foldl_running hrunning _
  have hpotential := @potential_packets call.env (afterRuns cfg calls).cfg call.maxTrades _ v i side
    px hrunning ((packetsOf call.lines false).take turns)
  rw [← hpackets, hresults] at hpotential
  have hdepth : 0 ≤ s.unread.gateway.books.depth v i (opposite side) px :=
    hend.filed.balanced.sound.books.depth_nonneg
  have hbefore : ((afterRuns cfg calls).start call.lines).unread.potential v i side px =
      (afterRuns cfg calls).books.depth v i (opposite side) px := add_zero _
  rw [hbefore] at hpotential
  unfold potential at hpotential
  exact ⟨hdepth, (add_comm _ _).trans_le hpotential⟩

end Simulator

end Hft
