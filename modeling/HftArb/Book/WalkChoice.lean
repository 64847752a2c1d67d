import HftArb.Book.Run

/-!
# Two runs that walk the hash map differently

Two runs of the same events and matches, each with its own iteration orders of `orders_`.  A match
fills from the levels alone, so it answers both runs alike and leaves equal levels
(`SameLevels.matchIoc`); but the orders that absorb its fills are chosen by the walk.  From then on
an event that names an id may find different orders.  `SameEffect` is the condition that it still
takes and adds the same; under it the runs cannot be told apart (`deterministic_of_sameEffect`).
-/

namespace Hft

open FiniteMap Transition
open Std (ExtTreeMap TransCmp LawfulEqCmp)

namespace OrderBook

variable {b b' : OrderBook ℤ} {side : Side} {px qty : ℤ}

/-! ### What can be seen of a book -/

/-- The books have the same header and the same levels. -/
structure SameLevels (b b' : OrderBook ℤ) : Prop where
  venue : b.venue = b'.venue
  instrumentId : b.instrumentId = b'.instrumentId
  lastUpdateNs : b.lastUpdateNs = b'.lastUpdateNs
  bids : b.bids = b'.bids
  asks : b.asks = b'.asks

theorem SameLevels.refl (b : OrderBook ℤ) : b.SameLevels b := ⟨rfl, rfl, rfl, rfl, rfl⟩

theorem SameLevels.symm (h : b.SameLevels b') : b'.SameLevels b :=
  ⟨h.venue.symm, h.instrumentId.symm, h.lastUpdateNs.symm, h.bids.symm, h.asks.symm⟩

theorem SameLevels.trans {b'' : OrderBook ℤ} (h : b.SameLevels b') (h' : b'.SameLevels b'') :
    b.SameLevels b'' :=
  ⟨h.venue.trans h'.venue, h.instrumentId.trans h'.instrumentId,
    h.lastUpdateNs.trans h'.lastUpdateNs, h.bids.trans h'.bids, h.asks.trans h'.asks⟩

theorem SameLevels.level (h : b.SameLevels b') (side : Side) (px : ℤ) :
    b.level side px = b'.level side px := by
  cases side with
  | buy => simp only [OrderBook.level, h.bids]
  | sell => simp only [OrderBook.level, h.asks]
  | unknown => rfl

theorem SameLevels.depthAt (h : b.SameLevels b') (side : Side) (px : ℤ) :
    b.depthAt side px = b'.depthAt side px := by
  rw [depthAt_eq, depthAt_eq, h.level]

theorem SameLevels.best (h : b.SameLevels b') (side : Side) : b.best side = b'.best side := by
  cases side with
  | buy => simp only [OrderBook.best, h.bids]
  | sell => simp only [OrderBook.best, h.asks]
  | unknown => rfl

theorem SameLevels.bestQuote (h : b.SameLevels b') (nowNs : ℕ) :
    b.bestQuote nowNs = b'.bestQuote nowNs := by
  simp only [OrderBook.bestQuote, h.venue, h.instrumentId, h.lastUpdateNs, h.bids, h.asks]

theorem SameLevels.withOrders (h : b.SameLevels b') (m m' : OrderIndex ℤ) :
    SameLevels { b with orders := m } { b' with orders := m' } :=
  ⟨h.venue, h.instrumentId, h.lastUpdateNs, h.bids, h.asks⟩

theorem SameLevels.withHeader (h : b.SameLevels b') (ev : BookEvent ℤ) :
    (b.withHeader ev).SameLevels (b'.withHeader ev) :=
  ⟨rfl, rfl, rfl, h.bids, h.asks⟩

theorem SameLevels.addLevel (h : b.SameLevels b') (side : Side) (px qty : ℤ) :
    (b.addLevel side px qty).SameLevels (b'.addLevel side px qty) := by
  unfold OrderBook.addLevel
  split_ifs
  · exact ⟨h.venue, h.instrumentId, h.lastUpdateNs, by simp only [h.bids], h.asks⟩
  · exact ⟨h.venue, h.instrumentId, h.lastUpdateNs, h.bids, by simp only [h.asks]⟩

theorem SameLevels.removeFromLevel (h : b.SameLevels b') (side : Side) (px qty : ℤ) :
    (b.removeFromLevel side px qty).SameLevels (b'.removeFromLevel side px qty) := by
  unfold OrderBook.removeFromLevel
  split_ifs
  · exact h
  · cases side with
    | buy => exact ⟨h.venue, h.instrumentId, h.lastUpdateNs, by simp only [h.bids], h.asks⟩
    | sell => exact ⟨h.venue, h.instrumentId, h.lastUpdateNs, h.bids, by simp only [h.asks]⟩
    | unknown => exact h

/-- Levels are determined by the quantities they show. -/
theorem SameLevels.of_depthAt (h : b.Wf) (h' : b'.Wf) (hvenue : b.venue = b'.venue)
    (hinstrument : b.instrumentId = b'.instrumentId) (hupdate : b.lastUpdateNs = b'.lastUpdateNs)
    (hdepth : ∀ side px, b.depthAt side px = b'.depthAt side px) : b.SameLevels b' := by
  have hlevel : ∀ side px, b.level side px = b'.level side px := by
    intro side px
    rw [h.levels, h'.levels, hdepth]
  exact ⟨hvenue, hinstrument, hupdate, ExtTreeMap.ext_getElem? fun px => hlevel .buy px,
    ExtTreeMap.ext_getElem? fun px => hlevel .sell px⟩

/-! ### Matching -/

/-- Two matches in step. -/
structure SameMatch (s t : MatchState ℤ) : Prop where
  wf : s.book.Wf
  wf' : t.book.Wf
  levels : s.book.SameLevels t.book
  qty : s.qty = t.qty
  qty_nonneg : 0 ≤ s.qty
  fills : s.fills = t.fills

/-- One fill from the same level, whatever orders absorb it. -/
theorem SameMatch.fill {s t : MatchState ℤ} (h : SameMatch s t) (walk walk' : WalkOrder ℤ)
    {resting : Side} {level : ℤ} (hbest : s.book.best resting = some (px, level)) :
    SameMatch (s.fill walk resting px (min s.qty level))
      (t.fill walk' resting px (min s.qty level)) := by
  have hlevel := level_of_best hbest
  have hpos : 0 < level := h.wf.levels.pos hlevel
  have hqty : 0 ≤ min s.qty level := le_min h.qty_nonneg hpos.le
  have hdepth : s.book.depthAt resting px = level := by
    rw [depthAt_eq, hlevel, Option.getD_some]
  have htaken := consume_taken h.wf resting px (walk.perm s.walks s.book.orders) hqty
    (by rw [hdepth]; exact min_le_right _ _)
  have htaken' := consume_taken h.wf' resting px (walk'.perm t.walks t.book.orders) hqty
    (by rw [← h.levels.depthAt, hdepth]; exact min_le_right _ _)
  obtain ⟨hv, hi, hu⟩ := htaken.header
  obtain ⟨hv', hi', hu'⟩ := htaken'.header
  refine ⟨htaken.keeps.wf, htaken'.keeps.wf, ?_, ?_, ?_, ?_⟩
  · refine .of_depthAt htaken.keeps.wf htaken'.keeps.wf ?_ ?_ ?_ fun s p => ?_
    · exact hv.trans (h.levels.venue.trans hv'.symm)
    · exact hi.trans (h.levels.instrumentId.trans hi'.symm)
    · exact hu.trans (h.levels.lastUpdateNs.trans hu'.symm)
    · show (OrderBook.consumeOrdersAtPrice _ _ _ _ _).depthAt s p =
        (OrderBook.consumeOrdersAtPrice _ _ _ _ _).depthAt s p
      rw [htaken.depthAt, htaken'.depthAt, h.levels.depthAt]
  · show s.qty - min s.qty level = t.qty - min s.qty level
    rw [h.qty]
  · show 0 ≤ s.qty - min s.qty level
    have hle := min_le_left s.qty level
    omega
  · show s.fills ++ _ = t.fills ++ _
    rw [h.fills]

theorem SameMatch.turn {s t : MatchState ℤ} (h : SameMatch s t) (walk walk' : WalkOrder ℤ)
    (aggressor : Side) (limitPx : ℤ) :
    SameTurn SameMatch (matchBody walk aggressor limitPx s)
      (matchBody walk' aggressor limitPx t) := by
  have hbest := h.levels.best (opposite aggressor)
  rw [matchBody_eq, matchBody_eq, ← h.qty, ← hbest]
  by_cases hqty : s.qty ≤ 0
  · rw [if_pos hqty, if_pos hqty]
    exact .done h
  · rw [if_neg hqty, if_neg hqty]
    cases hb : s.book.best (opposite aggressor) with
    | none => exact .done h
    | some e =>
      obtain ⟨px, level⟩ := e
      dsimp only
      by_cases hlim : WithinLimit aggressor limitPx px
      · rw [if_pos hlim, if_pos hlim]
        exact .yield (h.fill walk walk' hb)
      · rw [if_neg hlim, if_neg hlim]
        exact .done h

/-- A match answers both runs alike and leaves equal levels. -/
theorem SameLevels.matchIoc (hb : b.SameLevels b') (h : b.Wf) (h' : b'.Wf)
    (walk walk' : WalkOrder ℤ) (aggressor : Side) (limitPx qty : ℤ) :
    (b.matchIoc walk aggressor limitPx qty).1.SameLevels
        (b'.matchIoc walk' aggressor limitPx qty).1 ∧
      (b.matchIoc walk aggressor limitPx qty).2 = (b'.matchIoc walk' aggressor limitPx qty).2 := by
  unfold OrderBook.matchIoc
  split_ifs with hbad
  · exact ⟨hb, rfl⟩
  · have hstart : SameMatch ⟨b, qty, [], 0⟩ ⟨b', qty, [], 0⟩ :=
      ⟨h, h', hb, rfl, by dsimp only; omega, rfl⟩
    have hend := runLoop_related (fun s t hst => hst.turn walk walk' aggressor limitPx)
      (qty.toNat + 1) hstart
    exact ⟨hend.levels, hend.fills⟩

/-! ### What an event does to the levels -/

/-- A quantity at a side and price. -/
structure LevelQty where
  side : Side
  px : ℤ
  qty : ℤ
  deriving DecidableEq

/-- The whole of a resting order. -/
def whole (o : RestingOrder ℤ) : LevelQty := ⟨o.side, o.pricePaise, o.qty⟩

/-- What an event asks to be taken from a level: the order that rests under its id, or the part of
it that traded; for a trade of an id that does not rest, what the event itself says. -/
def asksFor (b : OrderBook ℤ) (ev : BookEvent ℤ) : Option LevelQty :=
  match ev.eventType with
  | .add =>
      if ev.orderId = 0 ∨ ev.side = .unknown ∨ ev.pricePaise ≤ 0 ∨ ev.qty ≤ 0 then none
      else (b.orders[ev.orderId]?).map whole
  | .modify | .cancel => (b.orders[ev.orderId]?).map whole
  | .trade =>
      if ev.qty ≤ 0 then none
      else match b.orders[ev.orderId]? with
        | some o => some ⟨o.side, o.pricePaise, min ev.qty o.qty⟩
        | none =>
            if ev.side ≠ .unknown ∧ ev.pricePaise > 0 then some ⟨ev.side, ev.pricePaise, ev.qty⟩
            else none
  | .reset | .heartbeat | .unknown => none

/-- What an event takes: no more than the level shows. -/
def takes (b : OrderBook ℤ) (ev : BookEvent ℤ) : Option LevelQty :=
  (b.asksFor ev).bind fun l =>
    if 0 < b.depthAt l.side l.px then some { l with qty := min l.qty (b.depthAt l.side l.px) }
    else none

/-- What `add` adds to a level. -/
def addsNew (ev : BookEvent ℤ) : Option LevelQty :=
  if ev.orderId = 0 ∨ ev.side = .unknown ∨ ev.pricePaise ≤ 0 ∨ ev.qty ≤ 0 then none
  else some ⟨ev.side, ev.pricePaise, ev.qty⟩

/-- What an event adds to a level. -/
def adds (b : OrderBook ℤ) (ev : BookEvent ℤ) : Option LevelQty :=
  match ev.eventType with
  | .add => addsNew ev
  | .modify =>
      match b.orders[ev.orderId]? with
      | none => addsNew ev
      | some o =>
          if ev.qty ≤ 0 then none
          else some ⟨if ev.side = .unknown then o.side else ev.side, ev.pricePaise, ev.qty⟩
  | .cancel | .trade | .reset | .heartbeat | .unknown => none

/-- The book less a quantity at a level. -/
def less (b : OrderBook ℤ) : Option LevelQty → OrderBook ℤ
  | none => b
  | some l => b.removeFromLevel l.side l.px l.qty

/-- The book with a quantity added to a level. -/
def plus (b : OrderBook ℤ) : Option LevelQty → OrderBook ℤ
  | none => b
  | some l => b.addLevel l.side l.px l.qty

theorem SameLevels.less (h : b.SameLevels b') (l : Option LevelQty) :
    (b.less l).SameLevels (b'.less l) := by
  cases l with
  | none => exact h
  | some l => exact h.removeFromLevel l.side l.px l.qty

theorem SameLevels.plus (h : b.SameLevels b') (l : Option LevelQty) :
    (b.plus l).SameLevels (b'.plus l) := by
  cases l with
  | none => exact h
  | some l => exact h.addLevel l.side l.px l.qty

theorem sameLevels_cancel (b : OrderBook ℤ) (id : ℕ) :
    (b.cancel id).SameLevels (b.less ((b.orders[id]?).map whole)) := by
  unfold cancel
  cases b.orders[id]? with
  | none => exact .refl b
  | some o => exact (SameLevels.refl _).withOrders _ (b.removeFromLevel _ _ _).orders

theorem sameLevels_rest (b : OrderBook ℤ) (id : ℕ) (o : RestingOrder ℤ) :
    (b.rest id o).SameLevels (b.plus (some (whole o))) :=
  ((SameLevels.refl b).withOrders _ b.orders).addLevel o.side o.pricePaise o.qty

theorem sameLevels_trade (b : OrderBook ℤ) {ev : BookEvent ℤ} (htype : ev.eventType = .trade) :
    (b.trade ev.orderId ev.side ev.pricePaise ev.qty).SameLevels (b.less (b.asksFor ev)) := by
  unfold trade asksFor
  rw [htype]
  dsimp only
  by_cases hqty : ev.qty ≤ 0
  · rw [if_pos hqty, if_pos hqty]
    exact .refl b
  · rw [if_neg hqty, if_neg hqty]
    cases b.orders[ev.orderId]? with
    | none =>
      dsimp only
      split_ifs
      · exact .refl _
      · exact .refl b
    | some o => exact (SameLevels.refl _).withOrders _ (b.removeFromLevel _ _ _).orders

theorem sameLevels_add (b : OrderBook ℤ) (ev : BookEvent ℤ)
    (hbad : ¬(ev.orderId = 0 ∨ ev.side = .unknown ∨ ev.pricePaise ≤ 0 ∨ ev.qty ≤ 0)) :
    (b.add ev.orderId ev.side ev.pricePaise ev.qty).SameLevels
      ((b.less ((b.orders[ev.orderId]?).map whole)).plus (addsNew ev)) := by
  rw [add_eq hbad, addsNew, if_neg hbad]
  exact (sameLevels_rest _ _ _).trans ((sameLevels_cancel b ev.orderId).plus _)

theorem sameLevels_modify (b : OrderBook ℤ) {ev : BookEvent ℤ} (htype : ev.eventType = .modify) :
    (b.modify ev.orderId ev.side ev.pricePaise ev.qty).SameLevels
      ((b.less (b.asksFor ev)).plus (b.adds ev)) := by
  have hasks : b.asksFor ev = (b.orders[ev.orderId]?).map whole := by simp [asksFor, htype]
  rw [hasks]
  unfold adds
  rw [htype]
  dsimp only
  cases ho : b.orders[ev.orderId]? with
  | none =>
    rw [modify_new ho]
    by_cases hbad : ev.orderId = 0 ∨ ev.side = .unknown ∨ ev.pricePaise ≤ 0 ∨ ev.qty ≤ 0
    · rw [add, if_pos hbad, addsNew, if_pos hbad]
      exact .refl b
    · have hnew := sameLevels_add b ev hbad
      rwa [ho] at hnew
  | some o =>
    have hcancel := sameLevels_cancel b ev.orderId
    rw [ho] at hcancel
    rw [modify_eq ho]
    dsimp only
    by_cases hqty : ev.qty ≤ 0
    · rw [if_pos hqty, if_pos hqty]
      exact hcancel
    · rw [if_neg hqty, if_neg hqty]
      exact (sameLevels_rest _ _ _).trans (hcancel.plus _)

/-- An event changes the levels as it asks. -/
theorem sameLevels_apply (b : OrderBook ℤ) {ev : BookEvent ℤ} (hreset : ev.eventType ≠ .reset) :
    (b.apply ev).SameLevels (((b.withHeader ev).less (b.asksFor ev)).plus (b.adds ev)) := by
  unfold OrderBook.apply
  cases htype : ev.eventType with
  | add =>
    simp only [asksFor, adds, htype]
    by_cases hbad : ev.orderId = 0 ∨ ev.side = .unknown ∨ ev.pricePaise ≤ 0 ∨ ev.qty ≤ 0
    · rw [add, if_pos hbad, if_pos hbad, addsNew, if_pos hbad]
      exact .refl _
    · rw [if_neg hbad]
      exact sameLevels_add (b.withHeader ev) ev hbad
  | modify => exact sameLevels_modify (b.withHeader ev) htype
  | cancel =>
    simp only [asksFor, adds, htype]
    exact sameLevels_cancel (b.withHeader ev) ev.orderId
  | trade =>
    have htrade := sameLevels_trade (b.withHeader ev) htype
    have hadds : b.adds ev = none := by simp [adds, htype]
    rw [hadds]
    exact htrade
  | reset => exact absurd htype hreset
  | heartbeat =>
    simp only [asksFor, adds, htype]
    exact .refl _
  | unknown =>
    simp only [asksFor, adds, htype]
    exact .refl _

/-- An event writes its venue, its instrument and its time of arrival into the header. -/
theorem header_apply (b : OrderBook ℤ) (ev : BookEvent ℤ) :
    (b.apply ev).venue = ev.venue ∧ (b.apply ev).instrumentId = ev.instrumentId ∧
      (b.apply ev).lastUpdateNs = ev.tsIngestNs := by
  have hless : ∀ (b : OrderBook ℤ) (l : Option LevelQty), (b.less l).venue = b.venue ∧
      (b.less l).instrumentId = b.instrumentId ∧ (b.less l).lastUpdateNs = b.lastUpdateNs := by
    intro b l
    cases l with
    | none => exact ⟨rfl, rfl, rfl⟩
    | some l => exact header_removeFromLevel
  have hplus : ∀ (b : OrderBook ℤ) (l : Option LevelQty), (b.plus l).venue = b.venue ∧
      (b.plus l).instrumentId = b.instrumentId ∧ (b.plus l).lastUpdateNs = b.lastUpdateNs := by
    intro b l
    cases l with
    | none => exact ⟨rfl, rfl, rfl⟩
    | some l =>
      show (b.addLevel _ _ _).venue = _ ∧ (b.addLevel _ _ _).instrumentId = _ ∧
        (b.addLevel _ _ _).lastUpdateNs = _
      unfold addLevel
      split_ifs <;> exact ⟨rfl, rfl, rfl⟩
  by_cases hreset : ev.eventType = .reset
  · simp only [OrderBook.apply, hreset]
    exact ⟨rfl, rfl, rfl⟩
  · have h := sameLevels_apply b hreset
    exact ⟨h.venue.trans ((hplus _ _).1.trans (hless _ _).1),
      h.instrumentId.trans ((hplus _ _).2.1.trans (hless _ _).2.1),
      h.lastUpdateNs.trans ((hplus _ _).2.2.trans (hless _ _).2.2)⟩

theorem asksFor_pos (h : b.Wf) {ev : BookEvent ℤ} {l : LevelQty} (hl : b.asksFor ev = some l) :
    0 < l.qty := by
  have hwhole : (b.orders[ev.orderId]?).map whole = some l → 0 < l.qty := by
    intro hmap
    obtain ⟨o, ho, rfl⟩ := Option.map_eq_some_iff.1 hmap
    exact (h.index _ o ho).1
  unfold asksFor at hl
  cases htype : ev.eventType with
  | add =>
    rw [htype] at hl
    dsimp only at hl
    split_ifs at hl
    exact hwhole hl
  | modify => rw [htype] at hl; exact hwhole hl
  | cancel => rw [htype] at hl; exact hwhole hl
  | trade =>
    rw [htype] at hl
    dsimp only at hl
    by_cases hqty : ev.qty ≤ 0
    · rw [if_pos hqty] at hl
      cases hl
    rw [if_neg hqty] at hl
    cases ho : b.orders[ev.orderId]? with
    | none =>
      rw [ho] at hl
      dsimp only at hl
      split_ifs at hl
      cases hl
      exact not_le.1 hqty
    | some o =>
      rw [ho] at hl
      cases hl
      exact lt_min (not_le.1 hqty) (h.index _ o ho).1
  | reset => rw [htype] at hl; cases hl
  | heartbeat => rw [htype] at hl; cases hl
  | unknown => rw [htype] at hl; cases hl

/-- A level saturates: what it does not show is not taken. -/
theorem sameLevels_less_takes (h : b.Wf) (ev : BookEvent ℤ) :
    (b.less (b.asksFor ev)).SameLevels (b.less (b.takes ev)) := by
  unfold takes
  cases hl : b.asksFor ev with
  | none => exact .refl b
  | some l =>
    have hqty := asksFor_pos h hl
    have hd0 := h.levels.depthAt_nonneg l.side l.px
    have hheader : ∀ q, _ := fun q =>
      @header_removeFromLevel b l.side l.px q
    simp only [Option.bind_some]
    by_cases hd : 0 < b.depthAt l.side l.px
    · rw [if_pos hd]
      have hmin : 0 ≤ min l.qty (b.depthAt l.side l.px) := le_min hqty.le hd0
      refine .of_depthAt (wf_removeFromLevel h) (wf_removeFromLevel h) ?_ ?_ ?_ fun s p => ?_
      · exact (hheader _).1.trans (hheader _).1.symm
      · exact (hheader _).2.1.trans (hheader _).2.1.symm
      · exact (hheader _).2.2.trans (hheader _).2.2.symm
      · show (b.removeFromLevel _ _ _).depthAt s p = (b.removeFromLevel _ _ _).depthAt s p
        rw [depthAt_removeFromLevel h.levels hqty.le, depthAt_removeFromLevel h.levels hmin]
        split_ifs with hat
        · rw [hat.1, hat.2]
          omega
        · rfl
    · rw [if_neg hd]
      refine .of_depthAt (wf_removeFromLevel h) h (hheader _).1 (hheader _).2.1 (hheader _).2.2
        fun s p => ?_
      show (b.removeFromLevel _ _ _).depthAt s p = b.depthAt s p
      rw [depthAt_removeFromLevel h.levels hqty.le]
      split_ifs with hat
      · rw [hat.1, hat.2]
        omega
      · rfl

theorem takes_withHeader (b : OrderBook ℤ) (ev ev' : BookEvent ℤ) :
    (b.withHeader ev').takes ev = b.takes ev := by
  unfold takes
  simp only [depthAt_withHeader]
  rfl

/-- An event that takes and adds the same in two books with equal levels leaves equal levels. -/
theorem SameLevels.apply (hb : b.SameLevels b') (h : b.Wf) (h' : b'.Wf) {ev : BookEvent ℤ}
    (htakes : b.takes ev = b'.takes ev) (hadds : b.adds ev = b'.adds ev) :
    (b.apply ev).SameLevels (b'.apply ev) := by
  by_cases hreset : ev.eventType = .reset
  · simp only [OrderBook.apply, hreset]
    exact ⟨rfl, rfl, rfl, rfl, rfl⟩
  · have htakes' : (b.withHeader ev).takes ev = (b'.withHeader ev).takes ev := by
      rw [takes_withHeader, takes_withHeader, htakes]
    have hless : ((b.withHeader ev).less (b.asksFor ev)).SameLevels
        ((b'.withHeader ev).less (b'.asksFor ev)) := by
      have hleft := sameLevels_less_takes (keeps_withHeader h ev).wf ev
      have hright := sameLevels_less_takes (keeps_withHeader h' ev).wf ev
      rw [← htakes'] at hright
      exact hleft.trans (((hb.withHeader ev).less _).trans hright.symm)
    have happly := sameLevels_apply b hreset
    have happly' := sameLevels_apply b' hreset
    rw [← hadds] at happly'
    exact happly.trans ((hless.plus _).trans happly'.symm)

/-! ### Two runs -/

/-- What happens to a book in a run: an event of the feed or a match. -/
inductive BookCall
  | event (ev : BookEvent ℤ)
  | matchIoc (aggressor : Side) (limitPx qty : ℤ)

/-- A call that walks the map in the given orders, and the fills it returns. -/
def call (b : OrderBook ℤ) (walk : WalkOrder ℤ) : BookCall → OrderBook ℤ × List (LevelFill ℤ)
  | .event ev => (b.apply ev, [])
  | .matchIoc aggressor limitPx qty => b.matchIoc walk aggressor limitPx qty

theorem wf_call (h : b.Wf) (walk : WalkOrder ℤ) (c : BookCall) : (b.call walk c).1.Wf := by
  cases c with
  | event ev => exact wf_exec h (.apply ev)
  | matchIoc aggressor limitPx qty => exact wf_exec h (.matchIoc walk aggressor limitPx qty)

/-- A call made in two runs, and the order in which each walks the map. -/
structure TwinCall where
  call : BookCall
  left : WalkOrder ℤ
  right : WalkOrder ℤ

/-- The book in two runs. -/
structure Twin where
  left : OrderBook ℤ
  right : OrderBook ℤ

/-- Both runs make the call. -/
def Twin.step (t : Twin) (c : TwinCall) : Twin where
  left := (t.left.call c.left c.call).1
  right := (t.right.call c.right c.call).1

/-- Both runs return the same fills, and show the same best quote afterwards. -/
def Twin.SameAnswer (t : Twin) (c : TwinCall) : Prop :=
  (t.left.call c.left c.call).2 = (t.right.call c.right c.call).2 ∧
    ∀ nowNs, (t.step c).left.bestQuote nowNs = (t.step c).right.bestQuote nowNs

/-- Two runs from the empty book answer alike at every step. -/
def Deterministic (venue : Venue) (instrumentId : ℕ) (calls : List TwinCall) : Prop :=
  AllSteps Twin.step Twin.SameAnswer ⟨new venue instrumentId, new venue instrumentId⟩ calls

/-- A match, or an event that takes and adds the same quantities at the same levels in both
runs. -/
def Twin.SameEffect (t : Twin) (c : TwinCall) : Prop :=
  match c.call with
  | .event ev => t.left.takes ev = t.right.takes ev ∧ t.left.adds ev = t.right.adds ev
  | .matchIoc _ _ _ => True

/-- The two runs have well formed books with equal levels. -/
structure Twin.Alike (t : Twin) : Prop where
  left : t.left.Wf
  right : t.right.Wf
  levels : t.left.SameLevels t.right

/-- A call with the same effect is answered alike and keeps the runs alike. -/
theorem Twin.Alike.step {t : Twin} (h : t.Alike) {c : TwinCall} (heffect : t.SameEffect c) :
    t.SameAnswer c ∧ (t.step c).Alike := by
  have hcall : (t.left.call c.left c.call).1.SameLevels (t.right.call c.right c.call).1 ∧
      (t.left.call c.left c.call).2 = (t.right.call c.right c.call).2 := by
    unfold Twin.SameEffect at heffect
    cases hc : c.call with
    | event ev =>
      rw [hc] at heffect
      exact ⟨h.levels.apply h.left h.right heffect.1 heffect.2, rfl⟩
    | matchIoc aggressor limitPx qty =>
      exact h.levels.matchIoc h.left h.right c.left c.right aggressor limitPx qty
  exact ⟨⟨hcall.2, fun nowNs => hcall.1.bestQuote nowNs⟩, wf_call h.left _ _, wf_call h.right _ _,
    hcall.1⟩

/-- **When reconstruction is deterministic.**  In every run of events and matches, with any two
choices of walks, in which every event has the same effect in both, the fills and the best quote
are the same after every step. -/
theorem deterministic_of_sameEffect (venue : Venue) (instrumentId : ℕ) (calls : List TwinCall)
    (h : AllSteps Twin.step Twin.SameEffect ⟨new venue instrumentId, new venue instrumentId⟩ calls) :
    Deterministic venue instrumentId calls :=
  h.strengthen (I := Twin.Alike) (fun _ _ halike heffect => halike.step heffect)
    ⟨.new venue instrumentId, .new venue instrumentId, .refl _⟩

/-- A feed event for order `id`, a Buy at 100. -/
def bidEvent (eventType : EventType) (id : ℕ) (qty : ℤ) : BookEvent ℤ where
  tsExchangeNs := 0
  tsIngestNs := 1
  venue := .nse
  instrumentId := 1
  nativeToken := 1594
  eventType := eventType
  orderId := id
  side := .buy
  pricePaise := 100
  qty := qty
  nativePayload := []

/-- The walk by falling id. -/
def fallingIds : WalkOrder ℤ := ⟨fun _ orders => orders.keys.reverse, fun _ _ => List.reverse_perm _⟩

/-- A call that one run makes by rising and the other by falling id. -/
def bothWays (c : BookCall) : TwinCall := ⟨c, .byId, fallingIds⟩

/-- Two orders of ten at one price, a match of `qty`, and the cancel of order `id`. -/
def matchThenCancel (qty : ℤ) (id : ℕ) : List TwinCall :=
  [.event (bidEvent .add 1 10), .event (bidEvent .add 2 10), .matchIoc .sell 100 qty,
    .event (bidEvent .cancel id 0)].map bothWays

/-- The match consumes order 1 in one run and order 2 in the other; the cancel of order 1 then finds
nothing to cancel, or the last bid. -/
theorem not_deterministic_matchThenCancel : ¬ Deterministic .nse 1 (matchThenCancel 10 1) := by
  intro h
  have hcancel := h.2.2.2.1.2 1
  exact absurd hcancel (by decide +kernel)

/-- After a match of both orders the cancel finds neither run's order 1. -/
theorem deterministic_of_sameEffect_all : Deterministic .nse 1 (matchThenCancel 20 1) :=
  deterministic_of_sameEffect .nse 1 _
    ⟨⟨by decide +kernel, by decide +kernel⟩, ⟨by decide +kernel, by decide +kernel⟩, trivial,
      ⟨by decide +kernel, by decide +kernel⟩, trivial⟩

end OrderBook

end Hft
