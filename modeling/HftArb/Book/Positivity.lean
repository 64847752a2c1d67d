import HftArb.Book.Run

/-!
# Real prices

`add` refuses non-positive prices and quantities; `modify` of a resting order checks the quantity
only.  `Remains b b'` says that `b'` has no level and no order that `b` has not; every move of the
book but `rest` is of this kind, so prices can go wrong in one place only
(`RealPrices.exec_iff`).
-/

namespace Hft

open FiniteMap Transition
open Std (ExtTreeMap TransCmp LawfulEqCmp)

namespace OrderBook

variable {b b' : OrderBook ℤ} {id : ℕ} {o : RestingOrder ℤ} {side s : Side} {px p qty : ℤ}

/-- Every level and every order of `b'` is one of `b`, perhaps with another quantity. -/
structure Remains (b b' : OrderBook ℤ) : Prop where
  levels : ∀ side px qty, b'.level side px = some qty → ∃ qty', b.level side px = some qty'
  orders : ∀ (id : ℕ) o', b'.orders[id]? = some o' →
    ∃ o, b.orders[id]? = some o ∧ o'.side = o.side ∧ o'.pricePaise = o.pricePaise

theorem Remains.refl (b : OrderBook ℤ) : Remains b b :=
  ⟨fun _ _ qty h => ⟨qty, h⟩, fun _ o h => ⟨o, h, rfl, rfl⟩⟩

theorem Remains.trans {b'' : OrderBook ℤ} (h : Remains b b') (h' : Remains b' b'') :
    Remains b b'' := by
  constructor
  · intro side px qty hl
    obtain ⟨qty', hl'⟩ := h'.levels side px qty hl
    exact h.levels side px qty' hl'
  · intro id o ho
    obtain ⟨o', ho', hs', hp'⟩ := h'.orders id o ho
    obtain ⟨o'', ho'', hs'', hp''⟩ := h.orders id o' ho'
    exact ⟨o'', ho'', hs'.trans hs'', hp'.trans hp''⟩

/-! ### Moves that leave nothing new -/

theorem getElem?_takeFromLevel_some {cmp : ℤ → ℤ → Ordering} [TransCmp cmp] [LawfulEqCmp cmp]
    {levels : ExtTreeMap ℤ ℤ cmp} {q : ℤ} (h : (takeFromLevel levels px qty)[p]? = some q) :
    ∃ q', levels[p]? = some q' := by
  unfold takeFromLevel at h
  cases hl : levels[px]? with
  | none =>
    rw [hl] at h
    exact ⟨q, h⟩
  | some level =>
    rw [hl] at h
    dsimp only at h
    split_ifs at h
    · rw [ExtTreeMap.getElem?_erase] at h
      split_ifs at h
      exact ⟨q, h⟩
    · rw [ExtTreeMap.getElem?_insert] at h
      split_ifs at h with hc
      · rw [← LawfulEqCmp.eq_of_compare hc]
        exact ⟨level, hl⟩
      · exact ⟨q, h⟩

theorem level_of_removeFromLevel {q : ℤ}
    (h : (b.removeFromLevel side px qty).level s p = some q) : ∃ q', b.level s p = some q' := by
  unfold removeFromLevel at h
  split_ifs at h
  · exact ⟨q, h⟩
  · cases side <;> cases s <;>
      first | exact ⟨q, h⟩ | exact getElem?_takeFromLevel_some h

/-- Taking from a level and writing an index of which every order rested before. -/
theorem remains_removeFromLevel {m : OrderIndex ℤ}
    (hm : ∀ (id : ℕ) o', m[id]? = some o' →
      ∃ o, b.orders[id]? = some o ∧ o'.side = o.side ∧ o'.pricePaise = o.pricePaise) :
    Remains b { b.removeFromLevel side px qty with orders := m } := by
  refine ⟨fun s p q hl => ?_, hm⟩
  rw [level_withOrders] at hl
  exact level_of_removeFromLevel hl

theorem remains_cancel (b : OrderBook ℤ) (id : ℕ) : Remains b (b.cancel id) := by
  unfold cancel
  cases b.orders[id]? with
  | none => exact .refl b
  | some o =>
    refine remains_removeFromLevel fun id' o' ho' => ?_
    rw [orders_removeFromLevel, ExtTreeMap.getElem?_erase] at ho'
    split_ifs at ho'
    exact ⟨o', ho', rfl, rfl⟩

theorem remains_trade (b : OrderBook ℤ) (id : ℕ) (side : Side) (px qty : ℤ) :
    Remains b (b.trade id side px qty) := by
  unfold trade
  by_cases hqty : qty ≤ 0
  · rw [if_pos hqty]
    exact .refl b
  rw [if_neg hqty]
  cases ho : b.orders[id]? with
  | none =>
    dsimp only
    split_ifs
    · exact ⟨fun s p q hl => level_of_removeFromLevel hl, fun id o ho => by
        rw [orders_removeFromLevel] at ho
        exact ⟨o, ho, rfl, rfl⟩⟩
    · exact .refl b
  | some o =>
    refine remains_removeFromLevel fun id' o' ho' => ?_
    rw [orders_removeFromLevel] at ho'
    split_ifs at ho'
    · rw [ExtTreeMap.getElem?_erase] at ho'
      split_ifs at ho'
      exact ⟨o', ho', rfl, rfl⟩
    · rw [ExtTreeMap.getElem?_insert] at ho'
      split_ifs at ho' with hc
      · cases ho'
        rw [← LawfulEqCmp.eq_of_compare hc]
        exact ⟨o, ho, rfl, rfl⟩
      · exact ⟨o', ho', rfl, rfl⟩

theorem remains_clear (b : OrderBook ℤ) : Remains b b.clear := by
  constructor
  · intro side px qty hl
    cases side <;> simp [clear, level] at hl
  · intro id o ho
    simp [clear] at ho

theorem remains_withHeader (b : OrderBook ℤ) (ev : BookEvent ℤ) : Remains b (b.withHeader ev) := by
  constructor
  · intro side px qty hl
    rw [level_withHeader] at hl
    exact ⟨qty, hl⟩
  · intro id o ho
    exact ⟨o, ho, rfl, rfl⟩

theorem remains_consume (h : b.Wf) (ids : List ℕ) (side : Side) (px : ℤ) (hqty : 0 ≤ qty) :
    Remains b (b.consumeOrdersAtPrice ids side px qty) := by
  have hspec := OrderIndex.consumeLoop_spec side px ids b.orders qty [] hqty (.of_ok h.index)
  unfold consumeOrdersAtPrice
  generalize consumeLoop side px ids b.orders qty [] = res at hspec ⊢
  obtain ⟨m, remaining, eraseIds⟩ := res
  dsimp only at hspec ⊢
  constructor
  · intro s p q hl
    rw [level_withOrders] at hl
    obtain ⟨q', hl'⟩ := level_of_removeFromLevel hl
    rw [level_withOrders] at hl'
    exact ⟨q', hl'⟩
  · intro id o' ho'
    rw [orders_removeFromLevel, OrderIndex.getElem?_eraseAll] at ho'
    split_ifs at ho'
    obtain ⟨o, ho, hs, hp, -⟩ := hspec.shrunk.exists_of_some ho'
    exact ⟨o, ho, hs, hp⟩

theorem remains_matchIoc (h : b.Wf) (walk : WalkOrder ℤ) (aggressor : Side) (limitPx qty : ℤ) :
    Remains b (b.matchIoc walk aggressor limitPx qty).1 := by
  unfold matchIoc
  split_ifs with hbad
  · exact .refl b
  · have hqty : 0 ≤ qty := by omega
    refine (matchLoop_ends walk aggressor limitPx h hqty).induct
      (I := fun s => MatchInv b aggressor limitPx qty s ∧ Remains b s.book)
      (R := fun s => Remains b s.book) ⟨.start h hqty, .refl b⟩ ?_ ?_
    · intro s s' hs hbody
      refine ⟨(hs.1.turn hbody).1, hs.2.trans ?_⟩
      obtain ⟨px, level, hbest, hopen, -, rfl⟩ := matchBody_yield hbody
      have hlevel := hs.1.keeps.wf.levels.pos (level_of_best hbest)
      exact remains_consume hs.1.keeps.wf _ _ px (le_min (not_le.1 hopen).le hlevel.le)
    · intro s t hs hbody
      rw [matchBody_done hbody]
      exact hs.2

/-! ### Positive prices and quantities -/

/-- Prices and quantities are positive everywhere, and so are those of the best quote. -/
structure RealPrices (b : OrderBook ℤ) : Prop where
  levels : ∀ side px qty, b.level side px = some qty → 0 < px ∧ 0 < qty
  orders : ∀ (id : ℕ) o, b.orders[id]? = some o →
    id ≠ 0 ∧ o.side ≠ .unknown ∧ 0 < o.pricePaise ∧ 0 < o.qty
  bid : ∀ nowNs px qty, b.level .buy px = some qty →
    0 < (b.bestQuote nowNs).bidPxPaise ∧ 0 < (b.bestQuote nowNs).bidQty
  ask : ∀ nowNs px qty, b.level .sell px = some qty →
    0 < (b.bestQuote nowNs).askPxPaise ∧ 0 < (b.bestQuote nowNs).askQty
  valid : b.venue ≠ .unknown → b.instrumentId ≠ 0 → ∀ px qty px' qty',
    b.level .buy px = some qty → b.level .sell px' = some qty' →
      ∀ nowNs, (b.bestQuote nowNs).valid = true

/-- A level of a side is shown by the best quote. -/
theorem exists_best {q : ℤ} (h : b.level side p = some q) : ∃ e, b.best side = some e := by
  cases hb : b.best side with
  | none =>
    cases side with
    | buy => rw [show b.level .buy p = none from front_eq_none_iff.1 hb p] at h; cases h
    | sell => rw [show b.level .sell p = none from front_eq_none_iff.1 hb p] at h; cases h
    | unknown => cases h
  | some e => exact ⟨e, rfl⟩

/-- The quotes follow from the levels. -/
theorem RealPrices.of_positive
    (hlevels : ∀ side px qty, b.level side px = some qty → 0 < px ∧ 0 < qty)
    (horders : ∀ (id : ℕ) o, b.orders[id]? = some o →
      id ≠ 0 ∧ o.side ≠ .unknown ∧ 0 < o.pricePaise ∧ 0 < o.qty) : b.RealPrices := by
  have hbid : ∀ nowNs px qty, b.level .buy px = some qty →
      0 < (b.bestQuote nowNs).bidPxPaise ∧ 0 < (b.bestQuote nowNs).bidQty := by
    intro nowNs px qty hl
    obtain ⟨e, he⟩ := exists_best hl
    have hpos := hlevels .buy e.1 e.2 (level_of_best he)
    have hfront : front b.bids = some e := he
    simpa [bestQuote, hfront] using hpos
  have hask : ∀ nowNs px qty, b.level .sell px = some qty →
      0 < (b.bestQuote nowNs).askPxPaise ∧ 0 < (b.bestQuote nowNs).askQty := by
    intro nowNs px qty hl
    obtain ⟨e, he⟩ := exists_best hl
    have hpos := hlevels .sell e.1 e.2 (level_of_best he)
    have hfront : front b.asks = some e := he
    simpa [bestQuote, hfront] using hpos
  refine ⟨hlevels, horders, hbid, hask, ?_⟩
  intro hvenue hid px qty px' qty' hl hl' nowNs
  have hb := hbid nowNs px qty hl
  have ha := hask nowNs px' qty' hl'
  exact decide_eq_true ⟨hvenue, hid, hb.1, ha.1, hb.2, ha.2⟩

/-- What remains of real prices are real prices. -/
theorem RealPrices.of_remains (h : b.RealPrices) (hr : Remains b b') (hwf : b'.Wf) :
    b'.RealPrices := by
  refine .of_positive (fun side px qty hl => ?_) fun id o ho => ?_
  · obtain ⟨qty', hl'⟩ := hr.levels side px qty hl
    exact ⟨(h.levels side px qty' hl').1, hwf.levels.pos hl⟩
  · obtain ⟨o', ho', hs, hp⟩ := hr.orders id o ho
    obtain ⟨hid, -, hpx, -⟩ := h.orders id o' ho'
    obtain ⟨hqty, hside⟩ := hwf.index id o ho
    exact ⟨hid, hside, hp ▸ hpx, hqty⟩

/-- Resting an order keeps prices real exactly when its own price is. -/
theorem RealPrices.rest_iff (h : b.RealPrices) (hid : id ≠ 0) (hside : o.side ≠ .unknown)
    (hqty : 0 < o.qty) : (b.rest id o).RealPrices ↔ 0 < o.pricePaise := by
  constructor
  · intro hrest
    have ho : (b.rest id o).orders[id]? = some o := by
      rw [rest, orders_addLevel]
      exact ExtTreeMap.getElem?_insert_self
    exact (hrest.orders id o ho).2.2.1
  · intro hpx
    refine .of_positive (fun s p q hl => ?_) fun id' o' ho' => ?_
    · rw [rest, level_addLevel hside] at hl
      simp only [level_withOrders, depthAt_withOrders] at hl
      split_ifs at hl with hat
      · -- at the order's own price what was there before counts too
        have hdepth : 0 ≤ b.depthAt s p := by
          rw [depthAt_eq]
          cases hl' : b.level s p with
          | none => exact le_rfl
          | some q' => exact (h.levels s p q' hl').2.le
        cases hl
        exact ⟨hat.2 ▸ hpx, by omega⟩
      · exact h.levels s p q hl
    · rw [rest, orders_addLevel] at ho'
      rw [ExtTreeMap.getElem?_insert] at ho'
      split_ifs at ho' with hc
      · cases ho'
        exact ⟨LawfulEqCmp.eq_of_compare hc ▸ hid, hside, hpx, hqty⟩
      · exact h.orders id' o' ho'

theorem RealPrices.new (venue : Venue) (instrumentId : ℕ) :
    (new venue instrumentId : OrderBook ℤ).RealPrices := by
  refine .of_positive (fun side px qty hl => ?_) fun id o ho => ?_
  · rw [level_empty] at hl
    cases hl
  · simp [show (OrderBook.new venue instrumentId : OrderBook ℤ).orders = ∅ from rfl] at ho

end OrderBook

/-! ### One operation -/

/-- A modify, as its id, price and quantity. -/
structure Modification where
  id : ℕ
  newPx : ℤ
  newQty : ℤ

/-- The modify that an operation makes. -/
def BookOp.modification : BookOp → Option Modification
  | .modify id _ newPx newQty => some ⟨id, newPx, newQty⟩
  | .apply ev =>
      if ev.eventType = .modify then some ⟨ev.orderId, ev.pricePaise, ev.qty⟩ else none
  | _ => none

namespace OrderBook

variable {b b' : OrderBook ℤ} {id : ℕ} {side : Side} {px qty : ℤ} {op : BookOp}

/-- The operation moves no resting order to a price that is not positive. -/
def MovesToRealPrice (b : OrderBook ℤ) (op : BookOp) : Prop :=
  ∀ c ∈ op.modification, c.id ∈ b.orders → 0 < c.newQty → 0 < c.newPx

instance : Decidable (b.MovesToRealPrice op) := by unfold MovesToRealPrice; infer_instance

theorem RealPrices.add (h : b.RealPrices) (hwf : b.Wf) (id : ℕ) (side : Side) (px qty : ℤ) :
    (b.add id side px qty).RealPrices := by
  by_cases hbad : id = 0 ∨ side = .unknown ∨ px ≤ 0 ∨ qty ≤ 0
  · rw [OrderBook.add, if_pos hbad]
    exact h
  · rw [add_eq hbad]
    push Not at hbad
    have hcancel := h.of_remains (remains_cancel b id) (keeps_cancel hwf id).wf
    exact (hcancel.rest_iff hbad.1 hbad.2.1 hbad.2.2.2).2 hbad.2.2.1

theorem RealPrices.modify_iff (h : b.RealPrices) (hwf : b.Wf) (id : ℕ) (side : Side) (px qty : ℤ) :
    (b.modify id side px qty).RealPrices ↔ (id ∈ b.orders → 0 < qty → 0 < px) := by
  cases ho : b.orders[id]? with
  | none =>
    have hadd : b.modify id side px qty = b.add id side px qty := by simp [modify, ho]
    have hnot : id ∉ b.orders := by simpa using ho
    rw [hadd]
    exact ⟨fun _ hin => absurd hin hnot, fun _ => h.add hwf id side px qty⟩
  | some o =>
    have hin : id ∈ b.orders := ExtTreeMap.mem_iff_isSome_getElem?.2 (by rw [ho]; rfl)
    have hcancel := h.of_remains (remains_cancel b id) (keeps_cancel hwf id).wf
    obtain ⟨hid, hside, -, -⟩ := h.orders id o ho
    rw [modify_eq ho]
    by_cases hqty : qty ≤ 0
    · rw [if_pos hqty]
      exact ⟨fun _ _ hpos => absurd hpos (not_lt.2 hqty), fun _ => hcancel⟩
    · -- a modify that names no side keeps the old one, but nothing checks the price
      rw [if_neg hqty]
      have hfinal : (if side = .unknown then o.side else side) ≠ .unknown := by
        split_ifs with hs
        · exact hside
        · exact hs
      rw [hcancel.rest_iff hid hfinal (not_le.1 hqty)]
      exact ⟨fun hpx _ _ => hpx, fun hpx => hpx hin (not_le.1 hqty)⟩

/-- An event that is no modify keeps prices real. -/
theorem RealPrices.apply (h : b.RealPrices) (hwf : b.Wf) {ev : BookEvent ℤ}
    (htype : ev.eventType ≠ .modify) : (b.apply ev).RealPrices := by
  have hwf' := (keeps_withHeader hwf ev).wf
  have hheader := h.of_remains (remains_withHeader b ev) hwf'
  have hnext := wf_exec hwf (.apply ev)
  simp only [exec] at hnext
  unfold OrderBook.apply at hnext ⊢
  cases hev : ev.eventType with
  | add => exact hheader.add hwf' ev.orderId ev.side ev.pricePaise ev.qty
  | modify => exact absurd hev htype
  | cancel =>
    rw [hev] at hnext
    exact hheader.of_remains (remains_cancel _ ev.orderId) hnext
  | trade =>
    rw [hev] at hnext
    exact hheader.of_remains (remains_trade _ ev.orderId ev.side ev.pricePaise ev.qty) hnext
  | reset =>
    rw [hev] at hnext
    exact hheader.of_remains (remains_clear _) hnext
  | heartbeat => exact hheader
  | unknown => exact hheader

/-- The step lemma: prices stay real exactly when no order is moved to a price that is not. -/
theorem RealPrices.exec_iff (h : b.RealPrices) (hwf : b.Wf) (op : BookOp) :
    (b.exec op).RealPrices ↔ b.MovesToRealPrice op := by
  have hnone : op.modification = none → b.MovesToRealPrice op := by
    intro hop c hc
    rw [hop] at hc
    cases hc
  cases op with
  | apply ev =>
    by_cases htype : ev.eventType = .modify
    · have hheader := h.of_remains (remains_withHeader b ev) (keeps_withHeader hwf ev).wf
      have hmodify := hheader.modify_iff (keeps_withHeader hwf ev).wf ev.orderId ev.side
        ev.pricePaise ev.qty
      have hexec : b.exec (.apply ev) =
          (b.withHeader ev).modify ev.orderId ev.side ev.pricePaise ev.qty := by
        simp [exec, OrderBook.apply, htype]
      rw [hexec, hmodify]
      simp [MovesToRealPrice, BookOp.modification, htype, withHeader]
    · exact iff_of_true (h.apply hwf htype) (hnone (if_neg htype))
  | add id side px qty => exact iff_of_true (h.add hwf id side px qty) (hnone rfl)
  | modify id side newPx newQty =>
    refine (h.modify_iff hwf id side newPx newQty).trans ?_
    simp [MovesToRealPrice, BookOp.modification]
  | cancel id =>
    exact iff_of_true (h.of_remains (remains_cancel b id) (wf_exec hwf (.cancel id))) (hnone rfl)
  | trade restingId side px qty =>
    exact iff_of_true (h.of_remains (remains_trade b restingId side px qty)
      (wf_exec hwf (.trade restingId side px qty))) (hnone rfl)
  | matchIoc walk aggressor limitPx qty =>
    exact iff_of_true (h.of_remains (remains_matchIoc hwf walk aggressor limitPx qty)
      (wf_exec hwf (.matchIoc walk aggressor limitPx qty))) (hnone rfl)

/-! ### Runs -/

/-- **When prices are real.**  All along a run from the empty book prices and quantities are
positive, and a book with levels on both sides has a valid quote, exactly when no resting order is
modified to a price that is not positive. -/
theorem realPrices_iff (venue : Venue) (instrumentId : ℕ) (ops : List BookOp) :
    (∀ pre, pre <+: ops → (pre.foldl exec (new venue instrumentId)).RealPrices) ↔
      AllSteps exec MovesToRealPrice (new venue instrumentId) ops :=
  forall_prefix_iff (I := Wf) (P := RealPrices) (fun _ op hwf _ _ => wf_exec hwf op)
    (fun _ op hwf h => h.exec_iff hwf op) (.new venue instrumentId) (.new venue instrumentId) ops

/-- A feed event for order `id` of NSE instrument 1. -/
def nseEvent (eventType : EventType) (id : ℕ) (side : Side) (px : ℤ) : BookOp :=
  .apply
    { tsExchangeNs := 0
      tsIngestNs := 1
      venue := .nse
      instrumentId := 1
      nativeToken := 1594
      eventType := eventType
      orderId := id
      side := side
      pricePaise := px
      qty := 10
      nativePayload := [] }

/-- A bid at 100 and an ask at 101 that is modified to price 0. -/
def askModifiedToZero : List BookOp :=
  [nseEvent .add 1 .buy 100, nseEvent .add 2 .sell 101, nseEvent .modify 2 .sell 0]

/-- Price 0 heads the asks, and the venue has no valid quote although both sides rest. -/
theorem not_realPrices_askModifiedToZero :
    ¬ ∀ pre, pre <+: askModifiedToZero → (pre.foldl exec (new .nse 1)).RealPrices := by
  intro h
  have hvalid := (h askModifiedToZero List.prefix_rfl).valid (by decide +kernel)
    (by decide +kernel) 100 10 0 10 (by decide +kernel) (by decide +kernel) 1
  exact absurd hvalid (by decide +kernel)

end OrderBook

end Hft
