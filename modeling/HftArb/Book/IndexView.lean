import HftArb.Book.Invariant

/-!
# The book an id index describes

What a book should show, computed from the id index alone: a level for every price with a positive
total, the best prices, the depths and whether the book is crossed.  `AgreesWithIndex` says that a
book shows exactly that, and `Exact.agreesWithIndex` that a well formed book which hides nothing
does.
-/

namespace Hft

open FiniteMap
open Std (ExtTreeMap TransCmp LawfulEqCmp ReflCmp)

namespace OrderIndex

/-- The prices of the orders of one side, one entry for each order. -/
def prices (orders : OrderIndex ℤ) (side : Side) : List ℤ :=
  (orders.toList.filter fun e => e.2.side = side).map fun e => e.2.pricePaise

/-- The highest price of a Buy order. -/
def bestBid (orders : OrderIndex ℤ) : Option ℤ := (prices orders .buy).max?

/-- The lowest price of a Sell order. -/
def bestAsk (orders : OrderIndex ℤ) : Option ℤ := (prices orders .sell).min?

/-- The quantity resting at a best price. -/
def bestQty (orders : OrderIndex ℤ) (side : Side) : Option ℤ → ℤ
  | none => 0
  | some px => qtyAt orders side px

/-- The quantity resting on one side. -/
def sideQty (orders : OrderIndex ℤ) (side : Side) : ℤ :=
  total orders fun _ o => if o.side = side then o.qty else 0

/-- A Buy order rests at or above a Sell order. -/
def crossed (orders : OrderIndex ℤ) : Bool :=
  match bestBid orders, bestAsk orders with
  | some bid, some ask => decide (bid ≥ ask)
  | _, _ => false

variable {orders : OrderIndex ℤ} {side : Side} {px : ℤ}

/-- Orders rest at a price exactly when their total there is positive. -/
theorem mem_prices_iff (h : Ok orders) : px ∈ prices orders side ↔ 0 < qtyAt orders side px := by
  have hmem : px ∈ prices orders side ↔ ∃ (id : ℕ) (o : RestingOrder ℤ),
      orders[id]? = some o ∧ o.side = side ∧ o.pricePaise = px := by
    simp only [prices, List.mem_map, List.mem_filter, decide_eq_true_eq, Prod.exists,
      ExtTreeMap.mem_toList_iff_getElem?_eq_some, and_assoc]
  rw [hmem]
  constructor
  · rintro ⟨id, o, ho, rfl, rfl⟩
    exact (h id o ho).1.trans_le (qty_le_qtyAt h ho)
  · intro hpos
    by_contra hnone
    push Not at hnone
    have hzero : qtyAt orders side px = 0 := by
      refine total_eq_zero fun id o ho => ?_
      unfold RestingOrder.share
      exact if_neg fun hat => hnone id o ho hat.1 hat.2
    omega

end OrderIndex

namespace OrderBook

/-- The book shows what its id index describes, and nothing else. -/
structure AgreesWithIndex (b : OrderBook ℤ) : Prop where
  bids : ∀ px, b.bids[px]? = visible (OrderIndex.qtyAt b.orders .buy px)
  asks : ∀ px, b.asks[px]? = visible (OrderIndex.qtyAt b.orders .sell px)
  bidPx : ∀ nowNs, (b.bestQuote nowNs).bidPxPaise = (OrderIndex.bestBid b.orders).getD 0
  bidQty : ∀ nowNs, (b.bestQuote nowNs).bidQty =
    OrderIndex.bestQty b.orders .buy (OrderIndex.bestBid b.orders)
  askPx : ∀ nowNs, (b.bestQuote nowNs).askPxPaise = (OrderIndex.bestAsk b.orders).getD 0
  askQty : ∀ nowNs, (b.bestQuote nowNs).askQty =
    OrderIndex.bestQty b.orders .sell (OrderIndex.bestAsk b.orders)
  depthAt : ∀ side px, b.depthAt side px = OrderIndex.qtyAt b.orders side px
  totalDepth : ∀ side, b.totalDepth side = OrderIndex.sideQty b.orders side
  crossed : b.crossed = OrderIndex.crossed b.orders

section Levels

variable {cmp : ℤ → ℤ → Ordering} [TransCmp cmp] [LawfulEqCmp cmp] {levels : ExtTreeMap ℤ ℤ cmp}
  {orders : OrderIndex ℤ} {side : Side}

/-- The levels of one side add up to the quantity resting on it. -/
theorem total_levels (hok : OrderIndex.Ok orders)
    (hl : ∀ px, levels[px]? = visible (OrderIndex.qtyAt orders side px)) :
    total levels (fun _ qty => qty) = OrderIndex.sideQty orders side := by
  have hlevel : total levels (fun _ qty => qty) =
      total levels fun px _ => total orders fun _ o => o.share side px := by
    refine total_congr fun px q hq => ?_
    rw [hl, visible_eq_some] at hq
    exact hq.2.symm
  rw [hlevel, total_comm]
  refine total_congr fun id o ho => ?_
  by_cases hside : o.side = side
  · have hshown : levels[o.pricePaise]? = some (OrderIndex.qtyAt orders side o.pricePaise) := by
      have hle := OrderIndex.qty_le_qtyAt hok ho
      rw [hside] at hle
      rw [hl, visible_of_pos ((hok id o ho).1.trans_le hle)]
    rw [if_pos hside, total_eq_single hshown fun px q _ hne => ?_]
    · simp [RestingOrder.share, hside]
    · simp [RestingOrder.share, Ne.symm hne]
  · rw [if_neg hside]
    exact total_eq_zero fun px q _ => by simp [RestingOrder.share, hside]

/-- `begin()` of a side is its best price, with the quantity resting there. -/
theorem front_levels {best : Option ℤ} (hok : OrderIndex.Ok orders)
    (hl : ∀ px, levels[px]? = visible (OrderIndex.qtyAt orders side px))
    (hnone : best = none → OrderIndex.prices orders side = [])
    (hsome : ∀ px, best = some px → px ∈ OrderIndex.prices orders side ∧
      ∀ px' ∈ OrderIndex.prices orders side, (cmp px px').isLE) :
    front levels = best.map fun px => (px, OrderIndex.qtyAt orders side px) := by
  cases best with
  | none =>
    rw [Option.map_none, front_eq_none_iff]
    intro px
    have hpx : ¬ 0 < OrderIndex.qtyAt orders side px := by
      rw [← OrderIndex.mem_prices_iff hok, hnone rfl]
      simp
    rw [hl, visible_of_nonpos (not_lt.1 hpx)]
  | some px =>
    obtain ⟨hmem, hmin⟩ := hsome px rfl
    rw [Option.map_some, front_eq_some_iff]
    refine ⟨by rw [hl, visible_of_pos ((OrderIndex.mem_prices_iff hok).1 hmem)], ?_⟩
    intro px' q' hq'
    rw [hl, visible_eq_some] at hq'
    exact hmin px' ((OrderIndex.mem_prices_iff hok).2 hq'.1)

end Levels

variable {b : OrderBook ℤ}

theorem Exact.depthAt_eq (he : b.Exact) (side : Side) (px : ℤ) :
    b.depthAt side px = OrderIndex.qtyAt b.orders side px := by
  have := he side px
  unfold hidden at this
  omega

/-- A well formed book that hides nothing shows what its index describes. -/
theorem Exact.agreesWithIndex (he : b.Exact) (h : b.Wf) : b.AgreesWithIndex := by
  have hlevel : ∀ side px, b.level side px = visible (OrderIndex.qtyAt b.orders side px) :=
    fun side px => by rw [h.levels side px, he.depthAt_eq]
  have hbid : front b.bids = (OrderIndex.bestBid b.orders).map
      fun px => (px, OrderIndex.qtyAt b.orders .buy px) := by
    refine front_levels h.index (hlevel .buy) (fun hn => List.max?_eq_none_iff.1 hn)
      fun px hpx => ?_
    obtain ⟨hmem, hmax⟩ := List.max?_eq_some_iff.1 hpx
    exact ⟨hmem, fun px' hpx' => Int.isLE_compare.2 (hmax px' hpx')⟩
  have hask : front b.asks = (OrderIndex.bestAsk b.orders).map
      fun px => (px, OrderIndex.qtyAt b.orders .sell px) := by
    refine front_levels h.index (hlevel .sell) (fun hn => List.min?_eq_none_iff.1 hn)
      fun px hpx => ?_
    obtain ⟨hmem, hmin⟩ := List.min?_eq_some_iff.1 hpx
    exact ⟨hmem, fun px' hpx' => Int.isLE_compare.2 (hmin px' hpx')⟩
  refine ⟨hlevel .buy, hlevel .sell, fun _ => ?_, fun _ => ?_, fun _ => ?_, fun _ => ?_,
    he.depthAt_eq, fun side => ?_, ?_⟩
  · simp only [bestQuote, hbid, Option.map_map]
    cases OrderIndex.bestBid b.orders <;> rfl
  · simp only [bestQuote, hbid, Option.map_map]
    cases OrderIndex.bestBid b.orders <;> rfl
  · simp only [bestQuote, hask, Option.map_map]
    cases OrderIndex.bestAsk b.orders <;> rfl
  · simp only [bestQuote, hask, Option.map_map]
    cases OrderIndex.bestAsk b.orders <;> rfl
  · cases side with
    | buy => exact total_levels h.index (hlevel .buy)
    | sell => exact total_levels h.index (hlevel .sell)
    | unknown =>
      refine (total_eq_zero fun id o ho => if_neg ?_).symm
      exact (h.index id o ho).2
  · simp only [OrderBook.crossed, OrderIndex.crossed, hbid, hask]
    cases OrderIndex.bestBid b.orders <;> cases OrderIndex.bestAsk b.orders <;> rfl

end OrderBook

end Hft
