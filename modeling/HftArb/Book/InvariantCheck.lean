import HftArb.Book.IndexView
import HftArb.Book.Run

/-!
# What `invariant_ok` checks

The checker recounts the index price by price and compares every level with its count
(`invariantOk_iff`).  It never asks the other way round whether a counted price has a level, so an
order whose level is gone passes.  In a reachable book this is all that can escape it
(`invariantOk_iff_sound`).
-/

namespace Hft

open FiniteMap Transition
open Std (ExtTreeMap TransCmp LawfulEqCmp)

/-- `bid_sum` and `ask_sum`. -/
structure SideSums where
  bidSum : ExtTreeMap ℤ ℤ := ∅
  askSum : ExtTreeMap ℤ ℤ := ∅

/-- Count one order of the index. -/
def SideSums.count (sums : SideSums) (o : RestingOrder ℤ) : SideSums :=
  match o.side with
  | .buy => { sums with bidSum := addToLevel sums.bidSum o.pricePaise o.qty }
  | .sell => { sums with askSum := addToLevel sums.askSum o.pricePaise o.qty }
  | .unknown => sums

/-- The counts of all orders. -/
def OrderIndex.sideSums (orders : OrderIndex ℤ) : SideSums :=
  orders.toList.foldl (fun sums e => sums.count e.2) {}

/-- `invariant_ok`: the answer and the text it leaves in `reason`. -/
def OrderBook.invariantOk (b : OrderBook ℤ) : Bool × String :=
  let fail := fun reason => (false, reason)
  if b.bids.toList.any fun e => e.1 ≤ 0 ∨ e.2 ≤ 0 then fail "bad bid level"
  else if b.asks.toList.any fun e => e.1 ≤ 0 ∨ e.2 ≤ 0 then fail "bad ask level"
  else if b.orders.toList.any fun e => e.2.qty ≤ 0 ∨ e.2.pricePaise ≤ 0 then
    fail "bad order index entry"
  else
    let sums := OrderIndex.sideSums b.orders
    if b.bids.toList.any fun e => sums.bidSum[e.1]? ≠ some e.2 then fail "bid level/index mismatch"
    else if b.asks.toList.any fun e => sums.askSum[e.1]? ≠ some e.2 then
      fail "ask level/index mismatch"
    else (true, "OK")

/-! ### The recount -/

/-- The sums of one side. -/
def SideSums.of (sums : SideSums) (side : Side) (px : ℤ) : Option ℤ :=
  match side with
  | .buy => sums.bidSum[px]?
  | .sell => sums.askSum[px]?
  | .unknown => none

namespace OrderIndex

variable {orders : OrderIndex ℤ} {side : Side} {px : ℤ}

theorem of_count (sums : SideSums) (o : RestingOrder ℤ) (hside : side ≠ .unknown) :
    (sums.count o).of side px =
      if o.side = side ∧ o.pricePaise = px then some (((sums.of side px).getD 0) + o.qty)
      else sums.of side px := by
  cases side with
  | unknown => exact absurd rfl hside
  | buy =>
    cases ho : o.side <;>
      simp [SideSums.count, SideSums.of, ho, getElem?_addToLevel, eq_comm]
  | sell =>
    cases ho : o.side <;>
      simp [SideSums.count, SideSums.of, ho, getElem?_addToLevel, eq_comm]

/-- Positive orders are counted at every price that has one, and nowhere else. -/
theorem of_foldl_count (hside : side ≠ .unknown) (px : ℤ) {l : List (ℕ × RestingOrder ℤ)}
    (hpos : ∀ e ∈ l, 0 < e.2.qty) :
    (l.foldl (fun sums e => sums.count e.2) ({} : SideSums)).of side px =
      visible (l.map fun e => e.2.share side px).sum := by
  induction l using List.reverseRecOn with
  | nil => cases side <;> simp [SideSums.of, visible]
  | append_singleton l e ih =>
    have hl : ∀ e ∈ l, 0 < e.2.qty := fun e' he' => hpos e' (by simp [he'])
    have he : 0 < e.2.qty := hpos e (by simp)
    have hsum : 0 ≤ (l.map fun e => e.2.share side px).sum := by
      refine List.sum_nonneg fun x hx => ?_
      obtain ⟨e', he', rfl⟩ := List.mem_map.1 hx
      exact share_nonneg (hl e' he')
    rw [List.foldl_append, List.map_append, List.sum_append]
    simp only [List.foldl_cons, List.foldl_nil, List.map_cons, List.map_nil, List.sum_cons,
      List.sum_nil, add_zero]
    rw [of_count _ _ hside, ih hl, visible_getD hsum]
    unfold RestingOrder.share at hsum ⊢
    split_ifs
    · rw [visible_of_pos (by omega)]
    · rw [add_zero]

/-- The recount of a positive index is its quantity at each price. -/
theorem of_sideSums (hside : side ≠ .unknown)
    (hpos : ∀ (id : ℕ) (o : RestingOrder ℤ), orders[id]? = some o → 0 < o.qty) (px : ℤ) :
    (sideSums orders).of side px = visible (qtyAt orders side px) :=
  of_foldl_count hside px fun e he =>
    hpos e.1 e.2 (ExtTreeMap.mem_toList_iff_getElem?_eq_some.1 he)

theorem bidSum_sideSums (hpos : ∀ (id : ℕ) (o : RestingOrder ℤ), orders[id]? = some o → 0 < o.qty)
    (px : ℤ) : (sideSums orders).bidSum[px]? = visible (qtyAt orders .buy px) :=
  have hside : Side.buy ≠ .unknown := by decide
  of_sideSums hside hpos px

theorem askSum_sideSums (hpos : ∀ (id : ℕ) (o : RestingOrder ℤ), orders[id]? = some o → 0 < o.qty)
    (px : ℤ) : (sideSums orders).askSum[px]? = visible (qtyAt orders .sell px) :=
  have hside : Side.sell ≠ .unknown := by decide
  of_sideSums hside hpos px

end OrderIndex

namespace OrderBook

variable {b : OrderBook ℤ}

/-- What the book shows is in order: prices and quantities are positive, and every level is the
total of the orders indexed there. -/
structure Orderly (b : OrderBook ℤ) : Prop where
  levels : ∀ side px qty, b.level side px = some qty → 0 < px ∧ 0 < qty
  orders : ∀ (id : ℕ) (o : RestingOrder ℤ), b.orders[id]? = some o → 0 < o.qty ∧ 0 < o.pricePaise
  sums : ∀ side px qty, b.level side px = some qty → OrderIndex.qtyAt b.orders side px = qty

/-- Prices and quantities are positive, and at every price of both sides the level, 0 when absent,
is the total of the orders indexed there. -/
structure Sound (b : OrderBook ℤ) : Prop where
  levels : ∀ side px qty, b.level side px = some qty → 0 < px ∧ 0 < qty
  orders : ∀ (id : ℕ) (o : RestingOrder ℤ), b.orders[id]? = some o → 0 < o.qty ∧ 0 < o.pricePaise
  sums : ∀ side, side ≠ .unknown → ∀ px,
    b.depthAt side px = OrderIndex.qtyAt b.orders side px

/-- An order is indexed at a side and price where no level shows. -/
def LevelMissing (b : OrderBook ℤ) : Prop :=
  ∃ (id : ℕ) (o : RestingOrder ℤ), b.orders[id]? = some o ∧ b.level o.side o.pricePaise = none

/-! ### The answer -/

/-- A check that fails answers no. -/
theorem fst_ite_fail {c : Prop} [Decidable c] {reason : String} {rest : Bool × String} :
    (if c then (false, reason) else rest).1 = true ↔ ¬ c ∧ rest.1 = true := by
  split_ifs with h <;> simp [h]

/-- No entry of a map is bad. -/
theorem not_any_toList {κ ν : Type*} {cmp : κ → κ → Ordering} [TransCmp cmp] [LawfulEqCmp cmp]
    {m : ExtTreeMap κ ν cmp} {bad : κ × ν → Prop} [DecidablePred bad] :
    ¬ (m.toList.any fun e => bad e) = true ↔ ∀ (k : κ) v, m[k]? = some v → ¬ bad (k, v) := by
  simp only [List.any_eq_true, decide_eq_true_eq, Prod.exists,
    ExtTreeMap.mem_toList_iff_getElem?_eq_some, not_exists, not_and]

theorem invariantOk_iff : b.invariantOk.1 = true ↔ b.Orderly := by
  unfold invariantOk
  simp only [fst_ite_fail, not_any_toList, not_or, not_le, and_true, not_not]
  constructor
  · rintro ⟨hbids, hasks, horders, hbidSums, haskSums⟩
    have hpos : ∀ (id : ℕ) (o : RestingOrder ℤ), b.orders[id]? = some o → 0 < o.qty :=
      fun id o ho => (horders id o ho).1
    refine ⟨fun side px qty hl => ?_, horders, fun side px qty hl => ?_⟩
    · cases side with
      | buy => exact hbids px qty hl
      | sell => exact hasks px qty hl
      | unknown => cases hl
    · cases side with
      | buy =>
        have hsum := hbidSums px qty hl
        rw [OrderIndex.bidSum_sideSums hpos, visible_eq_some] at hsum
        exact hsum.2
      | sell =>
        have hsum := haskSums px qty hl
        rw [OrderIndex.askSum_sideSums hpos, visible_eq_some] at hsum
        exact hsum.2
      | unknown => cases hl
  · intro h
    have hpos : ∀ (id : ℕ) (o : RestingOrder ℤ), b.orders[id]? = some o → 0 < o.qty :=
      fun id o ho => (h.orders id o ho).1
    refine ⟨h.levels .buy, h.levels .sell, h.orders, fun px qty hl => ?_, fun px qty hl => ?_⟩
    · rw [OrderIndex.bidSum_sideSums hpos, visible_eq_some, h.sums .buy px qty hl]
      exact ⟨(h.levels .buy px qty hl).2, rfl⟩
    · rw [OrderIndex.askSum_sideSums hpos, visible_eq_some, h.sums .sell px qty hl]
      exact ⟨(h.levels .sell px qty hl).2, rfl⟩

/-! ### What it misses -/

/-- In a well formed book the levels are missing at most where nothing shows. -/
theorem Wf.sound_iff (h : b.Wf) : b.Sound ↔ b.Orderly ∧ ¬ b.LevelMissing := by
  constructor
  · intro hsound
    refine ⟨⟨hsound.levels, hsound.orders, fun side px qty hl => ?_⟩, ?_⟩
    · have hside : side ≠ .unknown := by rintro rfl; cases hl
      rw [← hsound.sums side hside, depthAt_eq, hl, Option.getD_some]
    · rintro ⟨id, o, ho, hnone⟩
      have hsum := hsound.sums o.side (h.index id o ho).2 o.pricePaise
      have hle := OrderIndex.qty_le_qtyAt h.index ho
      have hpos := (h.index id o ho).1
      rw [depthAt_eq, hnone, Option.getD_none] at hsum
      omega
  · rintro ⟨horderly, hlevelled⟩
    refine ⟨horderly.levels, horderly.orders, fun side hside px => ?_⟩
    rw [depthAt_eq]
    cases hl : b.level side px with
    | some qty => exact (horderly.sums side px qty hl).symm
    | none =>
      -- an order indexed here would lack its level
      refine (FiniteMap.total_eq_zero fun id o ho => ?_).symm
      unfold RestingOrder.share
      refine if_neg fun hat => hlevelled ⟨id, o, ho, ?_⟩
      rw [hat.1, hat.2, hl]

/-- **When the checker can be trusted.**  In every reachable book `invariant_ok` tells a sound book
from an unsound one, unless an order is indexed whose level is missing and all that shows is in
order. -/
theorem invariantOk_iff_sound (venue : Venue) (instrumentId : ℕ) (ops : List BookOp) :
    ((ops.foldl exec (new venue instrumentId)).invariantOk.1 = true ↔
        (ops.foldl exec (new venue instrumentId)).Sound) ↔
      ¬((ops.foldl exec (new venue instrumentId)).LevelMissing ∧
        (ops.foldl exec (new venue instrumentId)).Orderly) := by
  rw [invariantOk_iff, (wf_run venue instrumentId ops).sound_iff]
  tauto

/-- A run whose trades spare the levels can be trusted. -/
theorem invariantOk_run (venue : Venue) (instrumentId : ℕ) (ops : List BookOp)
    (h : AllSteps exec TradeSpares (new venue instrumentId) ops) :
    (ops.foldl exec (new venue instrumentId)).invariantOk.1 = true ↔
      (ops.foldl exec (new venue instrumentId)).Sound := by
  obtain ⟨hwf, hexact⟩ := exact_run ops ⟨.new venue instrumentId, exact_new venue instrumentId⟩ h
  have hlevelled : ¬(ops.foldl exec (new venue instrumentId)).LevelMissing := by
    rintro ⟨id, o, ho, hnone⟩
    have hle := OrderIndex.qty_le_qtyAt hwf.index ho
    have hpos := (hwf.index id o ho).1
    rw [← hexact.depthAt_eq, depthAt_eq, hnone, Option.getD_none] at hle
    omega
  rw [invariantOk_iff, hwf.sound_iff]
  exact ⟨fun horderly => ⟨horderly, hlevelled⟩, And.left⟩

/-- A bid of ten, and a trade of ten at its price that names no order. -/
def tradedAway : List BookOp := [.add 1 .buy 100 10, .trade 0 .buy 100 10]

/-- The order is still indexed, its level is gone, and the checker says "OK". -/
theorem not_invariantOk_iff_sound_tradedAway :
    ¬((tradedAway.foldl exec (new .nse 1)).invariantOk.1 = true ↔
      (tradedAway.foldl exec (new .nse 1)).Sound) := by
  intro h
  have hsound := h.1 (by decide +kernel)
  exact absurd (hsound.sums .buy (by decide) 100) (by decide +kernel)

end OrderBook

end Hft
