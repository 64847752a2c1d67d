import HftArb.Book.Operations

/-!
# Levels against the index

In exact arithmetic a price level is a number, `depthAt`, shown when it is positive, and the index
gives a number for the same side and price, `qtyAt`: the total quantity of the orders resting
there.  `hidden` is their difference, the indexed quantity that no level shows.

`Wf` collects what every operation keeps: shown levels and indexed quantities are positive, and
`hidden` is nowhere negative.  The file computes `depthAt` and `qtyAt` after each elementary update
of the maps.
-/

namespace Hft

open FiniteMap
open Std (ExtTreeMap TransCmp LawfulEqCmp ReflCmp)

/-! ### The index on its own -/

/-- What an order contributes to the level at `side` and `px`. -/
def RestingOrder.share (o : RestingOrder ℤ) (side : Side) (px : ℤ) : ℤ :=
  if o.side = side ∧ o.pricePaise = px then o.qty else 0

namespace OrderIndex

/-- The total quantity of the orders resting at `side` and `px`. -/
def qtyAt (orders : OrderIndex ℤ) (side : Side) (px : ℤ) : ℤ :=
  total orders fun _ o => o.share side px

/-- Every order rests on a known side with a positive quantity. -/
def Ok (orders : OrderIndex ℤ) : Prop :=
  ∀ (id : ℕ) (o : RestingOrder ℤ), orders[id]? = some o → 0 < o.qty ∧ o.side ≠ .unknown

variable {orders : OrderIndex ℤ} {id : ℕ} {o o' : RestingOrder ℤ} {side : Side} {px : ℤ}

theorem share_nonneg (ho : 0 < o.qty) : 0 ≤ o.share side px := by
  unfold RestingOrder.share
  split_ifs <;> omega

@[simp] theorem qtyAt_empty : qtyAt ∅ side px = 0 := total_empty _

/-- An order is part of the total at its own side and price. -/
theorem qty_le_qtyAt (h : Ok orders) (ho : orders[id]? = some o) :
    o.qty ≤ qtyAt orders o.side o.pricePaise := by
  have hle : o.share o.side o.pricePaise ≤ qtyAt orders o.side o.pricePaise :=
    le_total (f := fun _ (o' : RestingOrder ℤ) => o'.share o.side o.pricePaise)
      (fun id' o' ho' => share_nonneg (h id' o' ho').1) ho
  simpa [RestingOrder.share] using hle

theorem qtyAt_erase (ho : orders[id]? = some o) :
    qtyAt (orders.erase id) side px = qtyAt orders side px - o.share side px :=
  total_erase _ ho

theorem qtyAt_insert_new (ho : orders[id]? = none) :
    qtyAt (orders.insert id o) side px = qtyAt orders side px + o.share side px :=
  total_insert_new _ _ ho

theorem qtyAt_update (ho : orders[id]? = some o) :
    qtyAt (orders.insert id o') side px =
      qtyAt orders side px + (o'.share side px - o.share side px) :=
  total_update _ _ ho

theorem Ok.empty : Ok ∅ := fun id o ho => by simp at ho

theorem Ok.erase (h : Ok orders) (id : ℕ) : Ok (orders.erase id) := fun id' o ho => by
  rw [ExtTreeMap.getElem?_erase] at ho
  split_ifs at ho
  exact h id' o ho

theorem Ok.insert (h : Ok orders) (ho : 0 < o.qty ∧ o.side ≠ .unknown) :
    Ok (orders.insert id o) := fun id' o' ho' => by
  rw [ExtTreeMap.getElem?_insert] at ho'
  split_ifs at ho'
  · cases ho'; exact ho
  · exact h id' o' ho'

end OrderIndex

/-! ### A level as a number -/

/-- A quantity as a level: shown when positive. -/
def visible (qty : ℤ) : Option ℤ := if 0 < qty then some qty else none

@[simp] theorem visible_getD {qty : ℤ} (h : 0 ≤ qty) : (visible qty).getD 0 = qty := by
  unfold visible
  split_ifs
  · rfl
  · simp only [Option.getD_none]; omega

theorem visible_of_nonpos {qty : ℤ} (h : qty ≤ 0) : visible qty = none := if_neg (by omega)

theorem visible_of_pos {qty : ℤ} (h : 0 < qty) : visible qty = some qty := if_pos h

theorem visible_eq_some {qty q : ℤ} : visible qty = some q ↔ 0 < qty ∧ qty = q := by
  unfold visible
  split_ifs with h <;> simp [h]

section Maps

variable {cmp : ℤ → ℤ → Ordering} [TransCmp cmp] [LawfulEqCmp cmp]

theorem getElem?_addToLevel (levels : ExtTreeMap ℤ ℤ cmp) (px qty p : ℤ) :
    (addToLevel levels px qty)[p]? =
      if p = px then some ((levels[p]?).getD 0 + qty) else levels[p]? := by
  unfold addToLevel
  rw [ExtTreeMap.getElem?_insert]
  by_cases hp : p = px
  · subst hp; simp
  · have hc : cmp px p ≠ .eq := fun h => hp (LawfulEqCmp.eq_of_compare h).symm
    simp [hp, hc]

/-- Taking from positive levels saturates at zero. -/
theorem getElem?_takeFromLevel {levels : ExtTreeMap ℤ ℤ cmp} {px qty : ℤ}
    (h : levels[px]? = visible ((levels[px]?).getD 0)) (hqty : 0 < qty) (p : ℤ) :
    (takeFromLevel levels px qty)[p]? =
      if p = px then visible (max 0 ((levels[p]?).getD 0 - qty)) else levels[p]? := by
  by_cases hp : p = px
  · subst hp
    rw [if_pos rfl]
    unfold takeFromLevel
    cases hl : levels[p]? with
    | none =>
      have hmax : max 0 (0 - qty) ≤ 0 := by omega
      simp only [hl, Option.getD_none, visible_of_nonpos hmax]
    | some level =>
      simp only [Option.getD_some]
      by_cases hle : level - qty ≤ 0
      · have hmax : max 0 (level - qty) ≤ 0 := by omega
        rw [if_pos hle, visible_of_nonpos hmax, ExtTreeMap.getElem?_erase_self]
      · have hmax : max 0 (level - qty) = level - qty := by omega
        rw [if_neg hle, hmax, visible_of_pos (by omega), ExtTreeMap.getElem?_insert_self]
  · have hc : cmp px p ≠ .eq := fun h => hp (LawfulEqCmp.eq_of_compare h).symm
    rw [if_neg hp]
    unfold takeFromLevel
    cases levels[px]? with
    | none => rfl
    | some level =>
      dsimp only
      split_ifs
      · rw [ExtTreeMap.getElem?_erase, if_neg hc]
      · rw [ExtTreeMap.getElem?_insert, if_neg hc]

end Maps

namespace OrderBook

theorem depthAt_eq (b : OrderBook ℤ) (side : Side) (px : ℤ) :
    b.depthAt side px = (b.level side px).getD 0 := by
  cases side <;> rfl

/-- A level is shown exactly when its quantity is positive. -/
def LevelsPos (b : OrderBook ℤ) : Prop := ∀ side px, b.level side px = visible (b.depthAt side px)

/-- The indexed quantity at `side` and `px` that no level shows. -/
def hidden (b : OrderBook ℤ) (side : Side) (px : ℤ) : ℤ :=
  OrderIndex.qtyAt b.orders side px - b.depthAt side px

/-- What every operation keeps. -/
structure Wf (b : OrderBook ℤ) : Prop where
  levels : b.LevelsPos
  index : OrderIndex.Ok b.orders
  hidden_nonneg : ∀ side px, 0 ≤ b.hidden side px

variable {b : OrderBook ℤ} {side s : Side} {px p qty : ℤ}

theorem LevelsPos.of_level (h : ∀ side px q, b.level side px = some q → 0 < q) : b.LevelsPos := by
  intro side px
  rw [depthAt_eq]
  cases hl : b.level side px with
  | none => rfl
  | some q => exact (visible_eq_some.2 ⟨h side px q hl, rfl⟩).symm

theorem LevelsPos.pos (h : b.LevelsPos) {q : ℤ} (hl : b.level side px = some q) : 0 < q := by
  rw [h side px, visible_eq_some] at hl
  omega

theorem LevelsPos.depthAt_nonneg (h : b.LevelsPos) (side : Side) (px : ℤ) :
    0 ≤ b.depthAt side px := by
  rw [depthAt_eq]
  cases hl : b.level side px with
  | none => rfl
  | some q => exact (h.pos hl).le

@[simp] theorem depthAt_unknown : b.depthAt .unknown px = 0 := rfl

theorem level_empty (venue : Venue) (instrumentId : ℕ) :
    (OrderBook.new venue instrumentId : OrderBook ℤ).level side px = none := by
  cases side <;> simp [level, OrderBook.new]

theorem Wf.new (venue : Venue) (instrumentId : ℕ) : Wf (.new venue instrumentId) where
  levels := .of_level fun side px q h => by simp [level_empty] at h
  index := OrderIndex.Ok.empty
  hidden_nonneg := fun side px => by
    simp [hidden, depthAt_eq, level_empty,
      show (OrderBook.new venue instrumentId : OrderBook ℤ).orders = ∅ from rfl]

/-! ### Elementary updates -/

@[simp] theorem level_withOrders (m : OrderIndex ℤ) :
    ({ b with orders := m } : OrderBook ℤ).level s p = b.level s p := by
  cases s <;> rfl

@[simp] theorem depthAt_withOrders (m : OrderIndex ℤ) :
    ({ b with orders := m } : OrderBook ℤ).depthAt s p = b.depthAt s p := by
  cases s <;> rfl

theorem LevelsPos.withOrders (h : b.LevelsPos) (m : OrderIndex ℤ) :
    ({ b with orders := m } : OrderBook ℤ).LevelsPos := fun s p => by
  rw [level_withOrders, depthAt_withOrders]
  exact h s p

theorem level_addLevel (hside : side ≠ .unknown) :
    (b.addLevel side px qty).level s p =
      if s = side ∧ p = px then some (b.depthAt s p + qty) else b.level s p := by
  cases side with
  | unknown => exact absurd rfl hside
  | buy => cases s <;> simp [addLevel, level, depthAt, getElem?_addToLevel]
  | sell => cases s <;> simp [addLevel, level, depthAt, getElem?_addToLevel]

theorem depthAt_addLevel (hside : side ≠ .unknown) :
    (b.addLevel side px qty).depthAt s p =
      b.depthAt s p + if s = side ∧ p = px then qty else 0 := by
  rw [depthAt_eq, level_addLevel hside, depthAt_eq]
  split_ifs
  · rfl
  · simp

theorem LevelsPos.addLevel (h : b.LevelsPos) (hside : side ≠ .unknown) (hqty : 0 < qty) :
    (b.addLevel side px qty).LevelsPos := by
  refine .of_level fun s p q hq => ?_
  rw [level_addLevel hside] at hq
  split_ifs at hq
  · have := h.depthAt_nonneg s p
    cases hq
    omega
  · exact h.pos hq

theorem level_removeFromLevel (h : b.LevelsPos) (hqty : 0 < qty) :
    (b.removeFromLevel side px qty).level s p =
      if s = side ∧ p = px then visible (max 0 (b.depthAt s p - qty)) else b.level s p := by
  have hnot : ¬ qty ≤ 0 := by omega
  have hbuy := getElem?_takeFromLevel (h .buy px) hqty p
  have hsell := getElem?_takeFromLevel (h .sell px) hqty p
  cases side with
  | buy => cases s <;> simp [removeFromLevel, hnot, level, depthAt, hbuy]
  | sell => cases s <;> simp [removeFromLevel, hnot, level, depthAt, hsell]
  | unknown =>
    cases s with
    | buy => simp [removeFromLevel, level]
    | sell => simp [removeFromLevel, level]
    | unknown =>
      have hmax : max 0 (-qty) ≤ 0 := by omega
      simp [level, visible_of_nonpos hmax]

theorem depthAt_removeFromLevel (h : b.LevelsPos) (hqty : 0 ≤ qty) :
    (b.removeFromLevel side px qty).depthAt s p =
      if s = side ∧ p = px then max 0 (b.depthAt s p - qty) else b.depthAt s p := by
  rcases hqty.eq_or_lt with rfl | hpos
  · have hd := h.depthAt_nonneg s p
    have hr : b.removeFromLevel side px 0 = b := by simp [removeFromLevel]
    rw [hr]
    split_ifs
    · omega
    · rfl
  · rw [depthAt_eq, level_removeFromLevel h hpos]
    split_ifs
    · exact visible_getD (le_max_left _ _)
    · rw [depthAt_eq]

theorem LevelsPos.removeFromLevel (h : b.LevelsPos) :
    (b.removeFromLevel side px qty).LevelsPos := by
  rcases le_or_gt qty 0 with hle | hpos
  · have hr : b.removeFromLevel side px qty = b := by simp [OrderBook.removeFromLevel, hle]
    rw [hr]
    exact h
  · refine .of_level fun s p q hq => ?_
    rw [level_removeFromLevel h hpos] at hq
    split_ifs at hq
    · rw [visible_eq_some] at hq
      omega
    · exact h.pos hq

end OrderBook

end Hft
