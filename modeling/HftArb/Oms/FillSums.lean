import HftArb.Oms.OrderManager

/-!
# Sums over fills

The position book, a pair and the report all add up the same fills.  `sideSum` is the common
measure: the sum of a quantity over the fills of one side.  A position is a difference of two side
sums over the fills of an instrument (`netQty_foldl`, `cashPaise_foldl`).
-/

namespace Hft

open Std (ExtTreeMap)

/-- The sign of a side in a position. -/
def Side.sign : Side → ℤ
  | .buy => 1
  | .sell => -1
  | .unknown => 0

theorem Side.abs_sign_le (side : Side) : |side.sign| ≤ 1 := by
  cases side <;> decide

namespace Fill

/-- `fill_qty * fill_px_paise`. -/
def notional (f : Fill) : ℤ := f.fillQty * f.fillPxPaise

/-- What the fill adds to a position. -/
def signedQty (f : Fill) : ℤ := f.side.sign * f.fillQty

/-- What the fill adds to the cash. -/
def cash (f : Fill) : ℤ := -(f.side.sign * f.notional)

end Fill

/-- The sum of `g` over the fills of one side. -/
def sideSum (side : Side) (g : Fill → ℤ) (fs : List Fill) : ℤ :=
  ((fs.filter fun f => f.side = side).map g).sum

section SideSum

variable {side : Side} {g : Fill → ℤ} {fs fs' : List Fill}

@[simp]
theorem sideSum_nil : sideSum side g [] = 0 := rfl

@[simp]
theorem sideSum_append : sideSum side g (fs ++ fs') = sideSum side g fs + sideSum side g fs' := by
  simp [sideSum]

theorem sideSum_singleton (f : Fill) :
    sideSum side g [f] = if f.side = side then g f else 0 := by
  unfold sideSum
  split_ifs with h <;> simp [h]

theorem sum_signedQty (fs : List Fill) :
    (fs.map Fill.signedQty).sum = sideSum .buy Fill.fillQty fs - sideSum .sell Fill.fillQty fs := by
  induction fs with
  | nil => rfl
  | cons f fs ih =>
    rw [← List.singleton_append, List.map_append, List.sum_append, sideSum_append, sideSum_append,
      sideSum_singleton, sideSum_singleton, ih]
    cases hs : f.side <;> simp [Fill.signedQty, Side.sign, hs] <;> ring

theorem sum_cash (fs : List Fill) :
    (fs.map Fill.cash).sum = sideSum .sell Fill.notional fs - sideSum .buy Fill.notional fs := by
  induction fs with
  | nil => rfl
  | cons f fs ih =>
    rw [← List.singleton_append, List.map_append, List.sum_append, sideSum_append, sideSum_append,
      sideSum_singleton, sideSum_singleton, ih]
    cases hs : f.side <;> simp [Fill.cash, Side.sign, hs] <;> ring

/-- Fills that all have one side. -/
theorem sum_signedQty_of_side (hside : ∀ f ∈ fs, f.side = side) :
    (fs.map Fill.signedQty).sum = side.sign * (fs.map Fill.fillQty).sum := by
  induction fs with
  | nil => simp
  | cons f fs ih =>
    have hf := hside f List.mem_cons_self
    rw [List.map_cons, List.sum_cons, List.map_cons, List.sum_cons, Fill.signedQty, hf,
      ih fun f' hf' => hside f' (List.mem_cons_of_mem f hf')]
    ring

end SideSum

/-! ### Positions -/

namespace PositionBook

variable {pb : PositionBook}

theorem position_apply (pb : PositionBook) (f : Fill) (i : ℕ) :
    (pb.apply f).position i =
      if f.instrumentId = i then (pb.position i).fill f.side f.fillQty f.fillPxPaise
      else pb.position i := by
  simp only [position, apply, applyFill, ExtTreeMap.getElem?_insert, compare_eq_iff_eq]
  split_ifs with h
  · rw [h]
    rfl
  · rfl

theorem netQty_apply (pb : PositionBook) (f : Fill) (i : ℕ) :
    (pb.apply f).netQty i = pb.netQty i + if f.instrumentId = i then f.signedQty else 0 := by
  unfold netQty
  rw [position_apply]
  split_ifs
  · cases hs : f.side <;> simp [Position.fill, Fill.signedQty, Side.sign, hs]
    ring
  · simp

theorem cashPaise_apply (pb : PositionBook) (f : Fill) (i : ℕ) :
    (pb.apply f).cashPaise i = pb.cashPaise i + if f.instrumentId = i then f.cash else 0 := by
  unfold cashPaise
  rw [position_apply]
  split_ifs
  · cases hs : f.side <;> simp [Position.fill, Fill.cash, Fill.notional, Side.sign, hs]
    ring
  · simp

/-- Fills of one instrument move its net quantity by their signed sum, and no other. -/
theorem netQty_foldl {fs : List Fill} {j : ℕ} (hj : ∀ f ∈ fs, f.instrumentId = j) (i : ℕ) :
    (fs.foldl apply pb).netQty i =
      pb.netQty i + if j = i then (fs.map Fill.signedQty).sum else 0 := by
  induction fs generalizing pb with
  | nil => simp
  | cons f fs ih =>
    have hf := hj f List.mem_cons_self
    rw [List.foldl_cons, ih fun f' hf' => hj f' (List.mem_cons_of_mem f hf'), netQty_apply, hf]
    split_ifs
    · rw [List.map_cons, List.sum_cons, add_assoc]
    · simp

theorem cashPaise_foldl {fs : List Fill} {j : ℕ} (hj : ∀ f ∈ fs, f.instrumentId = j) (i : ℕ) :
    (fs.foldl apply pb).cashPaise i =
      pb.cashPaise i + if j = i then (fs.map Fill.cash).sum else 0 := by
  induction fs generalizing pb with
  | nil => simp
  | cons f fs ih =>
    have hf := hj f List.mem_cons_self
    rw [List.foldl_cons, ih fun f' hf' => hj f' (List.mem_cons_of_mem f hf'), cashPaise_apply, hf]
    split_ifs
    · rw [List.map_cons, List.sum_cons, add_assoc]
    · simp

end PositionBook

end Hft
