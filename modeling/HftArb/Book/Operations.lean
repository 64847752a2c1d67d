import HftArb.Book.OrderBook

/-!
# The operations, whatever the quantities

These lemmas hold for every type of quantities, so both for exact arithmetic and for the machine's
integers.  `add` and `modify` are a `cancel` followed by a `rest` (`add_eq`, `modify_eq`), and a
turn of the `match_ioc` loop is the same on both sides of the book (`matchBody_eq`).
-/

namespace Hft

open FiniteMap Transition

/-- `px` is acceptable to an aggressor with this limit. -/
def WithinLimit (aggressor : Side) (limitPx px : ℤ) : Prop :=
  match aggressor with
  | .buy => px ≤ limitPx
  | .sell => limitPx ≤ px
  | .unknown => False

instance decidableWithinLimit : ∀ aggressor limitPx px, Decidable (WithinLimit aggressor limitPx px)
  | .buy, limitPx, px => inferInstanceAs (Decidable (px ≤ limitPx))
  | .sell, limitPx, px => inferInstanceAs (Decidable (limitPx ≤ px))
  | .unknown, _, _ => inferInstanceAs (Decidable False)

namespace OrderBook

section Levels

variable {Q : Type}

/-- The level shown at `side` and `px`. -/
def level (b : OrderBook Q) (side : Side) (px : ℤ) : Option Q :=
  match side with
  | .buy => b.bids[px]?
  | .sell => b.asks[px]?
  | .unknown => none

/-- The level `begin()` of one side. -/
def best (b : OrderBook Q) (side : Side) : Option (ℤ × Q) :=
  match side with
  | .buy => front b.bids
  | .sell => front b.asks
  | .unknown => none

theorem level_of_best {b : OrderBook Q} {side : Side} {px : ℤ} {level : Q}
    (h : b.best side = some (px, level)) : b.level side px = some level := by
  cases side with
  | buy => exact (front_eq_some_iff.1 h).1
  | sell => exact (front_eq_some_iff.1 h).1
  | unknown => cases h

end Levels

variable {Q : Type} [Zero Q] [Add Q] [Sub Q] [LE Q] [DecidableLE Q] [Min Q]
variable {b : OrderBook Q} {id : ℕ} {o : RestingOrder Q} {side : Side} {px : ℤ} {qty : Q}

omit [Sub Q] [LE Q] [DecidableLE Q] [Min Q] in
@[simp] theorem orders_addLevel : (b.addLevel side px qty).orders = b.orders := by
  unfold addLevel
  split_ifs <;> rfl

omit [Add Q] [Min Q] in
@[simp] theorem orders_removeFromLevel : (b.removeFromLevel side px qty).orders = b.orders := by
  unfold removeFromLevel
  split_ifs
  · rfl
  · cases side <;> rfl

/-! ### Feed operations -/

/-- Rest a new order: index it and add it to its level. -/
def rest (b : OrderBook Q) (id : ℕ) (o : RestingOrder Q) : OrderBook Q :=
  { b with orders := b.orders.insert id o }.addLevel o.side o.pricePaise o.qty

omit [Add Q] [Min Q] in
theorem getElem?_orders_cancel (b : OrderBook Q) (id : ℕ) : (b.cancel id).orders[id]? = none := by
  unfold cancel
  cases ho : b.orders[id]? with
  | none => exact ho
  | some o => simp

omit [Min Q] in
/-- `add` rests the order, after cancelling an older one with the same id. -/
theorem add_eq (h : ¬(id = 0 ∨ side = .unknown ∨ px ≤ 0 ∨ qty ≤ 0)) :
    b.add id side px qty = (b.cancel id).rest id ⟨side, px, qty⟩ := by
  have hcancel : (if id ∈ b.orders then b.cancel id else b) = b.cancel id := by
    split_ifs with hid
    · rfl
    · have ho : b.orders[id]? = none := by simpa using hid
      simp [cancel, ho]
  simp only [add, if_neg h, hcancel, rest]

omit [Min Q] in
theorem modify_new (ho : b.orders[id]? = none) :
    b.modify id side px qty = b.add id side px qty := by
  rw [modify, ho]

omit [Min Q] in
/-- `modify` of a resting order cancels it and rests its replacement. -/
theorem modify_eq (ho : b.orders[id]? = some o) :
    b.modify id side px qty =
      if qty ≤ 0 then b.cancel id
      else (b.cancel id).rest id ⟨if side = .unknown then o.side else side, px, qty⟩ := by
  have hcancel : b.cancel id =
      { b.removeFromLevel o.side o.pricePaise o.qty with orders := b.orders.erase id } := by
    simp [cancel, ho]
  unfold modify
  rw [ho]
  dsimp only
  split_ifs with hqty
  · rw [hcancel, orders_removeFromLevel]
  · rw [hcancel, rest, insert_erase, orders_removeFromLevel]
  · rw [hcancel, rest, insert_erase, orders_removeFromLevel]

end OrderBook

/-! ### The loop of `match_ioc` -/

section Loop

variable {Q : Type} [Zero Q] [Add Q] [Sub Q] [LE Q] [DecidableLE Q] [Min Q]
variable {walk : WalkOrder Q} {aggressor : Side} {limitPx : ℤ} {s s' : MatchState Q}

omit [Add Q] in
/-- One turn, for both sides at once. -/
theorem matchBody_eq : matchBody walk aggressor limitPx s =
    if s.qty ≤ 0 then .done s
    else
      match s.book.best (opposite aggressor) with
      | none => .done s
      | some (px, level) =>
          if WithinLimit aggressor limitPx px then
            .yield (s.fill walk (opposite aggressor) px (min s.qty level))
          else .done s := by
  unfold matchBody
  refine if_congr Iff.rfl rfl ?_
  cases aggressor with
  | unknown => rfl
  | buy =>
    simp only [opposite, OrderBook.best]
    cases front s.book.asks with
    | none => rfl
    | some e =>
      dsimp only
      by_cases hlim : WithinLimit .buy limitPx e.1
      · rw [if_pos hlim, if_neg (not_lt.2 hlim)]
      · rw [if_neg hlim, if_pos (not_le.1 hlim)]
  | sell =>
    simp only [opposite, OrderBook.best]
    cases front s.book.bids with
    | none => rfl
    | some e =>
      dsimp only
      by_cases hlim : WithinLimit .sell limitPx e.1
      · rw [if_pos hlim, if_neg (not_lt.2 hlim)]
      · rw [if_neg hlim, if_pos (not_le.1 hlim)]

omit [Add Q] in
/-- What a turn that goes on does. -/
theorem matchBody_yield (h : matchBody walk aggressor limitPx s = .yield s') :
    ∃ px level, s.book.best (opposite aggressor) = some (px, level) ∧ ¬ s.qty ≤ 0 ∧
      WithinLimit aggressor limitPx px ∧
      s' = s.fill walk (opposite aggressor) px (min s.qty level) := by
  rw [matchBody_eq] at h
  split_ifs at h with hqty
  cases hbest : s.book.best (opposite aggressor) with
  | none => rw [hbest] at h; cases h
  | some e =>
    rw [hbest] at h
    dsimp only at h
    split_ifs at h with hlim
    cases h
    exact ⟨e.1, e.2, rfl, hqty, hlim, rfl⟩

omit [Add Q] in
/-- A turn that stops changes nothing. -/
theorem matchBody_done (h : matchBody walk aggressor limitPx s = .done s') : s' = s := by
  rw [matchBody_eq] at h
  split_ifs at h with hqty
  · cases h
    rfl
  · cases hbest : s.book.best (opposite aggressor) with
    | none => rw [hbest] at h; cases h; rfl
    | some e =>
      rw [hbest] at h
      dsimp only at h
      split_ifs at h with hlim
      cases h
      rfl

end Loop

end Hft
