import HftArb.Book.Levels

/-!
# The feed operations keep the book well formed

`Keeps b b'` says that `b'` is well formed and hides no more than `b` at any side and price.  Every
feed operation is built from three moves: resting a new order (`rest`), shrinking a resting one,
and the removal that a trade of an unknown id makes from a level.  The first two keep; the third
hides exactly what it takes from the level (`hidden_removeFromLevel`).
-/

namespace Hft

open FiniteMap

namespace OrderBook

variable {b b' : OrderBook ℤ} {id : ℕ} {o : RestingOrder ℤ} {side s : Side} {px p qty : ℤ}

/-- `b'` is well formed and hides no more than `b`. -/
structure Keeps (b b' : OrderBook ℤ) : Prop where
  wf : b'.Wf
  hidden_le : ∀ side px, b'.hidden side px ≤ b.hidden side px

/-- Every level shows the whole indexed quantity. -/
def Exact (b : OrderBook ℤ) : Prop := ∀ side px, b.hidden side px = 0

theorem Keeps.refl (h : b.Wf) : Keeps b b := ⟨h, fun _ _ => le_rfl⟩

theorem Keeps.trans {b'' : OrderBook ℤ} (h : Keeps b b') (h' : Keeps b' b'') : Keeps b b'' :=
  ⟨h'.wf, fun s p => (h'.hidden_le s p).trans (h.hidden_le s p)⟩

theorem Keeps.exact (h : Keeps b b') (he : b.Exact) : b'.Exact := fun s p =>
  le_antisymm ((h.hidden_le s p).trans_eq (he s p)) (h.wf.hidden_nonneg s p)

theorem keeps_rest (h : b.Wf) (hid : b.orders[id]? = none) (hside : o.side ≠ .unknown)
    (hqty : 0 < o.qty) : Keeps b (b.rest id o) := by
  have hhidden : ∀ s p, (b.rest id o).hidden s p = b.hidden s p := fun s p => by
    have hq : OrderIndex.qtyAt (b.rest id o).orders s p =
        OrderIndex.qtyAt b.orders s p + o.share s p := by
      rw [rest, orders_addLevel]
      exact OrderIndex.qtyAt_insert_new hid
    have hd : (b.rest id o).depthAt s p = b.depthAt s p + o.share s p := by
      rw [rest, depthAt_addLevel hside, depthAt_withOrders]
      simp only [RestingOrder.share, eq_comm]
    unfold hidden
    omega
  refine ⟨⟨?_, ?_, fun s p => ?_⟩, fun s p => (hhidden s p).le⟩
  · exact (h.levels.withOrders _).addLevel hside hqty
  · rw [rest, orders_addLevel]
    exact h.index.insert ⟨hqty, hside⟩
  · rw [hhidden]
    exact h.hidden_nonneg s p

/-- Take `qty` of a resting order from its level, and from the index by writing `m`. -/
theorem keeps_shrink (h : b.Wf) (ho : b.orders[id]? = some o) (hqty : 0 ≤ qty) (hle : qty ≤ o.qty)
    {m : OrderIndex ℤ} (hm : OrderIndex.Ok m)
    (hmq : ∀ s p, OrderIndex.qtyAt m s p =
      OrderIndex.qtyAt b.orders s p - { o with qty := qty }.share s p) :
    Keeps b { b.removeFromLevel o.side o.pricePaise qty with orders := m } := by
  have hhidden : ∀ s p, 0 ≤
      ({ b.removeFromLevel o.side o.pricePaise qty with orders := m } : OrderBook ℤ).hidden s p ∧
      ({ b.removeFromLevel o.side o.pricePaise qty with orders := m } : OrderBook ℤ).hidden s p ≤
        b.hidden s p := fun s p => by
    have h0 := h.hidden_nonneg s p
    have hd0 := h.levels.depthAt_nonneg s p
    unfold hidden at h0 ⊢
    rw [depthAt_withOrders, depthAt_removeFromLevel h.levels hqty, hmq]
    simp only [RestingOrder.share]
    by_cases hat : s = o.side ∧ p = o.pricePaise
    · obtain ⟨rfl, rfl⟩ := hat
      have hQ := OrderIndex.qty_le_qtyAt h.index ho
      simp only [and_self, if_true]
      omega
    · rw [if_neg hat, if_neg (fun hc => hat ⟨hc.1.symm, hc.2.symm⟩)]
      omega
  exact ⟨⟨h.levels.removeFromLevel.withOrders m, hm, fun s p => (hhidden s p).1⟩,
    fun s p => (hhidden s p).2⟩

/-! ### The operations -/

theorem keeps_cancel (h : b.Wf) (id : ℕ) : Keeps b (b.cancel id) := by
  unfold cancel
  cases ho : b.orders[id]? with
  | none => exact .refl h
  | some o =>
    dsimp only
    rw [orders_removeFromLevel]
    exact keeps_shrink h ho (h.index id o ho).1.le le_rfl (h.index.erase id)
      fun s p => OrderIndex.qtyAt_erase ho

theorem keeps_add (h : b.Wf) (id : ℕ) (side : Side) (px qty : ℤ) :
    Keeps b (b.add id side px qty) := by
  by_cases hbad : id = 0 ∨ side = .unknown ∨ px ≤ 0 ∨ qty ≤ 0
  · have hadd : b.add id side px qty = b := by simp only [add, if_pos hbad]
    rw [hadd]
    exact .refl h
  · rw [add_eq hbad]
    push Not at hbad
    have hc := keeps_cancel h id
    exact hc.trans (keeps_rest hc.wf (getElem?_orders_cancel b id) hbad.2.1 hbad.2.2.2)

theorem keeps_modify (h : b.Wf) (id : ℕ) (side : Side) (px qty : ℤ) :
    Keeps b (b.modify id side px qty) := by
  cases ho : b.orders[id]? with
  | none =>
    rw [modify_new ho]
    exact keeps_add h id side px qty
  | some o =>
    rw [modify_eq ho]
    have hc := keeps_cancel h id
    split_ifs with hqty hside
    · exact hc
    · exact hc.trans (keeps_rest hc.wf (getElem?_orders_cancel b id) (h.index id o ho).2
        (lt_of_not_ge hqty))
    · exact hc.trans (keeps_rest hc.wf (getElem?_orders_cancel b id) hside (lt_of_not_ge hqty))

theorem keeps_clear (h : b.Wf) : Keeps b b.clear := by
  have hlevel : ∀ s p, b.clear.level s p = none := fun s p => by cases s <;> simp [clear, level]
  have hhidden : ∀ s p, b.clear.hidden s p = 0 := fun s p => by
    simp [hidden, depthAt_eq, hlevel, show b.clear.orders = ∅ from rfl]
  refine ⟨⟨.of_level fun s p q hq => ?_, OrderIndex.Ok.empty, fun s p => (hhidden s p).ge⟩,
    fun s p => ?_⟩
  · rw [hlevel] at hq; cases hq
  · rw [hhidden]
    exact h.hidden_nonneg s p

/-- A trade of a resting id keeps. -/
theorem keeps_trade_resting (h : b.Wf) (ho : b.orders[id]? = some o) (side : Side) (px qty : ℤ) :
    Keeps b (b.trade id side px qty) := by
  unfold trade
  rw [ho]
  dsimp only
  by_cases hqty : qty ≤ 0
  · rw [if_pos hqty]
    exact .refl h
  · rw [if_neg hqty]
    obtain ⟨hpos, hside⟩ := h.index id o ho
    rw [orders_removeFromLevel]
    refine keeps_shrink h ho (by omega) (min_le_right _ _) ?_ fun s p => ?_
    · split_ifs with hleft
      · exact h.index.erase id
      · exact h.index.insert ⟨by dsimp only; omega, hside⟩
    · split_ifs with hleft
      · have hall : min qty o.qty = o.qty := by omega
        rw [OrderIndex.qtyAt_erase ho, hall]
      · rw [OrderIndex.qtyAt_update ho]
        simp only [RestingOrder.share]
        split_ifs <;> omega

/-! ### The trade of an unknown id -/

/-- The trade takes quantity from a level although no such order rests. -/
def TradeBites (b : OrderBook ℤ) (restingId : ℕ) (side : Side) (px qty : ℤ) : Prop :=
  b.orders[restingId]? = none ∧ 0 < px ∧ 0 < qty ∧ 0 < b.depthAt side px

instance : Decidable (b.TradeBites id side px qty) :=
  inferInstanceAs (Decidable (_ ∧ _ ∧ _ ∧ _))

/-- What is taken from a level behind the index is hidden from then on. -/
theorem hidden_removeFromLevel (h : b.Wf) (hqty : 0 ≤ qty) :
    (b.removeFromLevel side px qty).hidden s p =
      b.hidden s p + if s = side ∧ p = px then min qty (b.depthAt s p) else 0 := by
  have hd0 := h.levels.depthAt_nonneg s p
  unfold hidden
  rw [orders_removeFromLevel, depthAt_removeFromLevel h.levels hqty]
  split_ifs <;> omega

theorem wf_removeFromLevel (h : b.Wf) : (b.removeFromLevel side px qty).Wf := by
  rcases le_or_gt qty 0 with hle | hpos
  · have hr : b.removeFromLevel side px qty = b := by simp [removeFromLevel, hle]
    rw [hr]
    exact h
  · refine ⟨h.levels.removeFromLevel, by rw [orders_removeFromLevel]; exact h.index, fun s p => ?_⟩
    have h0 := h.hidden_nonneg s p
    have hd0 := h.levels.depthAt_nonneg s p
    rw [hidden_removeFromLevel h hpos.le]
    split_ifs <;> omega

theorem trade_unknown (hid : b.orders[id]? = none) :
    b.trade id side px qty =
      if 0 < qty ∧ side ≠ .unknown ∧ 0 < px then b.removeFromLevel side px qty else b := by
  by_cases hqty : qty ≤ 0
  · have hneg : ¬ 0 < qty := by omega
    simp [trade, hqty, hneg]
  · have hpos : 0 < qty := by omega
    simp [trade, hid, hqty, hpos]

theorem wf_trade (h : b.Wf) (id : ℕ) (side : Side) (px qty : ℤ) : (b.trade id side px qty).Wf := by
  cases ho : b.orders[id]? with
  | some o => exact (keeps_trade_resting h ho side px qty).wf
  | none =>
    rw [trade_unknown ho]
    split_ifs
    · exact wf_removeFromLevel h
    · exact h

/-- A trade that does not bite keeps. -/
theorem keeps_trade (h : b.Wf) (hbite : ¬ b.TradeBites id side px qty) :
    Keeps b (b.trade id side px qty) := by
  cases ho : b.orders[id]? with
  | some o => exact keeps_trade_resting h ho side px qty
  | none =>
    refine ⟨wf_trade h id side px qty, fun s p => ?_⟩
    rw [trade_unknown ho]
    split_ifs with hguard
    · have hd0 := h.levels.depthAt_nonneg side px
      have hd : b.depthAt side px = 0 := by
        by_contra hne
        exact hbite ⟨ho, hguard.2.2, hguard.1, by omega⟩
      rw [hidden_removeFromLevel h hguard.1.le]
      split_ifs with hat
      · rw [hat.1, hat.2, hd]
        omega
      · omega
    · exact le_rfl

end OrderBook

end Hft
