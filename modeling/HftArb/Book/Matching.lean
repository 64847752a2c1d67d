import HftArb.Book.Invariant

/-!
# Matching against the book

`consumeLoop_spec` says what one walk of the index does, whatever the order of the walk: it takes
exactly the quantity asked for, as long as the orders at the level have that much, and it marks the
orders it empties.  With the level never above the index (`Wf`) one turn of the `match_ioc` loop
therefore takes the same quantity from the level and from the index (`Taken`), and the loop ends.
-/

namespace Hft

open FiniteMap Transition
open Std (ExtTreeMap TransCmp LawfulEqCmp ReflCmp)

/-! ### One walk of the index -/

/-- The index during a walk: an order is empty exactly when it is marked for erasure. -/
def OrderIndex.Walking (m : OrderIndex ℤ) (eraseIds : List ℕ) : Prop :=
  ∀ (id : ℕ) (o : RestingOrder ℤ), m[id]? = some o →
    o.side ≠ .unknown ∧ 0 ≤ o.qty ∧ (o.qty = 0 ↔ id ∈ eraseIds)

/-- Each order of `m'` is one of `m` at the same side and price with part of its quantity; orders
away from `side` and `px` are untouched. -/
def OrderIndex.Shrunk (side : Side) (px : ℤ) (m m' : OrderIndex ℤ) : Prop :=
  ∀ id : ℕ, match m[id]?, m'[id]? with
    | none, none => True
    | some o, some o' => o'.side = o.side ∧ o'.pricePaise = o.pricePaise ∧ o'.qty ≤ o.qty ∧
        (¬(o.side = side ∧ o.pricePaise = px) → o' = o)
    | _, _ => False

namespace OrderIndex

variable {side s : Side} {px p : ℤ} {m m' m'' : OrderIndex ℤ} {eraseIds : List ℕ} {id : ℕ}
  {o : RestingOrder ℤ}

theorem Shrunk.refl (side : Side) (px : ℤ) (m : OrderIndex ℤ) : Shrunk side px m m := fun id => by
  cases m[id]? <;> simp

theorem Shrunk.trans (h : Shrunk side px m m') (h' : Shrunk side px m' m'') :
    Shrunk side px m m'' := fun id => by
  have h1 := h id
  have h2 := h' id
  cases hm : m[id]? <;> cases hm' : m'[id]? <;> cases hm'' : m''[id]? <;>
    simp only [hm, hm', hm''] at h1 h2 ⊢
  obtain ⟨hs, hp, hq, hf⟩ := h1
  obtain ⟨hs', hp', hq', hf'⟩ := h2
  refine ⟨hs'.trans hs, hp'.trans hp, hq'.trans hq, fun hat => ?_⟩
  rw [hf' (by rw [hs, hp]; exact hat), hf hat]

theorem Shrunk.exists_of_some (h : Shrunk side px m m') {o' : RestingOrder ℤ}
    (ho' : m'[id]? = some o') :
    ∃ o, m[id]? = some o ∧ o'.side = o.side ∧ o'.pricePaise = o.pricePaise ∧ o'.qty ≤ o.qty := by
  have h1 := h id
  rw [ho'] at h1
  cases hm : m[id]? with
  | none => simp [hm] at h1
  | some o =>
    simp only [hm] at h1
    exact ⟨o, rfl, h1.1, h1.2.1, h1.2.2.1⟩

theorem Shrunk.update (ho : m[id]? = some o) (hat : o.side = side ∧ o.pricePaise = px) {left : ℤ}
    (hle : left ≤ o.qty) : Shrunk side px m (m.insert id { o with qty := left }) := fun id' => by
  rw [ExtTreeMap.getElem?_insert]
  split_ifs with hid
  · have he : id = id' := LawfulEqCmp.eq_of_compare hid
    subst he
    simp [ho, hle, hat]
  · cases m[id']? <;> simp

theorem Walking.of_ok (h : Ok m) : Walking m [] := fun id o ho => by
  obtain ⟨hq, hs⟩ := h id o ho
  exact ⟨hs, hq.le, by simp; omega⟩

/-- What one walk does. -/
structure Consumed (side : Side) (px : ℤ) (ids : List ℕ) (m : OrderIndex ℤ) (remaining : ℤ)
    (m' : OrderIndex ℤ) (remaining' : ℤ) (eraseIds' : List ℕ) : Prop where
  nonneg : 0 ≤ remaining'
  le : remaining' ≤ remaining
  qtyAt : ∀ s p, OrderIndex.qtyAt m' s p =
    OrderIndex.qtyAt m s p - if s = side ∧ p = px then remaining - remaining' else 0
  walking : Walking m' eraseIds'
  shrunk : Shrunk side px m m'
  drained : 0 < remaining' → ∀ id ∈ ids, ∀ o, m'[id]? = some o →
    o.side = side → o.pricePaise = px → o.qty = 0

/-- Taking part of an order marks it exactly when nothing of it is left. -/
theorem Walking.take (hw : Walking m eraseIds) (ho : m[id]? = some o) {take : ℤ} (h0 : 0 ≤ take)
    (hle : take ≤ o.qty) :
    Walking (m.insert id { o with qty := o.qty - take })
      (if o.qty - take ≤ 0 then eraseIds ++ [id] else eraseIds) := fun id' o' ho' => by
  obtain ⟨hside, hq0, hmark⟩ := hw id o ho
  rw [ExtTreeMap.getElem?_insert] at ho'
  split_ifs at ho' with hid
  · have he : id = id' := LawfulEqCmp.eq_of_compare hid
    subst he
    cases ho'
    refine ⟨hside, by dsimp only; omega, ?_⟩
    dsimp only
    split_ifs with hleft
    · simp
      omega
    · -- an order that is marked already is empty, and nothing can be left of it
      exact ⟨fun h0 => by omega, fun hin => by have := hmark.2 hin; omega⟩
  · have hne : id' ≠ id := fun he => hid (by rw [he]; exact ReflCmp.compare_self)
    obtain ⟨h1, h2, h3⟩ := hw id' o' ho'
    refine ⟨h1, h2, h3.trans ?_⟩
    split_ifs
    · simp [hne]
    · rfl

section Consumed

variable {ids : List ℕ} {remaining remaining' : ℤ} {eraseIds' : List ℕ}

/-- An id that has no order at the level does not count. -/
theorem Consumed.skip (h : Consumed side px ids m remaining m' remaining' eraseIds')
    (hid : ∀ o, m[id]? = some o → o.side = side → o.pricePaise ≠ px) :
    Consumed side px (id :: ids) m remaining m' remaining' eraseIds' := by
  refine { h with drained := fun hpos id' hid' o' ho' hs hp => ?_ }
  rcases List.mem_cons.1 hid' with rfl | hid'
  · obtain ⟨o, ho, hs', hp', -⟩ := h.shrunk.exists_of_some ho'
    exact absurd (hp'.symm.trans hp) (hid o ho (hs'.symm.trans hs))
  · exact h.drained hpos id' hid' o' ho' hs hp

/-- An order at the level gives what it has, as long as something is wanted. -/
theorem Consumed.take (ho : m[id]? = some o) (hat : o.side = side ∧ o.pricePaise = px)
    (hr : 0 ≤ remaining) (hq : 0 ≤ o.qty)
    (h : Consumed side px ids (m.insert id { o with qty := o.qty - min remaining o.qty })
      (remaining - min remaining o.qty) m' remaining' eraseIds') :
    Consumed side px (id :: ids) m remaining m' remaining' eraseIds' := by
  have hle := h.le
  have hsh : Shrunk side px m (m.insert id { o with qty := o.qty - min remaining o.qty }) :=
    .update ho hat (by omega)
  refine ⟨h.nonneg, by omega, fun s p => ?_, h.walking, hsh.trans h.shrunk,
    fun hpos id' hid' o' ho' hs hp => ?_⟩
  · rw [h.qtyAt, OrderIndex.qtyAt_update ho]
    simp only [RestingOrder.share, hat.1, hat.2, eq_comm (a := side), eq_comm (a := px)]
    split_ifs <;> omega
  · rcases List.mem_cons.1 hid' with rfl | hid'
    · -- something is still wanted, so the order has given all it had
      obtain ⟨o1, ho1, -, -, hle1⟩ := h.shrunk.exists_of_some ho'
      rw [ExtTreeMap.getElem?_insert_self] at ho1
      cases ho1
      have h0 := (h.walking id' o' ho').2.1
      dsimp only at hle1
      omega
    · exact h.drained hpos id' hid' o' ho' hs hp

end Consumed

theorem consumeLoop_spec (side : Side) (px : ℤ) (ids : List ℕ) (m : OrderIndex ℤ) (remaining : ℤ)
    (eraseIds : List ℕ) (hr : 0 ≤ remaining) (hw : Walking m eraseIds) :
    Consumed side px ids m remaining (consumeLoop side px ids m remaining eraseIds).1
      (consumeLoop side px ids m remaining eraseIds).2.1
      (consumeLoop side px ids m remaining eraseIds).2.2 := by
  induction ids generalizing m remaining eraseIds with
  | nil => exact ⟨hr, le_rfl, by simp [consumeLoop], hw, .refl side px m, by simp⟩
  | cons id ids ih =>
    unfold consumeLoop
    by_cases hstop : remaining ≤ 0
    · rw [if_pos hstop]
      exact ⟨hr, le_rfl, by simp, hw, .refl side px m, fun hpos => absurd hstop (not_le.2 hpos)⟩
    rw [if_neg hstop]
    cases ho : m[id]? with
    | none =>
      refine (ih m remaining eraseIds hr hw).skip fun o ho' => ?_
      rw [ho] at ho'
      cases ho'
    | some o =>
      dsimp only
      by_cases hskip : o.side ≠ side ∨ o.pricePaise ≠ px
      · rw [if_pos hskip]
        refine (ih m remaining eraseIds hr hw).skip fun o' ho' hs hp => ?_
        rw [ho] at ho'
        cases ho'
        exact hskip.elim (fun hne => hne hs) fun hne => hne hp
      · rw [if_neg hskip]
        push Not at hskip
        have hq0 := (hw id o ho).2.1
        exact .take ho hskip hr hq0 (ih _ _ _ (by omega) (hw.take ho (by omega) (by omega)))

/-- A walk over all ids takes the whole quantity when the orders at the level have it. -/
theorem Consumed.remaining_eq_zero {ids : List ℕ} {remaining remaining' : ℤ} {eraseIds' : List ℕ}
    (h : Consumed side px ids m remaining m' remaining' eraseIds') (hids : ids.Perm m.keys)
    (hq : remaining ≤ OrderIndex.qtyAt m side px) : remaining' = 0 := by
  by_contra hne
  have hpos : 0 < remaining' := by have := h.nonneg; omega
  have hzero : OrderIndex.qtyAt m' side px = 0 := by
    refine total_eq_zero fun id o ho => ?_
    unfold RestingOrder.share
    split_ifs with hat
    · obtain ⟨o1, ho1, -⟩ := h.shrunk.exists_of_some ho
      have hmem : id ∈ ids := by
        rw [hids.mem_iff, ExtTreeMap.mem_keys]
        exact ExtTreeMap.mem_iff_isSome_getElem?.2 (by rw [ho1]; rfl)
      exact h.drained hpos id hmem o ho hat.1 hat.2
    · rfl
  have hsum := h.qtyAt side px
  rw [hzero] at hsum
  simp only [and_self, if_true] at hsum
  omega

theorem getElem?_eraseAll (eraseIds : List ℕ) (m : OrderIndex ℤ) (id : ℕ) :
    (eraseIds.foldl (fun m id => m.erase id) m)[id]? =
      if id ∈ eraseIds then none else m[id]? := by
  induction eraseIds generalizing m with
  | nil => rfl
  | cons e es ih =>
    rw [List.foldl_cons, ih, ExtTreeMap.getElem?_erase]
    by_cases he : e = id
    · subst he; simp
    · simp [he, Ne.symm he]

/-- Erasing the marked orders leaves the totals as they are. -/
theorem qtyAt_eraseAll (hw : Walking m eraseIds) (s : Side) (p : ℤ) :
    OrderIndex.qtyAt (eraseIds.foldl (fun m id => m.erase id) m) s p = OrderIndex.qtyAt m s p := by
  have key : ∀ (es : List ℕ) (m : OrderIndex ℤ),
      (∀ id ∈ es, ∀ o, m[id]? = some o → o.qty = 0) →
      OrderIndex.qtyAt (es.foldl (fun m id => m.erase id) m) s p = OrderIndex.qtyAt m s p := by
    intro es
    induction es with
    | nil => intro m _; rfl
    | cons e es ih =>
      intro m hm
      rw [List.foldl_cons, ih]
      · cases he : m[e]? with
        | none => exact total_erase_of_none _ he
        | some o =>
          have h0 : o.qty = 0 := hm e (by simp) o he
          rw [OrderIndex.qtyAt_erase he]
          simp [RestingOrder.share, h0]
      · intro id hid o ho
        rw [ExtTreeMap.getElem?_erase] at ho
        split_ifs at ho
        exact hm id (by simp [hid]) o ho
  exact key eraseIds m fun id hid o ho => ((hw id o ho).2.2).2 hid

theorem ok_eraseAll (hw : Walking m eraseIds) :
    Ok (eraseIds.foldl (fun m id => m.erase id) m) := fun id o ho => by
  rw [getElem?_eraseAll] at ho
  split_ifs at ho with hid
  obtain ⟨h1, h2, h3⟩ := hw id o ho
  have hne : o.qty ≠ 0 := fun h0 => hid (h3.1 h0)
  exact ⟨by omega, h1⟩

end OrderIndex

/-! ### One turn of the loop -/

namespace OrderBook

variable {b : OrderBook ℤ} {side s : Side} {px p qty : ℤ}

/-- `b'` is `b` with `qty` taken at `side` and `px` from the level and from the index alike. -/
structure Taken (b : OrderBook ℤ) (side : Side) (px qty : ℤ) (b' : OrderBook ℤ) : Prop where
  keeps : Keeps b b'
  depthAt : ∀ s p, b'.depthAt s p =
        b.depthAt s p - if s = side ∧ p = px then qty else 0
  qtyAt : ∀ s p, OrderIndex.qtyAt b'.orders s p =
    OrderIndex.qtyAt b.orders s p - if s = side ∧ p = px then qty else 0
  header : b'.venue = b.venue ∧ b'.instrumentId = b.instrumentId ∧
    b'.lastUpdateNs = b.lastUpdateNs

theorem header_removeFromLevel : (b.removeFromLevel side px qty).venue = b.venue ∧
    (b.removeFromLevel side px qty).instrumentId = b.instrumentId ∧
    (b.removeFromLevel side px qty).lastUpdateNs = b.lastUpdateNs := by
  unfold removeFromLevel
  split_ifs
  · exact ⟨rfl, rfl, rfl⟩
  · cases side <;> exact ⟨rfl, rfl, rfl⟩

theorem consume_taken (h : b.Wf) (side : Side) (px : ℤ) {ids : List ℕ}
    (hids : ids.Perm b.orders.keys) (hqty : 0 ≤ qty) (hle : qty ≤ b.depthAt side px) :
    Taken b side px qty (b.consumeOrdersAtPrice ids side px qty) := by
  have hhid := h.hidden_nonneg side px
  unfold hidden at hhid
  have hspec := OrderIndex.consumeLoop_spec side px ids b.orders qty [] hqty
    (.of_ok h.index)
  unfold consumeOrdersAtPrice
  generalize consumeLoop side px ids b.orders qty [] = res at hspec ⊢
  obtain ⟨m, remaining, eraseIds⟩ := res
  dsimp only at hspec ⊢
  have hr : remaining = 0 := hspec.remaining_eq_zero hids (by omega)
  subst hr
  rw [orders_removeFromLevel, sub_zero]
  set bm : OrderBook ℤ := { b with orders := m } with hbm
  set m' := eraseIds.foldl (fun m id => m.erase id) m with hm'
  have hlevels : bm.LevelsPos := h.levels.withOrders m
  have hd : ∀ s p,
      ({ bm.removeFromLevel side px qty with orders := m' } : OrderBook ℤ).depthAt s p =
        b.depthAt s p - if s = side ∧ p = px then qty else 0 := fun s p => by
    rw [depthAt_withOrders, depthAt_removeFromLevel hlevels hqty, hbm, depthAt_withOrders]
    by_cases hat : s = side ∧ p = px
    · rw [if_pos hat, if_pos hat, hat.1, hat.2]
      omega
    · rw [if_neg hat, if_neg hat, sub_zero]
  have hq : ∀ s p, OrderIndex.qtyAt m' s p =
      OrderIndex.qtyAt b.orders s p - if s = side ∧ p = px then qty else 0 := fun s p => by
    rw [hm', OrderIndex.qtyAt_eraseAll hspec.walking, hspec.qtyAt, sub_zero]
  have hhidden : ∀ s p,
      ({ bm.removeFromLevel side px qty with orders := m' } : OrderBook ℤ).hidden s p =
        b.hidden s p := fun s p => by
    unfold hidden
    rw [hd, hq]
    omega
  refine ⟨⟨⟨hlevels.removeFromLevel.withOrders m', OrderIndex.ok_eraseAll hspec.walking,
    fun s p => ?_⟩, fun s p => (hhidden s p).le⟩, hd, hq, header_removeFromLevel⟩
  rw [hhidden]
  exact h.hidden_nonneg s p

end OrderBook

/-! ### The loop of `match_ioc` -/

section Loop

variable {walk : WalkOrder ℤ} {aggressor : Side} {limitPx : ℤ} {s s' : MatchState ℤ}

/-- The loop of a `match_ioc` of `qty` on `b`: nothing is hidden that was not, every fill is
positive and within the limit, and fills and open quantity add up. -/
structure MatchInv (b : OrderBook ℤ) (aggressor : Side) (limitPx qty : ℤ) (s : MatchState ℤ) :
    Prop where
  keeps : b.Keeps s.book
  header : s.book.venue = b.venue ∧ s.book.instrumentId = b.instrumentId ∧
    s.book.lastUpdateNs = b.lastUpdateNs
  qty_nonneg : 0 ≤ s.qty
  fills : ∀ f ∈ s.fills, 0 < f.qty ∧ WithinLimit aggressor limitPx f.pricePaise
  sum : (s.fills.map LevelFill.qty).sum + s.qty = qty

variable {b : OrderBook ℤ} {qty : ℤ}

theorem MatchInv.start (h : b.Wf) (hqty : 0 ≤ qty) :
    MatchInv b aggressor limitPx qty ⟨b, qty, [], 0⟩ :=
  ⟨.refl h, ⟨rfl, rfl, rfl⟩, hqty, by simp, by simp⟩

/-- One turn fills at least one unit and keeps the invariant. -/
theorem MatchInv.turn (h : MatchInv b aggressor limitPx qty s)
    (hbody : matchBody walk aggressor limitPx s = .yield s') :
    MatchInv b aggressor limitPx qty s' ∧ s'.qty.toNat < s.qty.toNat := by
  obtain ⟨px, level, hbest, hopen, hlimit, rfl⟩ := matchBody_yield hbody
  have hpos : 0 < s.qty := not_le.1 hopen
  have hlevel := OrderBook.level_of_best hbest
  have hl0 : 0 < level := h.keeps.wf.levels.pos hlevel
  have hdepth : s.book.depthAt (opposite aggressor) px = level := by
    rw [OrderBook.depthAt_eq, hlevel, Option.getD_some]
  have htaken := OrderBook.consume_taken h.keeps.wf (opposite aggressor) px
    (walk.perm s.walks s.book.orders) (le_min h.qty_nonneg hl0.le)
    (by rw [hdepth]; exact min_le_right _ _)
  obtain ⟨hv, hi, hu⟩ := htaken.header
  refine ⟨⟨h.keeps.trans htaken.keeps, ⟨hv.trans h.header.1, hi.trans h.header.2.1,
    hu.trans h.header.2.2⟩, ?_, ?_, ?_⟩, ?_⟩
  · simp only [MatchState.fill]
    omega
  · intro f hf
    rcases List.mem_append.1 hf with hf | hf
    · exact h.fills f hf
    · rw [List.mem_singleton.1 hf]
      exact ⟨by dsimp only; omega, hlimit⟩
  · have hsum := h.sum
    simp only [MatchState.fill, List.map_append, List.sum_append, List.map_cons, List.map_nil,
      List.sum_cons, List.sum_nil]
    omega
  · simp only [MatchState.fill]
    omega

/-- The loop of `match_ioc` ends within `qty` turns. -/
theorem matchLoop_ends (walk : WalkOrder ℤ) (aggressor : Side) (limitPx : ℤ) (h : b.Wf)
    (hqty : 0 ≤ qty) :
    Ends (matchBody walk aggressor limitPx) ⟨b, qty, [], 0⟩
      (runLoop (matchBody walk aggressor limitPx) (qty.toNat + 1) ⟨b, qty, [], 0⟩) :=
  runLoop_ends (I := MatchInv b aggressor limitPx qty) (μ := fun s => s.qty.toNat)
    (fun _ _ hs hb => (hs.turn hb).1) (fun _ _ hs hb => (hs.turn hb).2) (.start h hqty)
    (Nat.lt_succ_self _)

/-- What `match_ioc` does to the book and what it reports. -/
structure Matched (b : OrderBook ℤ) (aggressor : Side) (limitPx qty : ℤ)
    (res : OrderBook ℤ × List (LevelFill ℤ)) : Prop where
  keeps : b.Keeps res.1
  header : res.1.venue = b.venue ∧ res.1.instrumentId = b.instrumentId ∧
    res.1.lastUpdateNs = b.lastUpdateNs
  fills : ∀ f ∈ res.2, 0 < f.qty ∧ WithinLimit aggressor limitPx f.pricePaise
  sum_le : (res.2.map LevelFill.qty).sum ≤ max 0 qty

theorem matchIoc_spec (h : b.Wf) (walk : WalkOrder ℤ) (aggressor : Side) (limitPx qty : ℤ) :
    Matched b aggressor limitPx qty (b.matchIoc walk aggressor limitPx qty) := by
  unfold OrderBook.matchIoc
  split_ifs with hbad
  · exact ⟨.refl h, ⟨rfl, rfl, rfl⟩, by simp, by simp⟩
  · have hqty : 0 ≤ qty := by omega
    refine (matchLoop_ends walk aggressor limitPx h hqty).induct
      (I := MatchInv b aggressor limitPx qty) (R := fun s => Matched b aggressor limitPx qty
        (s.book, s.fills)) (.start h hqty) (fun _ _ hs hb => (hs.turn hb).1) fun s t hs hb => ?_
    rw [matchBody_done hb]
    have hsum := hs.sum
    have hnonneg := hs.qty_nonneg
    exact ⟨hs.keeps, hs.header, hs.fills, by dsimp only; omega⟩

/-! ### Matching at the best price -/

theorem WithinLimit.antisymm {px px' : ℤ} (h : WithinLimit aggressor px px')
    (h' : WithinLimit aggressor px' px) : px = px' := by
  cases aggressor with
  | buy => exact le_antisymm h' h
  | sell => exact le_antisymm h h'
  | unknown => exact h.elim

/-- No level is better than the best one. -/
theorem OrderBook.best_within {px level px' level' : ℤ}
    (hbest : b.best (opposite aggressor) = some (px, level))
    (hlevel : b.level (opposite aggressor) px' = some level') : WithinLimit aggressor px' px := by
  cases aggressor with
  | buy => exact Int.isLE_compare.1 ((front_eq_some_iff.1 hbest).2 px' level' hlevel)
  | sell => exact Int.isLE_compare.1 ((front_eq_some_iff.1 hbest).2 px' level' hlevel)
  | unknown => cases hbest

/-- After a fill at the best price nothing more is filled at that limit. -/
theorem matchBody_filled {s : MatchState ℤ} {px level : ℤ} (h : s.book.Wf) (hqty : 0 < s.qty)
    (hbest : s.book.best (opposite aggressor) = some (px, level)) :
    let s' := s.fill walk (opposite aggressor) px (min s.qty level)
    matchBody walk aggressor px s' = .done s' := by
  intro s'
  have hlevel := OrderBook.level_of_best hbest
  have hpos : 0 < level := h.levels.pos hlevel
  have hdepth : s.book.depthAt (opposite aggressor) px = level := by
    rw [OrderBook.depthAt_eq, hlevel, Option.getD_some]
  have htaken : OrderBook.Taken s.book (opposite aggressor) px (min s.qty level) s'.book :=
    OrderBook.consume_taken h (opposite aggressor) px (walk.perm s.walks s.book.orders) (by omega)
      (by rw [hdepth]; exact min_le_right _ _)
  rw [matchBody_eq]
  by_cases hleft : s'.qty ≤ 0
  · rw [if_pos hleft]
  · rw [if_neg hleft]
    cases hbest' : s'.book.best (opposite aggressor) with
    | none => rfl
    | some e =>
      obtain ⟨px', level'⟩ := e
      dsimp only
      refine if_neg fun hlim => ?_
      -- the next level was there before, so it is the best level again: but that one is used up
      have hlevel' := OrderBook.level_of_best hbest'
      have hdepth' : 0 < s'.book.depthAt (opposite aggressor) px' := by
        rw [OrderBook.depthAt_eq, hlevel', Option.getD_some]
        exact htaken.keeps.wf.levels.pos hlevel'
      rw [htaken.depthAt] at hdepth'
      have hold : s.book.level (opposite aggressor) px' =
          some (s.book.depthAt (opposite aggressor) px') := by
        rw [h.levels]
        refine visible_of_pos ?_
        split_ifs at hdepth' <;> omega
      have hsame : px = px' := WithinLimit.antisymm hlim (OrderBook.best_within hbest hold)
      rw [← hsame, if_pos ⟨rfl, rfl⟩, hdepth] at hdepth'
      change ¬ s.qty - min s.qty level ≤ 0 at hleft
      omega

/-- **An order at the best price** is filled at that price, as far as the level goes, in one fill. -/
theorem matchIoc_atBest (h : b.Wf) (walk : WalkOrder ℤ) {px level : ℤ}
    (hbest : b.best (opposite aggressor) = some (px, level)) (hpx : 0 < px) (hqty : 0 < qty) :
    (b.matchIoc walk aggressor px qty).2 = [⟨px, min qty level⟩] := by
  have hfirst : matchBody walk aggressor px ⟨b, qty, [], 0⟩ =
      .yield ((⟨b, qty, [], 0⟩ : MatchState ℤ).fill walk (opposite aggressor) px
        (min qty level)) := by
    have hself : WithinLimit aggressor px px :=
      OrderBook.best_within hbest (OrderBook.level_of_best hbest)
    rw [matchBody_eq, if_neg (not_le.2 hqty)]
    dsimp only
    rw [hbest]
    exact if_pos hself
  have hsecond := @matchBody_filled walk aggressor ⟨b, qty, [], 0⟩ px level h hqty hbest
  obtain ⟨n, hn⟩ : ∃ n, qty.toNat + 1 = n + 2 := ⟨qty.toNat - 1, by omega⟩
  unfold OrderBook.matchIoc
  rw [if_neg (by omega), hn]
  simp only [runLoop, hfirst, hsecond]
  rfl

end Loop

end Hft
