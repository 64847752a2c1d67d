import HftArb.Book.Run
import HftArb.Lib.MachineInt

/-!
# The book in 64-bit arithmetic

An `OrderBook Int64` computes with the machine's integers.  `Refines b B` says that the book `B`
over `ℤ` has the same header, levels and orders.  As long as no sum at a level leaves the 64 bits
(`Fits`) an event keeps the two books in step (`Refines.apply`); the differences that `cancel`,
`trade` and `match_ioc` form always fit, since `B` is well formed.
-/

namespace Hft

open FiniteMap Transition MachineInt
open Std (ExtTreeMap TransCmp LawfulEqCmp)

/-- The order with its quantity as an integer. -/
def RestingOrder.exact (o : RestingOrder Int64) : RestingOrder ℤ :=
  ⟨o.side, o.pricePaise, o.qty.toInt⟩

/-- The event with its quantity as an integer. -/
def BookEvent.exact (ev : BookEvent Int64) : BookEvent ℤ :=
  { ev with qty := ev.qty.toInt }

section Levels

variable {cmp : ℤ → ℤ → Ordering} [TransCmp cmp] {levels : ExtTreeMap ℤ Int64 cmp}
  {L : ExtTreeMap ℤ ℤ cmp} {px : ℤ} {qty : Int64}

theorem image_takeFromLevel (h : Image Int64.toInt levels L)
    (hpos : ∀ level, L[px]? = some level → 0 < level) (hqty : 0 < qty.toInt) :
    Image Int64.toInt (takeFromLevel levels px qty) (takeFromLevel L px qty.toInt) := by
  unfold takeFromLevel
  cases hl : levels[px]? with
  | none =>
    rw [h.none_iff.2 hl]
    exact h
  | some level =>
    have hL := h.some hl
    have hlevel := hpos level.toInt hL
    have hsub : (level - qty).toInt = level.toInt - qty.toInt :=
      toInt_sub_of_nonneg hlevel.le hqty.le
    rw [hL]
    simp only [le_zero_iff, hsub]
    split_ifs
    · exact h.erase px
    · rw [← hsub]
      exact h.insert px (level - qty)

theorem image_addToLevel (h : Image Int64.toInt levels L)
    (hsum : ((levels[px]?).getD 0 + qty).toInt = (L[px]?).getD 0 + qty.toInt) :
    Image Int64.toInt (addToLevel levels px qty) (addToLevel L px qty.toInt) := by
  unfold addToLevel
  rw [← hsum]
  exact h.insert px _

end Levels

namespace OrderBook

/-- The quantity shown at the side on which `addLevel` adds, 0 when there is no level. -/
def shown (b : OrderBook Int64) (side : Side) (px : ℤ) : Int64 :=
  if side = .buy then (b.bids[px]?).getD 0 else (b.asks[px]?).getD 0

/-- `B` is the book `b` over the integers. -/
structure Refines (b : OrderBook Int64) (B : OrderBook ℤ) : Prop where
  venue : b.venue = B.venue
  instrumentId : b.instrumentId = B.instrumentId
  lastUpdateNs : b.lastUpdateNs = B.lastUpdateNs
  bids : Image Int64.toInt b.bids B.bids
  asks : Image Int64.toInt b.asks B.asks
  orders : Image RestingOrder.exact b.orders B.orders

variable {b b' : OrderBook Int64} {B : OrderBook ℤ} {side : Side} {px : ℤ} {qty : Int64} {id : ℕ}
  {o : RestingOrder Int64} {ev : BookEvent Int64}

theorem Refines.new (venue : Venue) (instrumentId : ℕ) :
    Refines (new venue instrumentId) (new venue instrumentId) :=
  ⟨rfl, rfl, rfl, .empty _, .empty _, .empty _⟩

theorem Refines.level (h : Refines b B) (side : Side) (px : ℤ) :
    (b.level side px).map Int64.toInt = B.level side px := by
  cases side with
  | buy => exact h.bids px
  | sell => exact h.asks px
  | unknown => rfl

/-- The book with another index. -/
theorem Refines.withOrders (h : Refines b B) {m : OrderIndex Int64} {M : OrderIndex ℤ}
    (hm : Image RestingOrder.exact m M) :
    Refines { b with orders := m } { B with orders := M } :=
  ⟨h.venue, h.instrumentId, h.lastUpdateNs, h.bids, h.asks, hm⟩

/-! ### Elementary updates -/

theorem Refines.removeFromLevel (h : Refines b B) (hpos : B.LevelsPos) (side : Side) (px : ℤ)
    (qty : Int64) :
    Refines (b.removeFromLevel side px qty) (B.removeFromLevel side px qty.toInt) := by
  unfold OrderBook.removeFromLevel
  by_cases hqty : qty ≤ 0
  · rw [if_pos hqty, if_pos (le_zero_iff.1 hqty)]
    exact h
  · have hnot : ¬ qty.toInt ≤ 0 := fun hle => hqty (le_zero_iff.2 hle)
    rw [if_neg hqty, if_neg hnot]
    cases side with
    | buy =>
      exact ⟨h.venue, h.instrumentId, h.lastUpdateNs,
        image_takeFromLevel h.bids (fun level hl => @LevelsPos.pos _ .buy px hpos level hl)
          (not_le.1 hnot),
        h.asks, h.orders⟩
    | sell =>
      exact ⟨h.venue, h.instrumentId, h.lastUpdateNs, h.bids,
        image_takeFromLevel h.asks (fun level hl => @LevelsPos.pos _ .sell px hpos level hl)
          (not_le.1 hnot),
        h.orders⟩
    | unknown => exact h

theorem Refines.addLevel (h : Refines b B) (hpos : B.LevelsPos) (hqty : 0 ≤ qty.toInt)
    (hfits : (b.shown side px).toInt + qty.toInt < 2 ^ 63) :
    Refines (b.addLevel side px qty) (B.addLevel side px qty.toInt) := by
  have hsum : ∀ {cmp : ℤ → ℤ → Ordering} [TransCmp cmp] {levels : ExtTreeMap ℤ Int64 cmp}
      {L : ExtTreeMap ℤ ℤ cmp}, Image Int64.toInt levels L →
      (∀ level, L[px]? = some level → 0 < level) →
      ((levels[px]?).getD 0).toInt + qty.toInt < 2 ^ 63 →
      ((levels[px]?).getD 0 + qty).toInt = (L[px]?).getD 0 + qty.toInt := by
    intro cmp _ levels L himage hlevel hlt
    have hget : (L[px]?).getD 0 = ((levels[px]?).getD 0).toInt := by
      rw [← himage]
      cases levels[px]? <;> simp
    have h0 : 0 ≤ (L[px]?).getD 0 := by
      cases hl : L[px]? with
      | none => exact le_rfl
      | some level => exact (hlevel level hl).le
    rw [hget] at h0 ⊢
    exact toInt_add_of_mem (by omega) hlt
  unfold OrderBook.addLevel
  unfold shown at hfits
  split_ifs at hfits ⊢ with hside
  · exact ⟨h.venue, h.instrumentId, h.lastUpdateNs, image_addToLevel h.bids
      (hsum h.bids (fun level hl => @LevelsPos.pos _ .buy px hpos level hl) hfits), h.asks, h.orders⟩
  · exact ⟨h.venue, h.instrumentId, h.lastUpdateNs, h.bids, image_addToLevel h.asks
      (hsum h.asks (fun level hl => @LevelsPos.pos _ .sell px hpos level hl) hfits), h.orders⟩

theorem Refines.cancel (h : Refines b B) (hpos : B.LevelsPos) (id : ℕ) :
    Refines (b.cancel id) (B.cancel id) := by
  unfold OrderBook.cancel
  cases ho : b.orders[id]? with
  | none =>
    rw [h.orders.none_iff.2 ho]
    exact h
  | some o =>
    rw [h.orders.some ho]
    have hr := h.removeFromLevel hpos o.side o.pricePaise o.qty
    exact hr.withOrders (hr.orders.erase id)

theorem Refines.trade (h : Refines b B) (hwf : B.Wf) (id : ℕ) (side : Side) (px : ℤ)
    (qty : Int64) : Refines (b.trade id side px qty) (B.trade id side px qty.toInt) := by
  unfold OrderBook.trade
  by_cases hqty : qty ≤ 0
  · rw [if_pos hqty, if_pos (le_zero_iff.1 hqty)]
    exact h
  have hnot : ¬ qty.toInt ≤ 0 := fun hle => hqty (le_zero_iff.2 hle)
  rw [if_neg hqty, if_neg hnot]
  cases ho : b.orders[id]? with
  | none =>
    rw [h.orders.none_iff.2 ho]
    dsimp only
    split_ifs
    · exact h.removeFromLevel hwf.levels side px qty
    · exact h
  | some o =>
    have hO := h.orders.some ho
    have hoqty : 0 < o.qty.toInt := (hwf.index id o.exact hO).1
    rw [hO]
    -- the smaller of two positive quantities can be taken from both without wrapping
    have hmin : (min qty o.qty).toInt = min qty.toInt o.qty.toInt := toInt_min
    have hleft : (o.qty - min qty o.qty).toInt = o.qty.toInt - min qty.toInt o.qty.toInt := by
      rw [toInt_sub_of_nonneg hoqty.le (by rw [hmin]; omega), hmin]
    have hr := h.removeFromLevel hwf.levels o.side o.pricePaise (min qty o.qty)
    rw [hmin] at hr
    refine hr.withOrders ?_
    have hif : o.qty - min qty o.qty ≤ 0 ↔
        o.exact.qty - min qty.toInt o.exact.qty ≤ 0 := by rw [le_zero_iff, hleft]; rfl
    by_cases hall : o.qty - min qty o.qty ≤ 0
    · rw [if_pos hall, if_pos (hif.1 hall)]
      exact hr.orders.erase id
    · rw [if_neg hall, if_neg fun hc => hall (hif.2 hc)]
      have hi := hr.orders.insert id { o with qty := o.qty - min qty o.qty }
      rw [RestingOrder.exact, hleft] at hi
      exact hi

/-! ### Events -/

/-- The order that an event rests. -/
def rested (b : OrderBook Int64) (ev : BookEvent Int64) : Option (RestingOrder Int64) :=
  let new :=
    if ev.orderId = 0 ∨ ev.side = .unknown ∨ ev.pricePaise ≤ 0 ∨ ev.qty ≤ 0 then none
    else some ⟨ev.side, ev.pricePaise, ev.qty⟩
  match ev.eventType with
  | .add => new
  | .modify =>
      match b.orders[ev.orderId]? with
      | none => new
      | some o =>
          if ev.qty ≤ 0 then none
          else some ⟨if ev.side = .unknown then o.side else ev.side, ev.pricePaise, ev.qty⟩
  | .cancel | .trade | .reset | .heartbeat | .unknown => none

/-- The quantity that an event adds to a level fits there in 64 bits. -/
def Fits (b : OrderBook Int64) (ev : BookEvent Int64) : Prop :=
  ∀ o ∈ b.rested ev,
    ((b.cancel ev.orderId).shown o.side o.pricePaise).toInt + o.qty.toInt < 2 ^ 63

theorem Refines.rest (h : Refines b B) (hpos : B.LevelsPos) (id : ℕ) (hqty : 0 ≤ o.qty.toInt)
    (hfits : (b.shown o.side o.pricePaise).toInt + o.qty.toInt < 2 ^ 63) :
    Refines (b.rest id o) (B.rest id o.exact) := by
  have hr := h.withOrders (h.orders.insert id o)
  exact hr.addLevel (hpos.withOrders _) hqty hfits

theorem Refines.add (h : Refines b B) (hwf : B.Wf) (id : ℕ) (side : Side) (px : ℤ) (qty : Int64)
    (hfits : ¬(id = 0 ∨ side = .unknown ∨ px ≤ 0 ∨ qty ≤ 0) →
      ((b.cancel id).shown side px).toInt + qty.toInt < 2 ^ 63) :
    Refines (b.add id side px qty) (B.add id side px qty.toInt) := by
  by_cases hbad : id = 0 ∨ side = .unknown ∨ px ≤ 0 ∨ qty ≤ 0
  · have hbad' : id = 0 ∨ side = .unknown ∨ px ≤ 0 ∨ qty.toInt ≤ 0 := by
      rwa [← le_zero_iff]
    rw [OrderBook.add, if_pos hbad, OrderBook.add, if_pos hbad']
    exact h
  · have hgood' : ¬(id = 0 ∨ side = .unknown ∨ px ≤ 0 ∨ qty.toInt ≤ 0) := by
      rwa [← le_zero_iff]
    rw [add_eq hbad, add_eq hgood']
    refine (h.cancel hwf.levels id).rest (keeps_cancel hwf id).wf.levels id ?_ (hfits hbad)
    push Not at hgood'
    exact hgood'.2.2.2.le

theorem Refines.withHeader (h : Refines b B) (ev : BookEvent Int64) :
    Refines (b.withHeader ev) (B.withHeader ev.exact) :=
  ⟨rfl, rfl, rfl, h.bids, h.asks, h.orders⟩

/-- The levels after a cancel do not depend on the header. -/
theorem shown_cancel_withHeader (b : OrderBook Int64) (ev : BookEvent Int64) (id : ℕ) (side : Side)
    (px : ℤ) : ((b.withHeader ev).cancel id).shown side px = (b.cancel id).shown side px := by
  unfold OrderBook.cancel
  have horders : (b.withHeader ev).orders = b.orders := rfl
  rw [horders]
  cases b.orders[id]? with
  | none => rfl
  | some o =>
    dsimp only
    unfold OrderBook.removeFromLevel
    split_ifs
    · rfl
    · cases o.side <;> rfl

/-- **An event keeps the machine's book and the exact book in step**, as long as what it adds
fits. -/
theorem Refines.apply (h : Refines b B) (hwf : B.Wf) (hfits : b.Fits ev) :
    Refines (b.apply ev) (B.apply ev.exact) := by
  have hh := h.withHeader ev
  have hwf' := (keeps_withHeader hwf ev.exact).wf
  unfold Fits rested at hfits
  unfold OrderBook.apply
  have htype : ev.exact.eventType = ev.eventType := rfl
  rw [htype]
  cases hev : ev.eventType with
  | add =>
    rw [hev] at hfits
    refine hh.add hwf' ev.orderId ev.side ev.pricePaise ev.qty fun hgood => ?_
    rw [shown_cancel_withHeader]
    exact hfits ⟨ev.side, ev.pricePaise, ev.qty⟩ (by simp [hgood])
  | modify =>
    rw [hev] at hfits
    dsimp only at hfits ⊢
    cases ho : b.orders[ev.orderId]? with
    | none =>
      have hO : (B.withHeader ev.exact).orders[ev.exact.orderId]? = none :=
        h.orders.none_iff.2 ho
      rw [modify_new (b := b.withHeader ev) ho, modify_new (b := B.withHeader ev.exact) hO]
      rw [ho] at hfits
      refine hh.add hwf' ev.orderId ev.side ev.pricePaise ev.qty fun hgood => ?_
      rw [shown_cancel_withHeader]
      exact hfits ⟨ev.side, ev.pricePaise, ev.qty⟩ (by simp [hgood])
    | some o =>
      -- a modify is a cancel of the old order and a rest of the new one
      rw [ho] at hfits
      have hO : (B.withHeader ev.exact).orders[ev.exact.orderId]? = some o.exact :=
        h.orders.some ho
      rw [modify_eq (b := b.withHeader ev) ho, modify_eq hO]
      have hcancel := hh.cancel hwf'.levels ev.orderId
      have hqty : ev.exact.qty ≤ 0 ↔ ev.qty ≤ 0 := le_zero_iff.symm
      by_cases hle : ev.qty ≤ 0
      · rw [if_pos hle, if_pos (hqty.2 hle)]
        exact hcancel
      · have hnot : ¬ ev.exact.qty ≤ 0 := fun hc => hle (hqty.1 hc)
        rw [if_neg hle, if_neg hnot]
        refine hcancel.rest (keeps_cancel hwf' ev.orderId).wf.levels ev.orderId
          (not_le.1 hnot).le ?_
        rw [shown_cancel_withHeader]
        exact hfits _ (by simp [hle])
  | cancel => exact hh.cancel hwf'.levels ev.orderId
  | trade => exact hh.trade hwf' ev.orderId ev.side ev.pricePaise ev.qty
  | reset => exact ⟨hh.venue, hh.instrumentId, hh.lastUpdateNs, .empty _, .empty _, .empty _⟩
  | heartbeat => exact hh
  | unknown => exact hh

/-! ### Matching -/

/-- One walk of the machine's index and of the exact one. -/
theorem image_consumeLoop (restingSide : Side) (px : ℤ) (ids : List ℕ) {m : OrderIndex Int64}
    {M : OrderIndex ℤ} {remaining : Int64} {eraseIds : List ℕ}
    (h : Image RestingOrder.exact m M) (hr : 0 ≤ remaining.toInt)
    (hnonneg : ∀ (id : ℕ) o, M[id]? = some o → 0 ≤ o.qty) :
    Image RestingOrder.exact (consumeLoop restingSide px ids m remaining eraseIds).1
        (consumeLoop restingSide px ids M remaining.toInt eraseIds).1 ∧
      (consumeLoop restingSide px ids m remaining eraseIds).2.1.toInt =
        (consumeLoop restingSide px ids M remaining.toInt eraseIds).2.1 ∧
      (consumeLoop restingSide px ids m remaining eraseIds).2.2 =
        (consumeLoop restingSide px ids M remaining.toInt eraseIds).2.2 := by
  induction ids generalizing m M remaining eraseIds with
  | nil => exact ⟨h, rfl, rfl⟩
  | cons id ids ih =>
    unfold consumeLoop
    by_cases hstop : remaining ≤ 0
    · rw [if_pos hstop, if_pos (le_zero_iff.1 hstop)]
      exact ⟨h, rfl, rfl⟩
    have hnot : ¬ remaining.toInt ≤ 0 := fun hle => hstop (le_zero_iff.2 hle)
    rw [if_neg hstop, if_neg hnot]
    cases ho : m[id]? with
    | none =>
      rw [h.none_iff.2 ho]
      exact ih h hr hnonneg
    | some o =>
      have hO := h.some ho
      rw [hO]
      dsimp only
      have hskip : (o.side ≠ restingSide ∨ o.pricePaise ≠ px) ↔
          (o.exact.side ≠ restingSide ∨ o.exact.pricePaise ≠ px) := Iff.rfl
      by_cases hother : o.side ≠ restingSide ∨ o.pricePaise ≠ px
      · rw [if_pos hother, if_pos (hskip.1 hother)]
        exact ih h hr hnonneg
      · rw [if_neg hother, if_neg fun hc => hother (hskip.2 hc)]
        have ho0 : 0 ≤ o.qty.toInt := hnonneg id o.exact hO
        have hmin : (min remaining o.qty).toInt = min remaining.toInt o.exact.qty := toInt_min
        have hmin0 : 0 ≤ (min remaining o.qty).toInt := by
          rw [hmin]
          exact le_min hr ho0
        have hleft : (o.qty - min remaining o.qty).toInt =
            o.exact.qty - min remaining.toInt o.exact.qty := by
          rw [toInt_sub_of_nonneg ho0 hmin0, hmin]
          rfl
        have hrem : (remaining - min remaining o.qty).toInt =
            remaining.toInt - min remaining.toInt o.exact.qty := by
          rw [toInt_sub_of_nonneg hr hmin0, hmin]
        have hif : o.qty - min remaining o.qty ≤ 0 ↔
            o.exact.qty - min remaining.toInt o.exact.qty ≤ 0 := by rw [le_zero_iff, hleft]
        have hinsert : Image RestingOrder.exact
            (m.insert id { o with qty := o.qty - min remaining o.qty })
            (M.insert id
              { o.exact with qty := o.exact.qty - min remaining.toInt o.exact.qty }) := by
          have hi := h.insert id { o with qty := o.qty - min remaining o.qty }
          rw [RestingOrder.exact, hleft] at hi
          exact hi
        have hnext := @ih _ _ (remaining - min remaining o.qty)
          (if o.qty - min remaining o.qty ≤ 0 then eraseIds ++ [id] else eraseIds) hinsert
          (by rw [hrem]; omega) fun id' o' ho' => by
            rw [ExtTreeMap.getElem?_insert] at ho'
            split_ifs at ho'
            · cases ho'
              have hle : min remaining.toInt o.exact.qty ≤ o.exact.qty := min_le_right _ _
              dsimp only
              omega
            · exact hnonneg id' o' ho'
        rw [hrem] at hnext
        simp only [hif] at hnext ⊢
        exact hnext

theorem image_eraseAll (eraseIds : List ℕ) {m : OrderIndex Int64} {M : OrderIndex ℤ}
    (h : Image RestingOrder.exact m M) : Image RestingOrder.exact
      (eraseIds.foldl (fun m id => m.erase id) m) (eraseIds.foldl (fun m id => m.erase id) M) := by
  induction eraseIds generalizing m M with
  | nil => exact h
  | cons id eraseIds ih => exact ih (h.erase id)

theorem Refines.consume (h : Refines b B) (hwf : B.Wf) (ids : List ℕ) (side : Side) (px : ℤ)
    (hqty : 0 ≤ qty.toInt) :
    Refines (b.consumeOrdersAtPrice ids side px qty)
      (B.consumeOrdersAtPrice ids side px qty.toInt) := by
  have himage := @image_consumeLoop side px ids _ _ _ [] h.orders hqty
    fun id o ho => (hwf.index id o ho).1.le
  have hspec := OrderIndex.consumeLoop_spec side px ids B.orders qty.toInt [] hqty
    (.of_ok hwf.index)
  unfold consumeOrdersAtPrice
  generalize consumeLoop side px ids b.orders qty [] = res at himage ⊢
  generalize consumeLoop side px ids B.orders qty.toInt [] = Res at himage hspec ⊢
  obtain ⟨m, remaining, eraseIds⟩ := res
  obtain ⟨M, Remaining, EraseIds⟩ := Res
  obtain ⟨hm, hremaining, herase⟩ := himage
  dsimp only at hm hremaining herase hspec ⊢
  subst hremaining herase
  have hsub : (qty - remaining).toInt = qty.toInt - remaining.toInt :=
    toInt_sub_of_nonneg hqty hspec.nonneg
  have hr := (h.withOrders hm).removeFromLevel (hwf.levels.withOrders M) side px (qty - remaining)
  rw [hsub] at hr
  exact hr.withOrders (image_eraseAll eraseIds hr.orders)

end OrderBook

end Hft
