import HftArb.Book.IndexView
import HftArb.Book.Matching

/-!
# Runs of an order book

`BookOp` lists everything that can happen to a book.  `wf_exec` and `keeps_exec` are the step
lemmas: every operation keeps a book well formed, and every operation but a trade that bites hides
nothing new.

* In a run whose trades all name resting ids the book shows exactly what its index describes
  (`run_agreesWithIndex`).
* Trades of ids that do not rest are applied to the visible level all the same.
  `levelsBacked_iff` says which runs this leaves intact.
-/

namespace Hft

open FiniteMap Transition

/-- An operation on an order book. -/
inductive BookOp
  | apply (ev : BookEvent ℤ)
  | add (id : ℕ) (side : Side) (px qty : ℤ)
  | modify (id : ℕ) (side : Side) (newPx newQty : ℤ)
  | cancel (id : ℕ)
  | trade (restingId : ℕ) (side : Side) (px qty : ℤ)
  | matchIoc (walk : WalkOrder ℤ) (aggressor : Side) (limitPx qty : ℤ)

namespace OrderBook

/-- Perform one operation. -/
def exec (b : OrderBook ℤ) : BookOp → OrderBook ℤ
  | .apply ev => b.apply ev
  | .add id side px qty => b.add id side px qty
  | .modify id side newPx newQty => b.modify id side newPx newQty
  | .cancel id => b.cancel id
  | .trade restingId side px qty => b.trade restingId side px qty
  | .matchIoc walk aggressor limitPx qty => (b.matchIoc walk aggressor limitPx qty).1

end OrderBook

/-- A trade, as its resting id, side, price and quantity. -/
structure TradePrint where
  restingId : ℕ
  side : Side
  px : ℤ
  qty : ℤ

/-- The trade an operation reports. -/
def BookOp.tradePrint : BookOp → Option TradePrint
  | .trade restingId side px qty => some ⟨restingId, side, px, qty⟩
  | .apply ev =>
      if ev.eventType = .trade then some ⟨ev.orderId, ev.side, ev.pricePaise, ev.qty⟩ else none
  | _ => none

namespace OrderBook

variable {b : OrderBook ℤ} {op : BookOp} {t : TradePrint}

/-- The operation is no trade, or a trade of a resting id. -/
def TradeRests (b : OrderBook ℤ) (op : BookOp) : Prop :=
  ∀ t ∈ op.tradePrint, t.restingId ∈ b.orders

/-- The operation is no trade, or a trade that takes nothing from a level behind the index. -/
def TradeSpares (b : OrderBook ℤ) (op : BookOp) : Prop :=
  ∀ t ∈ op.tradePrint, ¬ b.TradeBites t.restingId t.side t.px t.qty

instance : Decidable (b.TradeRests op) := by unfold TradeRests; infer_instance

instance : Decidable (b.TradeSpares op) := by unfold TradeSpares; infer_instance

theorem TradeRests.spares (h : b.TradeRests op) : b.TradeSpares op := fun t ht hbite => by
  have hrest := h t ht
  have hnone := hbite.1
  simp_all

/-! ### One step -/

theorem level_withHeader (b : OrderBook ℤ) (ev : BookEvent ℤ) (side : Side) (px : ℤ) :
    (b.withHeader ev).level side px = b.level side px := by
  cases side <;> rfl

theorem depthAt_withHeader (b : OrderBook ℤ) (ev : BookEvent ℤ) (side : Side) (px : ℤ) :
    (b.withHeader ev).depthAt side px = b.depthAt side px := by
  cases side <;> rfl

theorem hidden_withHeader (b : OrderBook ℤ) (ev : BookEvent ℤ) (side : Side) (px : ℤ) :
    (b.withHeader ev).hidden side px = b.hidden side px := by
  unfold hidden
  rw [depthAt_withHeader]
  rfl

theorem keeps_withHeader (h : b.Wf) (ev : BookEvent ℤ) : b.Keeps (b.withHeader ev) := by
  refine ⟨⟨fun s p => ?_, h.index, fun s p => ?_⟩, fun s p => (hidden_withHeader b ev s p).le⟩
  · rw [level_withHeader, depthAt_withHeader]
    exact h.levels s p
  · rw [hidden_withHeader]
    exact h.hidden_nonneg s p

/-- Every event but a trade keeps. -/
theorem keeps_apply (h : b.Wf) {ev : BookEvent ℤ} (hspare : b.TradeSpares (.apply ev)) :
    b.Keeps (b.apply ev) := by
  have hh := keeps_withHeader h ev
  refine hh.trans ?_
  unfold OrderBook.apply
  cases htype : ev.eventType with
  | add => exact keeps_add hh.wf ev.orderId ev.side ev.pricePaise ev.qty
  | modify => exact keeps_modify hh.wf ev.orderId ev.side ev.pricePaise ev.qty
  | cancel => exact keeps_cancel hh.wf ev.orderId
  | trade =>
    have hbite := hspare ⟨ev.orderId, ev.side, ev.pricePaise, ev.qty⟩
      (by simp [BookOp.tradePrint, htype])
    refine keeps_trade hh.wf fun hb => hbite ?_
    unfold TradeBites at hb
    rwa [depthAt_withHeader] at hb
  | heartbeat => exact .refl hh.wf
  | reset => exact keeps_clear hh.wf
  | unknown => exact .refl hh.wf

/-- The step lemma: an operation that is no biting trade hides nothing new. -/
theorem keeps_exec (h : b.Wf) (hspare : b.TradeSpares op) : b.Keeps (b.exec op) := by
  cases op with
  | apply ev => exact keeps_apply h hspare
  | add id side px qty => exact keeps_add h id side px qty
  | modify id side newPx newQty => exact keeps_modify h id side newPx newQty
  | cancel id => exact keeps_cancel h id
  | trade restingId side px qty => exact keeps_trade h (hspare ⟨restingId, side, px, qty⟩ rfl)
  | matchIoc walk aggressor limitPx qty => exact (matchIoc_spec h walk aggressor limitPx qty).keeps

/-- An operation that reports a trade is `trade`, up to the header of the book. -/
theorem exec_of_tradePrint (ht : op.tradePrint = some t) :
    ∃ b' : OrderBook ℤ, (∀ s p, b'.level s p = b.level s p) ∧ b'.orders = b.orders ∧
      b.exec op = b'.trade t.restingId t.side t.px t.qty := by
  cases op with
  | trade restingId side px qty =>
    cases ht
    exact ⟨b, fun _ _ => rfl, rfl, rfl⟩
  | apply ev =>
    simp only [BookOp.tradePrint] at ht
    split_ifs at ht with htype
    cases ht
    exact ⟨b.withHeader ev, level_withHeader b ev, rfl, by simp [exec, OrderBook.apply, htype]⟩
  | _ => cases ht

theorem Wf.of_levels {b' : OrderBook ℤ} (h : b.Wf) (hl : ∀ s p, b'.level s p = b.level s p)
    (ho : b'.orders = b.orders) : b'.Wf := by
  have hd : ∀ s p, b'.depthAt s p = b.depthAt s p := fun s p => by
    rw [depthAt_eq, depthAt_eq, hl]
  refine ⟨fun s p => by rw [hl, hd]; exact h.levels s p, by rw [ho]; exact h.index, fun s p => ?_⟩
  unfold hidden
  rw [hd, ho]
  exact h.hidden_nonneg s p

/-- Every operation, biting trades included, keeps a book well formed. -/
theorem wf_exec (h : b.Wf) (op : BookOp) : (b.exec op).Wf := by
  by_cases hspare : b.TradeSpares op
  · exact (keeps_exec h hspare).wf
  · unfold TradeSpares at hspare
    push Not at hspare
    obtain ⟨t, ht, -⟩ := hspare
    obtain ⟨b', hl, ho, he⟩ := exec_of_tradePrint (b := b) (Option.mem_def.1 ht)
    rw [he]
    exact wf_trade (h.of_levels hl ho) _ _ _ _

/-! ### Runs -/

/-- Every run from the empty book is well formed. -/
theorem wf_run (venue : Venue) (instrumentId : ℕ) (ops : List BookOp) :
    (ops.foldl exec (.new venue instrumentId)).Wf :=
  AllSteps.foldl_induct (I := Wf) (fun _ op h _ => wf_exec h op)
    (.new venue instrumentId) (.of_forall (fun _ _ => trivial) _ ops)

theorem exact_new (venue : Venue) (instrumentId : ℕ) : (new venue instrumentId).Exact :=
  fun side px => by
    simp [hidden, depthAt_eq, level_empty,
      show (OrderBook.new venue instrumentId : OrderBook ℤ).orders = ∅ from rfl]

/-- A run of operations that spare the levels hides nothing. -/
theorem exact_run (ops : List BookOp) (h : b.Wf ∧ b.Exact)
    (hrun : AllSteps exec TradeSpares b ops) :
    (ops.foldl exec b).Wf ∧ (ops.foldl exec b).Exact :=
  hrun.foldl_induct (I := fun b => b.Wf ∧ b.Exact)
    (fun _ _ hb hop => ⟨(keeps_exec hb.1 hop).wf, (keeps_exec hb.1 hop).exact hb.2⟩) h

/-- **Levels and index agree.**  Whatever the operations, as long as every trade names an id that
is resting at that moment, and whatever the order in which the hash map is walked, the book shows
exactly what its id index describes. -/
theorem run_agreesWithIndex (venue : Venue) (instrumentId : ℕ) (ops : List BookOp)
    (h : AllSteps exec TradeRests (new venue instrumentId) ops) :
    (ops.foldl exec (new venue instrumentId)).AgreesWithIndex := by
  have hspare := h.mono fun _ _ => TradeRests.spares
  have hrun := exact_run ops ⟨.new venue instrumentId, exact_new venue instrumentId⟩ hspare
  exact hrun.2.agreesWithIndex hrun.1

/-- A run with a re-used id, a modify, a trade, an IOC match over two orders and a reset. -/
theorem run_agreesWithIndex_replay :
    ([.add 1 .buy 100 10, .add 2 .buy 100 5, .add 1 .buy 101 7, .modify 2 .unknown 101 6,
      .trade 1 .buy 101 3, .matchIoc .byId .sell 100 8, .add 3 .sell 105 4, .cancel 3].foldl exec
        (new .nse 1)).AgreesWithIndex :=
  run_agreesWithIndex .nse 1 _ (by decide +kernel)

/-! ### Trades of ids that do not rest -/

/-- Every shown level is the whole quantity resting there. -/
def ShowsIndexed (b : OrderBook ℤ) : Prop :=
  ∀ side px qty, b.level side px = some qty → qty = OrderIndex.qtyAt b.orders side px

/-- A trade of an id that does not rest leaves every level alone that other orders back. -/
def SparesBacked (b : OrderBook ℤ) (op : BookOp) : Prop :=
  ∀ t ∈ op.tradePrint, b.orders[t.restingId]? = none → ∀ side px,
    0 < OrderIndex.qtyAt b.orders side px → (b.exec op).depthAt side px = b.depthAt side px

/-- Along the whole run the levels are the indexed quantities, and trades touch their own order
only. -/
def LevelsBacked (b : OrderBook ℤ) (ops : List BookOp) : Prop :=
  (∀ pre, pre <+: ops → (pre.foldl exec b).ShowsIndexed) ∧ AllSteps exec SparesBacked b ops

theorem Exact.showsIndexed (he : b.Exact) (h : b.Wf) : b.ShowsIndexed := fun side px qty hl => by
  rw [h.levels, visible_eq_some, he.depthAt_eq] at hl
  exact hl.2.symm

theorem depthAt_of_tradePrint (h : b.Wf) (ht : op.tradePrint = some t)
    (hid : b.orders[t.restingId]? = none) (side : Side) (px : ℤ) :
    (b.exec op).depthAt side px =
      if (0 < t.qty ∧ 0 < t.px) ∧ side = t.side ∧ px = t.px then max 0 (b.depthAt side px - t.qty)
      else b.depthAt side px := by
  obtain ⟨b', hl, ho, he⟩ := exec_of_tradePrint (b := b) ht
  have hwf := h.of_levels hl ho
  have hd : ∀ s p, b'.depthAt s p = b.depthAt s p := fun s p => by rw [depthAt_eq, depthAt_eq, hl]
  rw [he, trade_unknown (by rw [ho]; exact hid)]
  by_cases hguard : 0 < t.qty ∧ t.side ≠ .unknown ∧ 0 < t.px
  · rw [if_pos hguard, depthAt_removeFromLevel hwf.levels hguard.1.le, hd]
    simp [hguard.1, hguard.2.2]
  · rw [if_neg hguard, hd]
    split_ifs with hat
    · have hunknown : t.side = .unknown := by tauto
      rw [hat.2.1, hunknown, depthAt_unknown]
      omega
    · rfl

/-- From an exact book a trade spares the levels that orders back exactly when it does not bite. -/
theorem sparesBacked_iff (h : b.Wf) (he : b.Exact) : b.SparesBacked op ↔ b.TradeSpares op := by
  constructor
  · rintro hs t ht ⟨hid, hpx, hqty, hd⟩
    have hsame := hs t ht hid t.side t.px (by rw [← he.depthAt_eq]; exact hd)
    rw [depthAt_of_tradePrint h ht hid] at hsame
    simp only [hqty, hpx, and_self, if_true] at hsame
    omega
  · intro hs t ht hid side px _
    rw [depthAt_of_tradePrint h ht hid]
    split_ifs with hat
    · have hd0 := h.levels.depthAt_nonneg side px
      have hd : ¬ 0 < b.depthAt side px := fun hpos =>
        hs t ht ⟨hid, hat.1.2, hat.1.1, by rw [← hat.2.1, ← hat.2.2]; exact hpos⟩
      omega
    · rfl

theorem allSteps_sparesBacked_iff (ops : List BookOp) (h : b.Wf ∧ b.Exact) :
    AllSteps exec SparesBacked b ops ↔ AllSteps exec TradeSpares b ops := by
  induction ops generalizing b with
  | nil => rfl
  | cons op ops ih =>
    simp only [AllSteps]
    rw [sparesBacked_iff h.1 h.2]
    refine and_congr_right fun hop => ih ?_
    have hk := keeps_exec h.1 hop
    exact ⟨hk.wf, hk.exact h.2⟩

/-- **When trades touch their own order only.**  Along a run from the empty book the levels stay
backed by the index exactly when no trade names an id that does not rest while quantity shows at
its side and price. -/
theorem levelsBacked_iff (venue : Venue) (instrumentId : ℕ) (ops : List BookOp) :
    LevelsBacked (new venue instrumentId) ops ↔
      AllSteps exec TradeSpares (new venue instrumentId) ops := by
  have hstart : (new venue instrumentId).Wf ∧ (new venue instrumentId).Exact :=
    ⟨.new venue instrumentId, exact_new venue instrumentId⟩
  unfold LevelsBacked
  rw [allSteps_sparesBacked_iff ops hstart]
  refine ⟨And.right, fun hrun => ⟨?_, hrun⟩⟩
  rintro pre ⟨suf, rfl⟩
  have hpre := exact_run pre hstart (AllSteps.append.1 hrun).1
  exact hpre.2.showsIndexed hpre.1

/-- A feed event for order `id` of a Buy at 100. -/
def buyAt100 (eventType : EventType) (id : ℕ) (qty : ℤ) : BookOp :=
  .apply
    { tsExchangeNs := 0
      tsIngestNs := 1
      venue := .nse
      instrumentId := 1
      nativeToken := 1594
      eventType := eventType
      orderId := id
      side := .buy
      pricePaise := 100
      qty := qty
      nativePayload := [] }

/-- Order 1 is alone when the simulator's own IOC consumes it; order 2 then joins at the same price,
the feed reports the trade of order 1, and order 3 joins order 2. -/
def tradeAfterMatch : List BookOp :=
  [buyAt100 .add 1 10, .matchIoc .byId .sell 100 10, buyAt100 .add 2 10, buyAt100 .trade 1 10,
    buyAt100 .add 3 5]

/-- The late trade erases the level of order 2: the level then shows 5 of the 15 resting. -/
theorem levelsBacked_tradeAfterMatch : ¬ LevelsBacked (new .nse 1) tradeAfterMatch := by
  intro h
  have hshow := h.1 tradeAfterMatch List.prefix_rfl .buy 100 5 (by decide +kernel)
  exact absurd hshow (by decide +kernel)

end OrderBook

end Hft
