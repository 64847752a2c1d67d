import HftArb.Lib.FiniteMap
import HftArb.Lib.Transition
import HftArb.Md.Packet

/-!
# `book/order_book`: price levels and the order index

An `OrderBook` keeps three maps that the source updates separately: the aggregated levels
`bids` and `asks`, and the index `orders` of resting orders by id.

* `bids_` and `asks_` are `std::map`s: `bids` is ordered by falling price, so `front` is
  `begin()` on both sides.
* `orders_` is an `unordered_map`, whose iteration order is unspecified.  The one operation that
  walks it, `consumeOrdersAtPrice`, takes the walk as an argument; a `WalkOrder` supplies one
  for every walk of a `matchIoc`.
* Quantities are of a type `Q`, which is `ℤ` for exact arithmetic.
* The `while` loop of `match_ioc` is `matchBody` under `runLoop`.
-/

namespace Hft

open FiniteMap Transition
open Std (ExtTreeMap TransCmp LawfulEqCmp ReflCmp)

/-- `struct RestingOrder`. -/
structure RestingOrder (Q : Type) where
  side : Side
  pricePaise : ℤ
  qty : Q
  deriving DecidableEq, Repr

/-- `struct LevelFill`. -/
structure LevelFill (Q : Type) where
  pricePaise : ℤ
  qty : Q
  deriving DecidableEq, Repr

/-- `struct BestQuote`. -/
structure BestQuote where
  venue : Venue := .unknown
  instrumentId : ℕ := 0
  bidPxPaise : ℤ := 0
  bidQty : ℤ := 0
  askPxPaise : ℤ := 0
  askQty : ℤ := 0
  bookAgeUs : ℕ := uint32Max
  deriving DecidableEq, Repr

/-- `BestQuote::valid`. -/
def BestQuote.valid (q : BestQuote) : Bool :=
  decide (q.venue ≠ .unknown ∧ q.instrumentId ≠ 0 ∧ q.bidPxPaise > 0 ∧ q.askPxPaise > 0 ∧
    q.bidQty > 0 ∧ q.askQty > 0)

/-- `BidMap`: `std::map<int64_t, int64_t, std::greater<int64_t>>`. -/
abbrev BidMap (Q : Type) := ExtTreeMap ℤ Q (fun a b => compare b a)

instance transCmp_bids : TransCmp (fun a b : ℤ => compare b a) := inferInstance

/-- `AskMap`: `std::map<int64_t, int64_t>`. -/
abbrev AskMap (Q : Type) := ExtTreeMap ℤ Q

/-- The id index `orders_`. -/
abbrev OrderIndex (Q : Type) := ExtTreeMap ℕ (RestingOrder Q)

/-- `class OrderBook`. -/
structure OrderBook (Q : Type) where
  venue : Venue := .unknown
  instrumentId : ℕ := 0
  lastUpdateNs : ℕ := 0
  bids : BidMap Q := ∅
  asks : AskMap Q := ∅
  orders : OrderIndex Q := ∅

/-- The constructor `OrderBook(venue, instrument_id)`. -/
def OrderBook.new {Q : Type} (venue : Venue) (instrumentId : ℕ) : OrderBook Q :=
  { venue := venue, instrumentId := instrumentId }

section Operations

variable {Q : Type} [Zero Q] [Add Q] [Sub Q] [LE Q] [DecidableLE Q] [Min Q]
variable {cmp : ℤ → ℤ → Ordering} [TransCmp cmp]

/-- `levels[px] += qty`. -/
def addToLevel (levels : ExtTreeMap ℤ Q cmp) (px : ℤ) (qty : Q) : ExtTreeMap ℤ Q cmp :=
  levels.insert px ((levels[px]?).getD 0 + qty)

/-- Subtract `qty` from the level at `px`, if there is one, and erase the level if nothing is
left. -/
def takeFromLevel (levels : ExtTreeMap ℤ Q cmp) (px : ℤ) (qty : Q) : ExtTreeMap ℤ Q cmp :=
  match levels[px]? with
  | none => levels
  | some level => if level - qty ≤ 0 then levels.erase px else levels.insert px (level - qty)

namespace OrderBook

/-- `if (side == Side::Buy) bids_[px] += qty; else asks_[px] += qty;` -/
def addLevel (b : OrderBook Q) (side : Side) (px : ℤ) (qty : Q) : OrderBook Q :=
  if side = .buy then { b with bids := addToLevel b.bids px qty }
  else { b with asks := addToLevel b.asks px qty }

/-- `remove_from_level`. -/
def removeFromLevel (b : OrderBook Q) (side : Side) (px : ℤ) (qty : Q) : OrderBook Q :=
  if qty ≤ 0 then b
  else match side with
    | .buy => { b with bids := takeFromLevel b.bids px qty }
    | .sell => { b with asks := takeFromLevel b.asks px qty }
    | .unknown => b

/-- `cancel`. -/
def cancel (b : OrderBook Q) (id : ℕ) : OrderBook Q :=
  match b.orders[id]? with
  | none => b
  | some o =>
      let b := b.removeFromLevel o.side o.pricePaise o.qty
      { b with orders := b.orders.erase id }

/-- `add`. -/
def add (b : OrderBook Q) (id : ℕ) (side : Side) (px : ℤ) (qty : Q) : OrderBook Q :=
  if id = 0 ∨ side = .unknown ∨ px ≤ 0 ∨ qty ≤ 0 then b
  else
    let b := if id ∈ b.orders then b.cancel id else b
    let b := { b with orders := b.orders.insert id ⟨side, px, qty⟩ }
    b.addLevel side px qty

/-- `modify`. -/
def modify (b : OrderBook Q) (id : ℕ) (side : Side) (newPx : ℤ) (newQty : Q) : OrderBook Q :=
  match b.orders[id]? with
  | none => b.add id side newPx newQty
  | some o =>
      let b := b.removeFromLevel o.side o.pricePaise o.qty
      if newQty ≤ 0 then { b with orders := b.orders.erase id }
      else
        let finalSide := if side = .unknown then o.side else side
        let b := { b with orders := b.orders.insert id ⟨finalSide, newPx, newQty⟩ }
        b.addLevel finalSide newPx newQty

/-- `trade`.  A trade of an id that is not resting still takes `qty` from the visible level at
`side` and `px`. -/
def trade (b : OrderBook Q) (restingId : ℕ) (side : Side) (px : ℤ) (qty : Q) : OrderBook Q :=
  if qty ≤ 0 then b
  else match b.orders[restingId]? with
    | some o =>
        let consumed := min qty o.qty
        let b := b.removeFromLevel o.side o.pricePaise consumed
        let left := o.qty - consumed
        { b with
          orders := if left ≤ 0 then b.orders.erase restingId
            else b.orders.insert restingId { o with qty := left } }
    | none => if side ≠ .unknown ∧ px > 0 then b.removeFromLevel side px qty else b

/-- `clear`. -/
def clear (b : OrderBook Q) : OrderBook Q := { b with bids := ∅, asks := ∅, orders := ∅ }

/-- The header `apply` writes before anything else. -/
def withHeader (b : OrderBook Q) (ev : BookEvent Q) : OrderBook Q :=
  { b with venue := ev.venue, instrumentId := ev.instrumentId, lastUpdateNs := ev.tsIngestNs }

/-- `apply`. -/
def apply (b : OrderBook Q) (ev : BookEvent Q) : OrderBook Q :=
  let b := b.withHeader ev
  match ev.eventType with
  | .add => b.add ev.orderId ev.side ev.pricePaise ev.qty
  | .modify => b.modify ev.orderId ev.side ev.pricePaise ev.qty
  | .cancel => b.cancel ev.orderId
  | .trade => b.trade ev.orderId ev.side ev.pricePaise ev.qty
  | .reset => b.clear
  | .heartbeat => b
  | .unknown => b

end OrderBook

/-! ### Matching -/

/-- The loop of `consume_orders_at_price` over the ids it still has to visit: the index, the
quantity still to consume and `erase_ids`. -/
def consumeLoop (restingSide : Side) (px : ℤ) :
    List ℕ → OrderIndex Q → Q → List ℕ → OrderIndex Q × Q × List ℕ
  | [], orders, remaining, eraseIds => (orders, remaining, eraseIds)
  | id :: ids, orders, remaining, eraseIds =>
      if remaining ≤ 0 then (orders, remaining, eraseIds)
      else match orders[id]? with
        | none => consumeLoop restingSide px ids orders remaining eraseIds
        | some o =>
            if o.side ≠ restingSide ∨ o.pricePaise ≠ px then
              consumeLoop restingSide px ids orders remaining eraseIds
            else
              let take := min remaining o.qty
              let left := o.qty - take
              consumeLoop restingSide px ids (orders.insert id { o with qty := left })
                (remaining - take) (if left ≤ 0 then eraseIds ++ [id] else eraseIds)

/-- `consume_orders_at_price`, walking the index in the order `ids`. -/
def OrderBook.consumeOrdersAtPrice (b : OrderBook Q) (ids : List ℕ) (restingSide : Side) (px : ℤ)
    (qtyToConsume : Q) : OrderBook Q :=
  let (orders, remaining, eraseIds) := consumeLoop restingSide px ids b.orders qtyToConsume []
  let b := { b with orders := orders }.removeFromLevel restingSide px (qtyToConsume - remaining)
  { b with orders := eraseIds.foldl (fun m id => m.erase id) b.orders }

/-- The iteration orders of the hash map `orders_` during one `match_ioc`: the order of its
`n`-th walk, which visits every entry exactly once. -/
structure WalkOrder (Q : Type) where
  ids : ℕ → OrderIndex Q → List ℕ
  perm : ∀ n orders, (ids n orders).Perm orders.keys

/-- The walk by rising id. -/
def WalkOrder.byId : WalkOrder Q := ⟨fun _ orders => orders.keys, fun _ _ => .refl _⟩

/-- The variables of the loop of `match_ioc`, and the number of walks made so far. -/
structure MatchState (Q : Type) where
  book : OrderBook Q
  qty : Q
  fills : List (LevelFill Q)
  walks : ℕ

/-- Fill `fillQty` from the level at `px` of side `resting`. -/
def MatchState.fill (walk : WalkOrder Q) (s : MatchState Q) (resting : Side) (px : ℤ)
    (fillQty : Q) : MatchState Q :=
  { book := s.book.consumeOrdersAtPrice (walk.ids s.walks s.book.orders) resting px fillQty
    qty := s.qty - fillQty
    fills := s.fills ++ [⟨px, fillQty⟩]
    walks := s.walks + 1 }

/-- One turn of the loop of `match_ioc`. -/
def matchBody (walk : WalkOrder Q) (aggressor : Side) (limitPx : ℤ) (s : MatchState Q) :
    ForInStep (MatchState Q) :=
  if s.qty ≤ 0 then .done s
  else match aggressor with
    | .buy =>
        match front s.book.asks with
        | none => .done s
        | some (px, level) =>
            if px > limitPx then .done s else .yield (s.fill walk .sell px (min s.qty level))
    | .sell =>
        match front s.book.bids with
        | none => .done s
        | some (px, level) =>
            if px < limitPx then .done s else .yield (s.fill walk .buy px (min s.qty level))
    | .unknown => .done s

end Operations

namespace OrderBook

/-- `match_ioc` in exact arithmetic.  Every turn of the loop fills at least one unit
(`matchLoop_ends`), so `qty` bounds the number of turns. -/
def matchIoc (b : OrderBook ℤ) (walk : WalkOrder ℤ) (aggressor : Side) (limitPx qty : ℤ) :
    OrderBook ℤ × List (LevelFill ℤ) :=
  if qty ≤ 0 ∨ limitPx ≤ 0 then (b, [])
  else
    let s := runLoop (matchBody walk aggressor limitPx) (qty.toNat + 1) ⟨b, qty, [], 0⟩
    (s.book, s.fills)

/-! ### Observers -/

/-- `best_quote`.  The age is computed in 64 bits and stored in 32. -/
def bestQuote (b : OrderBook ℤ) (nowNs : ℕ) : BestQuote where
  venue := b.venue
  instrumentId := b.instrumentId
  bidPxPaise := ((front b.bids).map Prod.fst).getD 0
  bidQty := ((front b.bids).map Prod.snd).getD 0
  askPxPaise := ((front b.asks).map Prod.fst).getD 0
  askQty := ((front b.asks).map Prod.snd).getD 0
  bookAgeUs :=
    if b.lastUpdateNs > 0 ∧ nowNs ≥ b.lastUpdateNs then
      (nowNs - b.lastUpdateNs) / 1000 % 2 ^ 32
    else 0

/-- `crossed`. -/
def crossed (b : OrderBook ℤ) : Bool :=
  match front b.bids, front b.asks with
  | some (bid, _), some (ask, _) => decide (bid ≥ ask)
  | _, _ => false

/-- `depth_at`. -/
def depthAt (b : OrderBook ℤ) (side : Side) (px : ℤ) : ℤ :=
  match side with
  | .buy => (b.bids[px]?).getD 0
  | .sell => (b.asks[px]?).getD 0
  | .unknown => 0

/-- `total_depth`. -/
def totalDepth (b : OrderBook ℤ) (side : Side) : ℤ :=
  match side with
  | .buy => total b.bids fun _ qty => qty
  | .sell => total b.asks fun _ qty => qty
  | .unknown => 0

end OrderBook

end Hft
