import HftArb.Lib.FiniteMap
import HftArb.Book.OrderBook
import HftArb.Oms.Order

/-!
# `risk`: limits, positions and the pre-trade check

The risk engine refers to the `PositionBook` that the order manager updates; here the positions are
an argument of `checkOrder`.

The arithmetic of the check is a parameter, as the type of quantities is one of the books: `wrap`
gives the value that the code has for the result of each operation.  It is `id` in exact arithmetic.
-/

namespace Hft

open Std (ExtTreeMap)

/-- `struct RiskConfig`, less the limits that no check reads. -/
structure RiskConfig where
  maxOrderQty : ℤ := 100
  maxPositionQty : ℤ := 200
  maxNotionalPaise : ℤ := 20000000
  maxBookAgeUs : ℕ := 250
  maxOrdersPerSec : ℤ := 50
  maxHedgeAttempts : ℤ := 3
  maxHedgeLossPaise : ℤ := 2000
  priceBandPaise : ℤ := 100
  forceFlattenOnMaxLoss : Bool := false
  deriving DecidableEq, Repr

/-- `class KillSwitch`. -/
structure KillSwitch where
  enabled : Bool := true
  reason : String := ""
  deriving DecidableEq, Repr

namespace KillSwitch

/-- `disable`. -/
def disable (_k : KillSwitch) (reason : String) : KillSwitch := ⟨false, reason⟩

end KillSwitch

/-! ### Positions -/

/-- `struct Position`. -/
structure Position where
  netQty : ℤ := 0
  cashPaise : ℤ := 0
  deriving DecidableEq, Repr

/-- The update of one position by a fill. -/
def Position.fill (p : Position) (side : Side) (qty pricePaise : ℤ) : Position :=
  match side with
  | .buy => ⟨p.netQty + qty, p.cashPaise - qty * pricePaise⟩
  | .sell => ⟨p.netQty - qty, p.cashPaise + qty * pricePaise⟩
  | .unknown => p

/-- `class PositionBook`. -/
structure PositionBook where
  positions : ExtTreeMap ℕ Position := ∅

namespace PositionBook

/-- `position`. -/
def position (pb : PositionBook) (instrumentId : ℕ) : Position :=
  (pb.positions[instrumentId]?).getD {}

/-- `net_qty`. -/
def netQty (pb : PositionBook) (instrumentId : ℕ) : ℤ := (pb.position instrumentId).netQty

/-- `cash_paise`. -/
def cashPaise (pb : PositionBook) (instrumentId : ℕ) : ℤ := (pb.position instrumentId).cashPaise

/-- `apply_fill`. -/
def applyFill (pb : PositionBook) (instrumentId : ℕ) (side : Side) (qty pricePaise : ℤ) :
    PositionBook :=
  ⟨pb.positions.insert instrumentId ((pb.position instrumentId).fill side qty pricePaise)⟩

end PositionBook

/-! ### The order rate -/

/-- A bucket of the rate limiter: the orders counted in a second. -/
structure RateBucket where
  count : ℤ := 0
  second : ℕ := 0
  deriving DecidableEq, Repr

/-- `class RateLimiter`. -/
structure RateLimiter where
  maxPerSec : ℤ := 50
  buckets : ExtTreeMap ℕ RateBucket := ∅

namespace RateLimiter

/-- The bucket of an instrument after `allow` has moved it to the second of `nowNs`. -/
def bucket (l : RateLimiter) (instrumentId nowNs : ℕ) : RateBucket :=
  let b := (l.buckets[instrumentId]?).getD {}
  if b.second ≠ nowNs / 1000000000 then ⟨0, nowNs / 1000000000⟩ else b

/-- `allow`. -/
def allow (l : RateLimiter) (instrumentId nowNs : ℕ) : Bool × RateLimiter :=
  let b := l.bucket instrumentId nowNs
  if b.count ≥ l.maxPerSec then (false, { l with buckets := l.buckets.insert instrumentId b })
  else (true, { l with buckets := l.buckets.insert instrumentId { b with count := b.count + 1 } })

end RateLimiter

/-! ### The pre-trade check -/

/-- `struct RiskDecision`. -/
structure RiskDecision where
  approved : Bool := false
  rule : String := ""
  details : String := ""
  deriving DecidableEq, Repr

namespace RiskDecision

/-- `approve`. -/
def approve : RiskDecision := ⟨true, "APPROVED", ""⟩

/-- `block`. -/
def block (rule details : String) : RiskDecision := ⟨false, rule, details⟩

/-- The verdict names a rule that looks at neither side, price, quotes nor positions. -/
def Common (rd : RiskDecision) : Prop := rd.rule = "KILL_SWITCH" ∨ rd.rule = "MAX_QTY"

end RiskDecision

/-- `class RiskEngine`. -/
structure RiskEngine where
  cfg : RiskConfig
  limiter : RateLimiter
  kill : KillSwitch := {}

namespace RiskEngine

/-- The constructor. -/
def new (cfg : RiskConfig) : RiskEngine where
  cfg := cfg
  limiter := { maxPerSec := cfg.maxOrdersPerSec }

/-- `signed_effect`. -/
def signedEffect (o : OrderIntent) : ℤ := if o.side = .buy then o.qty else -o.qty

/-- `signed_effect`, as the code computes it. -/
def effectIn (wrap : ℤ → ℤ) (o : OrderIntent) : ℤ :=
  if o.side = .buy then o.qty else wrap (-o.qty)

/-- The checks of `check_order` that come before the rate limiter, in their order. -/
def staticBlock (wrap : ℤ → ℤ) (e : RiskEngine) (positions : PositionBook) (o : OrderIntent)
    (q : BestQuote) : Option RiskDecision :=
  if ¬ e.kill.enabled then some (.block "KILL_SWITCH" e.kill.reason)
  else if ¬ q.valid then some (.block "INVALID_QUOTE" "quote missing or one-sided")
  else if q.bookAgeUs > e.cfg.maxBookAgeUs then some (.block "STALE_BOOK" "quote age too high")
  else if o.qty ≤ 0 ∨ o.qty > e.cfg.maxOrderQty then
    some (.block "MAX_QTY" "order quantity outside limits")
  else if o.pricePaise ≤ 0 then some (.block "BAD_PRICE" "price must be positive")
  else if wrap (o.qty * o.pricePaise) > e.cfg.maxNotionalPaise then
    some (.block "MAX_NOTIONAL" "order notional too high")
  else if wrap |wrap (positions.netQty o.instrumentId + effectIn wrap o)| >
      e.cfg.maxPositionQty then
    some (.block "MAX_POSITION" "position cap exceeded")
  else if o.side = .buy ∧ q.askPxPaise > 0 ∧
      o.pricePaise > wrap (q.askPxPaise + e.cfg.priceBandPaise) then
    some (.block "PRICE_BAND" "buy price too far from ask")
  else if o.side = .sell ∧ q.bidPxPaise > 0 ∧
      o.pricePaise < wrap (q.bidPxPaise - e.cfg.priceBandPaise) then
    some (.block "PRICE_BAND" "sell price too far from bid")
  else none

/-- `check_order`. -/
def checkOrderIn (wrap : ℤ → ℤ) (e : RiskEngine) (positions : PositionBook) (o : OrderIntent)
    (q : BestQuote) (nowNs : ℕ) : RiskDecision × RiskEngine :=
  match e.staticBlock wrap positions o q with
  | some blocked => (blocked, e)
  | none =>
      let (allowed, limiter) := e.limiter.allow o.instrumentId nowNs
      let e := { e with limiter := limiter }
      if allowed then (.approve, e) else (.block "ORDER_RATE" "order rate exceeded", e)

/-- `check_order` in exact arithmetic. -/
def checkOrder (e : RiskEngine) (positions : PositionBook) (o : OrderIntent) (q : BestQuote)
    (nowNs : ℕ) : RiskDecision × RiskEngine :=
  e.checkOrderIn id positions o q nowNs

/-! ### What an approval says -/

/-- The order passes every check that is made before the order rate. -/
structure PreTrade (wrap : ℤ → ℤ) (e : RiskEngine) (positions : PositionBook) (o : OrderIntent)
    (q : BestQuote) : Prop where
  kill : e.kill.enabled = true
  quote : q.valid = true
  age : q.bookAgeUs ≤ e.cfg.maxBookAgeUs
  qty : 0 < o.qty ∧ o.qty ≤ e.cfg.maxOrderQty
  price : 0 < o.pricePaise
  notional : wrap (o.qty * o.pricePaise) ≤ e.cfg.maxNotionalPaise
  position : wrap |wrap (positions.netQty o.instrumentId + effectIn wrap o)| ≤ e.cfg.maxPositionQty
  buyBand : o.side = .buy → 0 < q.askPxPaise →
    o.pricePaise ≤ wrap (q.askPxPaise + e.cfg.priceBandPaise)
  sellBand : o.side = .sell → 0 < q.bidPxPaise →
    wrap (q.bidPxPaise - e.cfg.priceBandPaise) ≤ o.pricePaise

@[simp]
theorem effectIn_id (o : OrderIntent) : effectIn id o = signedEffect o := rfl

variable {wrap : ℤ → ℤ} {e : RiskEngine} {positions : PositionBook} {o : OrderIntent} {q : BestQuote} {nowNs : ℕ}

/-- A chain of checks blocks nothing when none of them does. -/
theorem ite_some_eq_none {α : Type*} {c : Prop} [Decidable c] {a : α} {r : Option α} :
    (if c then some a else r) = none ↔ ¬ c ∧ r = none := by
  split <;> simp_all

/-- What holds of every blocking verdict of a chain of checks. -/
theorem forall_mem_ite_some {α : Type*} {c : Prop} [Decidable c] {a : α} {r : Option α}
    {P : α → Prop} (ha : P a) (hr : ∀ x ∈ r, P x) : ∀ x ∈ (if c then some a else r), P x := by
  split
  · simpa using ha
  · exact hr

theorem staticBlock_eq_none :
    e.staticBlock wrap positions o q = none ↔ PreTrade wrap e positions o q := by
  simp only [staticBlock, ite_some_eq_none, not_not, not_or, not_le, not_lt, and_true, not_and]
  constructor
  · rintro ⟨hkill, hquote, hage, hqty, hprice, hnotional, hposition, hbuy, hsell⟩
    exact ⟨hkill, hquote, hage, hqty, hprice, hnotional, hposition, hbuy, hsell⟩
  · rintro ⟨hkill, hquote, hage, hqty, hprice, hnotional, hposition, hbuy, hsell⟩
    exact ⟨hkill, hquote, hage, hqty, hprice, hnotional, hposition, hbuy, hsell⟩

theorem staticBlock_not_approved :
    ∀ rd ∈ e.staticBlock wrap positions o q, rd.approved = false := by
  unfold staticBlock
  iterate 9 refine forall_mem_ite_some rfl ?_
  exact fun rd h => absurd h (Option.not_mem_none rd)

/-- **An order is approved** exactly when it passes every check and the order rate allows it. -/
theorem checkOrderIn_approved : (e.checkOrderIn wrap positions o q nowNs).1.approved = true ↔
    PreTrade wrap e positions o q ∧ (e.limiter.allow o.instrumentId nowNs).1 = true := by
  rw [← staticBlock_eq_none]
  unfold checkOrderIn
  cases hb : e.staticBlock wrap positions o q with
  | some rd => simp [staticBlock_not_approved rd hb]
  | none =>
    simp only [true_and]
    split_ifs with hallow <;> simp [hallow, RiskDecision.approve, RiskDecision.block]

theorem checkOrder_approved : (e.checkOrder positions o q nowNs).1.approved = true ↔
    PreTrade id e positions o q ∧ (e.limiter.allow o.instrumentId nowNs).1 = true :=
  checkOrderIn_approved

/-- The rule that a check names. -/
theorem rule_checkOrder : (e.checkOrder positions o q nowNs).1.rule =
    match e.staticBlock id positions o q with
    | some rd => rd.rule
    | none => if (e.limiter.allow o.instrumentId nowNs).1 then "APPROVED" else "ORDER_RATE" := by
  unfold checkOrder checkOrderIn
  split
  · rfl
  · dsimp only
    split_ifs <;> rfl

/-- If a common rule blocks an order, no order of that quantity is approved. -/
theorem not_approved_of_common {e' : RiskEngine} {positions' : PositionBook} {o' : OrderIntent}
    {q' : BestQuote} {nowNs' : ℕ} (hkill : e'.kill = e.kill) (hcfg : e'.cfg = e.cfg)
    (hqty : o'.qty = o.qty)
    (hrule : (e.checkOrder positions o q nowNs).1.Common) :
    (e'.checkOrder positions' o' q' nowNs').1.approved = false := by
  by_contra happ
  obtain ⟨hpre, -⟩ := checkOrder_approved.1 (Bool.not_eq_false _ ▸ happ)
  have hk : e.kill.enabled = true := hkill ▸ hpre.kill
  have hq : ¬ (o.qty ≤ 0 ∨ o.qty > e.cfg.maxOrderQty) := by
    have := hpre.qty
    rw [hcfg, hqty] at this
    omega
  have hstatic : ∀ rd ∈ e.staticBlock id positions o q, ¬ rd.Common := by
    rw [staticBlock, if_neg (not_not.2 hk), if_neg hq]
    iterate 7 refine forall_mem_ite_some (by unfold RiskDecision.Common; decide) ?_
    exact fun rd h => absurd h (Option.not_mem_none rd)
  rw [RiskDecision.Common, rule_checkOrder] at hrule
  cases hb : e.staticBlock id positions o q with
  | some rd => exact hstatic rd hb (by simpa only [hb, RiskDecision.Common] using hrule)
  | none =>
    simp only [hb] at hrule
    split_ifs at hrule <;> exact absurd hrule (by decide)

@[simp]
theorem cfg_checkOrder : (e.checkOrder positions o q nowNs).2.cfg = e.cfg := by
  unfold checkOrder checkOrderIn
  split
  · rfl
  · dsimp only
    split_ifs <;> rfl

@[simp]
theorem kill_checkOrder : (e.checkOrder positions o q nowNs).2.kill = e.kill := by
  unfold checkOrder checkOrderIn
  split
  · rfl
  · dsimp only
    split_ifs <;> rfl

end RiskEngine

end Hft
