import HftArb.Lib.MachineInt
import HftArb.Risk.RiskEngine

/-!
# The pre-trade check in 64-bit arithmetic

`check_order` forms the notional, the new position and the price bands in 64 bits before it compares
them.  A band that wraps only refuses (`MachinePreTrade.buyBand_exact`); a notional or a position
that wraps can pass the limit it exceeds.  `approved_withinLimits_iff` says for which inputs an
approval means that the limits are met.
-/

namespace Hft

open MachineInt

namespace RiskEngine

/-- `check_order` in 64 bits. -/
def machineCheckOrder (e : RiskEngine) (positions : PositionBook) (o : OrderIntent)
    (q : BestQuote) (nowNs : ℕ) : RiskDecision × RiskEngine :=
  e.checkOrderIn wrap64 positions o q nowNs

/-- The order passes every check that is made in 64 bits before the order rate. -/
abbrev MachinePreTrade (e : RiskEngine) (positions : PositionBook) (o : OrderIntent)
    (q : BestQuote) : Prop := PreTrade wrap64 e positions o q

/-- The limits of an order, over the integers. -/
structure WithinLimits (e : RiskEngine) (positions : PositionBook) (o : OrderIntent)
    (q : BestQuote) : Prop where
  qty : 0 < o.qty ∧ o.qty ≤ e.cfg.maxOrderQty
  price : 0 < o.pricePaise
  notional : o.qty * o.pricePaise ≤ e.cfg.maxNotionalPaise
  position : |positions.netQty o.instrumentId + signedEffect o| ≤ e.cfg.maxPositionQty
  buyBand : o.side = .buy → o.pricePaise ≤ q.askPxPaise + e.cfg.priceBandPaise
  sellBand : o.side = .sell → q.bidPxPaise - e.cfg.priceBandPaise ≤ o.pricePaise

/-- The fields that the check reads are 64-bit integers, and the limits are not negative. -/
structure InRange (e : RiskEngine) (positions : PositionBook) (o : OrderIntent) (q : BestQuote) :
    Prop where
  qty : InInt64 o.qty
  price : InInt64 o.pricePaise
  bid : InInt64 q.bidPxPaise
  ask : InInt64 q.askPxPaise
  netQty : InInt64 (positions.netQty o.instrumentId)
  maxOrderQty : 0 ≤ e.cfg.maxOrderQty ∧ InInt64 e.cfg.maxOrderQty
  maxNotional : 0 ≤ e.cfg.maxNotionalPaise ∧ InInt64 e.cfg.maxNotionalPaise
  maxPosition : 0 ≤ e.cfg.maxPositionQty ∧ InInt64 e.cfg.maxPositionQty
  priceBand : 0 ≤ e.cfg.priceBandPaise ∧ InInt64 e.cfg.priceBandPaise

/-- The notional and the new position fit in 64 bits, with their absolute values. -/
structure NoOverflow (positions : PositionBook) (o : OrderIntent) : Prop where
  notional : o.qty * o.pricePaise < 2 ^ 63
  position : |positions.netQty o.instrumentId + signedEffect o| < 2 ^ 63

variable {e : RiskEngine} {positions : PositionBook} {o : OrderIntent} {q : BestQuote} {nowNs : ℕ}

/-! ### What a 64-bit approval says -/

theorem quote_pos (h : q.valid = true) : 0 < q.bidPxPaise ∧ 0 < q.askPxPaise := by
  simp only [BestQuote.valid, decide_eq_true_eq] at h
  exact ⟨h.2.2.1, h.2.2.2.1⟩

theorem effectIn_wrap64 (h : InInt64 o.qty) (hpos : 0 < o.qty) :
    effectIn wrap64 o = signedEffect o := by
  unfold effectIn signedEffect
  have hneg : InInt64 (-o.qty) := by
    unfold InInt64 at h ⊢
    omega
  rw [wrap64_eq_self hneg]

/-- A band above the ask that wraps is negative, and no price passes it. -/
theorem MachinePreTrade.buyBand_exact (h : MachinePreTrade e positions o q)
    (hrange : InRange e positions o q) (hside : o.side = .buy) :
    o.pricePaise ≤ q.askPxPaise + e.cfg.priceBandPaise := by
  have hask := (quote_pos h.quote).2
  have hband := h.buyBand hside hask
  have hprice := h.price
  have hask' := hrange.ask.2
  have hband' := hrange.priceBand.2.2
  have hband0 := hrange.priceBand.1
  rcases lt_or_ge (q.askPxPaise + e.cfg.priceBandPaise) (2 ^ 63) with hlt | hge
  · rwa [wrap64_eq_self ⟨by omega, hlt⟩] at hband
  · have hneg := wrap64_neg hge (by omega)
    omega

/-- A band below the bid never wraps. -/
theorem MachinePreTrade.sellBand_exact (h : MachinePreTrade e positions o q)
    (hrange : InRange e positions o q) (hside : o.side = .sell) :
    q.bidPxPaise - e.cfg.priceBandPaise ≤ o.pricePaise := by
  have hbid := (quote_pos h.quote).1
  have hband := h.sellBand hside hbid
  have hbid' := hrange.bid.2
  have hband' := hrange.priceBand.2.2
  have hband0 := hrange.priceBand.1
  rwa [wrap64_eq_self ⟨by omega, by omega⟩] at hband

/-- Without overflow the 64-bit checks are the limits. -/
theorem MachinePreTrade.withinLimits (h : MachinePreTrade e positions o q)
    (hrange : InRange e positions o q) (hfits : NoOverflow positions o) :
    WithinLimits e positions o q := by
  have hnotional := h.notional
  have hposition := h.position
  have hproduct : 0 < o.qty * o.pricePaise := mul_pos h.qty.1 h.price
  have hsum := abs_lt.1 hfits.position
  rw [wrap64_eq_self ⟨by omega, hfits.notional⟩] at hnotional
  rw [effectIn_wrap64 hrange.qty h.qty.1, wrap64_eq_self ⟨hsum.1.le, hsum.2⟩,
    wrap64_abs hfits.position] at hposition
  exact ⟨h.qty, h.price, hnotional, hposition, h.buyBand_exact hrange, h.sellBand_exact hrange⟩

/-- Limits that are met fit in 64 bits. -/
theorem WithinLimits.noOverflow (h : WithinLimits e positions o q)
    (hrange : InRange e positions o q) : NoOverflow positions o :=
  ⟨h.notional.trans_lt hrange.maxNotional.2.2, h.position.trans_lt hrange.maxPosition.2.2⟩

/-- **What overflow does.**  An approved order is within the limits, over the integers, exactly when
notional and position do not overflow. -/
theorem withinLimits_iff_of_approved (hrange : InRange e positions o q)
    (happ : (e.machineCheckOrder positions o q nowNs).1.approved = true) :
    WithinLimits e positions o q ↔ NoOverflow positions o := by
  have hpass : MachinePreTrade e positions o q := (checkOrderIn_approved.1 happ).1
  exact ⟨fun h => h.noOverflow hrange, hpass.withinLimits hrange⟩

/-- **When an approval means that the limits are met**, over the integers: exactly when notional and
position do not overflow, or a check made in 64 bits turns the order away all the same. -/
theorem approved_withinLimits_iff (hrange : InRange e positions o q) :
    ((e.machineCheckOrder positions o q nowNs).1.approved = true →
        WithinLimits e positions o q) ↔
      NoOverflow positions o ∨ ¬ MachinePreTrade e positions o q ∨
        (e.limiter.allow o.instrumentId nowNs).1 = false := by
  have hpassed : (e.machineCheckOrder positions o q nowNs).1.approved = true ↔
      MachinePreTrade e positions o q ∧ (e.limiter.allow o.instrumentId nowNs).1 = true :=
    checkOrderIn_approved
  constructor
  · intro h
    by_cases happ : (e.machineCheckOrder positions o q nowNs).1.approved = true
    · exact Or.inl ((withinLimits_iff_of_approved hrange happ).1 (h happ))
    · rw [hpassed, not_and_or, Bool.not_eq_true] at happ
      exact Or.inr happ
  · rintro (hfits | hblocked | hrate) happ
    · exact (withinLimits_iff_of_approved hrange happ).2 hfits
    · exact absurd (hpassed.1 happ).1 hblocked
    · rw [(hpassed.1 happ).2] at hrate
      cases hrate

/-- A quote of NSE instrument 1. -/
def nseQuote : BestQuote := ⟨.nse, 1, 110050, 100, 110080, 100, 0⟩

/-- An order in NSE instrument 1. -/
def nseOrder (side : Side) (pricePaise qty : ℤ) : OrderIntent :=
  { instrumentId := 1, venue := .nse, side := side, pricePaise := pricePaise, qty := qty }

/-- A Buy of 10 at the ask is approved and within the limits. -/
theorem approved_withinLimits_iff_atAsk :
    ((new {}).machineCheckOrder {} (nseOrder .buy 110080 10) nseQuote 1000000000).1.approved =
        true ∧
      WithinLimits (new {}) {} (nseOrder .buy 110080 10) nseQuote := by
  have happroved : ((new {}).machineCheckOrder {} (nseOrder .buy 110080 10) nseQuote
      1000000000).1.approved = true := by decide +kernel
  refine ⟨happroved, (approved_withinLimits_iff ?_).2 (Or.inl ?_) happroved⟩
  · constructor <;> decide +kernel
  · constructor <;> decide +kernel

/-- A Sell of 4 at `2 ^ 62` has notional `2 ^ 64`, which wraps to 0. -/
theorem not_withinLimits_sellHigh :
    ¬(((new {}).machineCheckOrder {} (nseOrder .sell (2 ^ 62) 4) nseQuote
        1000000000).1.approved = true →
      WithinLimits (new {}) {} (nseOrder .sell (2 ^ 62) 4) nseQuote) := by
  intro h
  have hlimits := h (by decide +kernel)
  exact absurd hlimits.notional (by decide +kernel)

end RiskEngine

end Hft
