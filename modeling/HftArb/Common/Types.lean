import Mathlib.Tactic

/-!
# `common/types`: the enumerations of the simulator

Venues, sides, event types and order roles, with the texts `to_string` prints for them.  The
texts matter: they are written into client order ids and log rows, and the replay parser reads
them back.

Integers: prices (paise), quantities and cash are `ℤ`, identifiers and timestamps are `ℕ`.
Where the source narrows or wraps a machine integer the model says so with an explicit `%`.
-/

namespace Hft

/-- `enum class Venue`. -/
inductive Venue
  | nse
  | bse
  | unknown
  deriving DecidableEq, Repr

/-- `enum class Side`. -/
inductive Side
  | buy
  | sell
  | unknown
  deriving DecidableEq, Repr

/-- `enum class EventType`. -/
inductive EventType
  | add
  | modify
  | cancel
  | trade
  | heartbeat
  | reset
  | unknown
  deriving DecidableEq, Repr

/-- `enum class OrderType`. -/
inductive OrderType
  | limit
  | market
  deriving DecidableEq, Repr

/-- `enum class TimeInForce`. -/
inductive TimeInForce
  | day
  | ioc
  deriving DecidableEq, Repr

/-- `enum class OrderRole`. -/
inductive OrderRole
  | alphaBuy
  | alphaSell
  | hedge
  | passive
  | unknown
  deriving DecidableEq, Repr

/-- `to_string(Venue)`. -/
def Venue.text : Venue → String
  | .nse => "NSE"
  | .bse => "BSE"
  | .unknown => "UNKNOWN"

/-- `static_cast<int>(Venue)`. -/
def Venue.toInt : Venue → ℕ
  | .nse => 0
  | .bse => 1
  | .unknown => 2

/-- `to_string(Side)`. -/
def Side.text : Side → String
  | .buy => "BUY"
  | .sell => "SELL"
  | .unknown => "UNKNOWN"

/-- `to_string(EventType)`. -/
def EventType.text : EventType → String
  | .add => "ADD"
  | .modify => "MODIFY"
  | .cancel => "CANCEL"
  | .trade => "TRADE"
  | .heartbeat => "HEARTBEAT"
  | .reset => "RESET"
  | .unknown => "UNKNOWN"

/-- `to_string(OrderRole)`. -/
def OrderRole.text : OrderRole → String
  | .alphaBuy => "ALPHA_BUY"
  | .alphaSell => "ALPHA_SELL"
  | .hedge => "HEDGE"
  | .passive => "PASSIVE"
  | .unknown => "UNKNOWN"

/-- `opposite`. -/
def opposite : Side → Side
  | .buy => .sell
  | .sell => .buy
  | .unknown => .unknown

/-- `other_venue`. -/
def otherVenue : Venue → Venue
  | .nse => .bse
  | .bse => .nse
  | .unknown => .unknown

/-- `UINT32_MAX`. -/
def uint32Max : ℕ := 2 ^ 32 - 1

end Hft
