import HftArb.Common.Csv

/-!
# `md/packet`, `md/book_event`: what the feed delivers

A replay line becomes a `RawPacket`; the parser turns its payload into a `BookEvent`.  Payloads
and columns are lists of characters (`Bytes`), since the parser walks them one by one.
-/

namespace Hft

/-- `struct BookEvent`.  Quantities are of type `Q`: the integers, or a machine integer. -/
structure BookEvent (Q : Type) where
  tsExchangeNs : ℕ
  tsIngestNs : ℕ
  venue : Venue
  instrumentId : ℕ
  nativeToken : ℕ
  eventType : EventType
  orderId : ℕ
  side : Side
  pricePaise : ℤ
  qty : Q
  nativePayload : Bytes
  deriving DecidableEq, Repr

/-- `struct RawPacket`. -/
structure RawPacket where
  tsIngestNs : ℕ
  venue : Venue
  channelId : ℕ
  sequenceNo : ℕ
  msgType : Bytes
  srcIp : Bytes
  payloadBytes : Bytes
  deriving DecidableEq, Repr

end Hft
