import HftArb.Common.Types

/-!
# `common/csv` and the `*_from_string` parsers

Lines are lists of characters, one for each byte.  `parseU64` and `parseI64` follow `std::stoull`
and `std::stoll` as the source calls them: a sign and the longest run of digits after it are read,
what follows is ignored, and a text without digits or a value out of range gives the default.
-/

namespace Hft

/-- A `std::string` of the feed. -/
abbrev Bytes := List Char

/-- `std::isspace` in the C locale. -/
def isspace (c : Char) : Bool :=
  c = ' ' || c = '\t' || c = '\n' || c = '\r' || c.toNat = 11 || c.toNat = 12

/-- `trim`. -/
def trim (s : Bytes) : Bytes := ((s.dropWhile isspace).reverse.dropWhile isspace).reverse

/-- `upper`. -/
def upper (s : Bytes) : Bytes := s.map Char.toUpper

/-- The loop of `split_csv`, with the rest of the line, `in_quotes` and `cur`. -/
def splitCsvLoop : Bytes → Bool → Bytes → List Bytes
  | [], _, cur => [trim cur]
  | c :: rest, inQuotes, cur =>
      if c = '"' then
        match rest, inQuotes with
        | '"' :: rest, true => splitCsvLoop rest true (cur ++ ['"'])
        | rest, inQuotes => splitCsvLoop rest (!inQuotes) cur
      else if c = ',' ∧ inQuotes = false then trim cur :: splitCsvLoop rest false []
      else splitCsvLoop rest inQuotes (cur ++ [c])

/-- `split_csv`. -/
def splitCsv (line : Bytes) : List Bytes := splitCsvLoop line false []

/-- The sign and the digits that `std::stoull` and `std::stoll` read. -/
def numeral (s : Bytes) : Bool × Bytes :=
  match s with
  | '-' :: s => (true, s.takeWhile Char.isDigit)
  | '+' :: s => (false, s.takeWhile Char.isDigit)
  | s => (false, s.takeWhile Char.isDigit)

/-- `parse_u64`.  `std::stoull` accepts a minus sign and negates modulo `2 ^ 64`. -/
def parseU64 (s : Bytes) (defaultValue : ℕ) : ℕ :=
  let (negative, digits) := numeral (trim s)
  let value := Nat.ofDigitChars 10 digits 0
  if digits = [] ∨ value ≥ 2 ^ 64 then defaultValue
  else if negative then (2 ^ 64 - value) % 2 ^ 64
  else value

/-- `parse_i64`. -/
def parseI64 (s : Bytes) (defaultValue : ℤ) : ℤ :=
  let (negative, digits) := numeral (trim s)
  let value : ℤ := Nat.ofDigitChars 10 digits 0
  let signed := if negative then -value else value
  if digits = [] ∨ signed < -2 ^ 63 ∨ signed ≥ 2 ^ 63 then defaultValue else signed

/-- `static_cast<uint32_t>`. -/
def toUint32 (n : ℕ) : ℕ := n % 2 ^ 32

/-- `venue_from_string`. -/
def venueFromString (input : Bytes) : Venue :=
  let s := upper (trim input)
  if s = "NSE".toList then .nse
  else if s = "BSE".toList then .bse
  else .unknown

/-- `side_from_string`. -/
def sideFromString (input : Bytes) : Side :=
  let s := upper (trim input)
  if s = "BUY".toList ∨ s = "B".toList then .buy
  else if s = "SELL".toList ∨ s = "S".toList then .sell
  else .unknown

/-- `event_type_from_string`. -/
def eventTypeFromString (input : Bytes) : EventType :=
  let s := upper (trim input)
  if s = "ADD".toList ∨ s = "A".toList then .add
  else if s = "MODIFY".toList ∨ s = "MOD".toList ∨ s = "M".toList then .modify
  else if s = "CANCEL".toList ∨ s = "CXL".toList ∨ s = "C".toList then .cancel
  else if s = "TRADE".toList ∨ s = "T".toList then .trade
  else if s = "HEARTBEAT".toList ∨ s = "HB".toList then .heartbeat
  else if s = "RESET".toList ∨ s = "R".toList then .reset
  else .unknown

example : splitCsv "1, NSE ,\"a,\"\"b\"".toList = ["1".toList, "NSE".toList, "a,\"b".toList] := by
  decide +kernel

end Hft
