import HftArb.Book.Isolation
import HftArb.Common.Numerals
import HftArb.Md.Replay

/-!
# What the parser makes of numbers

Seven of the thirteen columns are numbers.  The parser refuses a line for its number of columns
only: a column without a number of 64 bits reads as 0 (`field_unreadable`), and a column that begins
with a numeral in the range of its field reads as that number (`field_of_begins`).  So lines with
different instruments in range never share a book (`parse_numerals`).
-/

namespace Hft

open MachineInt

/-- The columns that hold a number. -/
inductive NumericColumn
  | tsExchangeNs
  | tsIngestNs
  | instrumentId
  | nativeToken
  | orderId
  | pricePaise
  | qty
  deriving DecidableEq, Repr

namespace NumericColumn

/-- The place of the column in the line. -/
def index : NumericColumn → ℕ
  | .tsExchangeNs => 0
  | .tsIngestNs => 1
  | .instrumentId => 6
  | .nativeToken => 7
  | .orderId => 9
  | .pricePaise => 11
  | .qty => 12

/-- The column of a line, trimmed. -/
def text (col : NumericColumn) (pkt : RawPacket) : Bytes :=
  trim ((splitCsv pkt.payloadBytes).getD col.index [])

/-- The field of an event. -/
def field (ev : BookEvent ℤ) : NumericColumn → ℤ
  | .tsExchangeNs => ev.tsExchangeNs
  | .tsIngestNs => ev.tsIngestNs
  | .instrumentId => ev.instrumentId
  | .nativeToken => ev.nativeToken
  | .orderId => ev.orderId
  | .pricePaise => ev.pricePaise
  | .qty => ev.qty

/-- The numbers that the type of the field holds. -/
def InRange (v : ℤ) : NumericColumn → Prop
  | .tsExchangeNs | .tsIngestNs | .orderId => 0 ≤ v ∧ v < 2 ^ 64
  | .instrumentId | .nativeToken => 0 ≤ v ∧ v < 2 ^ 32
  | .pricePaise | .qty => InInt64 v

/-- The numbers that the conversion does not refuse: `std::stoull` takes a minus sign too. -/
def Converts (v : ℤ) : NumericColumn → Prop
  | .pricePaise | .qty => InInt64 v
  | _ => |v| < 2 ^ 64

/-- How the parser converts the text of the column. -/
def convert (s : Bytes) : NumericColumn → ℤ
  | .tsExchangeNs | .tsIngestNs | .orderId => parseU64 s 0
  | .instrumentId | .nativeToken => toUint32 (parseU64 s 0)
  | .pricePaise | .qty => parseI64 s 0

variable {col : NumericColumn} {pkt : RawPacket} {ev : BookEvent ℤ} {v : ℤ}

/-- Each field of an accepted line comes from its own column. -/
theorem field_parse (h : parse pkt = some ev) :
    col.field ev = col.convert ((splitCsv pkt.payloadBytes).getD col.index []) := by
  unfold parse at h
  dsimp only at h
  split_ifs at h
  cases h
  cases col <;> rfl

/-- The field of a column that begins with a numeral of the field's range. -/
theorem field_of_begins (h : parse pkt = some ev) (hbegins : Begins (col.text pkt) v)
    (hrange : col.InRange v) : col.field ev = v := by
  have hu64 : ∀ s : Bytes, Begins (trim s) v → 0 ≤ v ∧ v < 2 ^ 64 → (parseU64 s 0 : ℤ) = v := by
    intro s hs hv
    rw [parseU64_of_begins hs, abs_of_nonneg hv.1, if_pos hv.2]
    omega
  have hi64 : ∀ s : Bytes, Begins (trim s) v → InInt64 v → parseI64 s 0 = v := by
    intro s hs hv
    rw [parseI64_of_begins hs, if_pos hv]
  have hu32 : ∀ s : Bytes, Begins (trim s) v → 0 ≤ v ∧ v < 2 ^ 32 →
      (toUint32 (parseU64 s 0) : ℤ) = v := by
    intro s hs hv
    have hwide := hu64 s hs ⟨hv.1, by omega⟩
    rw [toUint32]
    omega
  rw [field_parse h]
  cases col with
  | tsExchangeNs => exact hu64 _ hbegins hrange
  | tsIngestNs => exact hu64 _ hbegins hrange
  | instrumentId => exact hu32 _ hbegins hrange
  | nativeToken => exact hu32 _ hbegins hrange
  | orderId => exact hu64 _ hbegins hrange
  | pricePaise => exact hi64 _ hbegins hrange
  | qty => exact hi64 _ hbegins hrange

/-- The field of a column without a numeral at its beginning, or with one of a number that does not
fit in 64 bits. -/
theorem field_unreadable (h : parse pkt = some ev)
    (hnone : ∀ v, Begins (col.text pkt) v → ¬ col.Converts v) : col.field ev = 0 := by
  have hu64 : ∀ s : Bytes, (∀ v, Begins (trim s) v → ¬ |v| < 2 ^ 64) → parseU64 s 0 = 0 := by
    intro s hs
    by_cases hbegins : ∃ v, Begins (trim s) v
    · obtain ⟨v, hv⟩ := hbegins
      rw [parseU64_of_begins hv, if_neg (hs v hv)]
    · exact parseU64_default (not_exists.1 hbegins) 0
  have hi64 : ∀ s : Bytes, (∀ v, Begins (trim s) v → ¬ InInt64 v) → parseI64 s 0 = 0 := by
    intro s hs
    by_cases hbegins : ∃ v, Begins (trim s) v
    · obtain ⟨v, hv⟩ := hbegins
      rw [parseI64_of_begins hv, if_neg (hs v hv)]
    · exact parseI64_default (not_exists.1 hbegins) 0
  rw [field_parse h]
  cases col with
  | tsExchangeNs => exact congrArg Nat.cast (hu64 _ hnone)
  | tsIngestNs => exact congrArg Nat.cast (hu64 _ hnone)
  | instrumentId => exact congrArg (fun n => ((toUint32 n : ℕ) : ℤ)) (hu64 _ hnone)
  | nativeToken => exact congrArg (fun n => ((toUint32 n : ℕ) : ℤ)) (hu64 _ hnone)
  | orderId => exact congrArg Nat.cast (hu64 _ hnone)
  | pricePaise => exact hi64 _ hnone
  | qty => exact hi64 _ hnone

end NumericColumn

open NumericColumn

/-- **Numbers of a line.**  A line is refused for having fewer than thirteen columns and for nothing
else.  Every numeric column of an accepted line that begins with a numeral in the range of its field
gives that number, every column without a readable number gives 0, and the event of another line
with another instrument in range leaves this line's book alone. -/
theorem parse_numerals (pkt : RawPacket) :
    (parse pkt = none ↔ (splitCsv pkt.payloadBytes).length < 13) ∧
    ∀ ev, parse pkt = some ev →
      (∀ (col : NumericColumn) (v : ℤ), Begins (col.text pkt) v → col.InRange v →
        col.field ev = v) ∧
      (∀ col : NumericColumn, (∀ v, Begins (col.text pkt) v → ¬ col.Converts v) →
        col.field ev = 0) ∧
      ∀ (pkt' : RawPacket) (ev' : BookEvent ℤ) (v v' : ℤ), parse pkt' = some ev' →
        Begins (instrumentId.text pkt) v → instrumentId.InRange v →
        Begins (instrumentId.text pkt') v' → instrumentId.InRange v' → v ≠ v' →
        ∀ m : BookManager, (m.onEvent ev').book ev.venue ev.instrumentId =
          m.book ev.venue ev.instrumentId := by
  refine ⟨parse_eq_none_iff, fun ev hev => ⟨fun col v => field_of_begins hev,
    fun col => field_unreadable hev, ?_⟩⟩
  intro pkt' ev' v v' hev' hv hrange hv' hrange' hne m
  have hid : (ev.instrumentId : ℤ) = v := field_of_begins hev hv hrange
  have hid' : (ev'.instrumentId : ℤ) = v' := field_of_begins hev' hv' hrange'
  rw [BookManager.book_onEvent, if_neg]
  rintro ⟨-, heq⟩
  exact hne (by rw [← hid, ← hid', heq])

/-- The lines of instruments 7 and 8. -/
theorem parse_numerals_sevenEight :
    field ⟨1, 2, .nse, 7, 8, .add, 9, .buy, -100, 5, "1,2,NSE,3,4,MD,7,8,ADD,9,BUY,-100,5".toList⟩
        pricePaise = -100 ∧
      (BookManager.onEvent {} ⟨1, 2, .nse, 8, 8, .add, 9, .buy, -100, 5,
          "1,2,NSE,3,4,MD,8,8,ADD,9,BUY,-100,5".toList⟩).book .nse 7 =
        BookManager.book {} .nse 7 := by
  have hseven := (parse_numerals ⟨2, .nse, 3, 4, [], [],
    "1,2,NSE,3,4,MD,7,8,ADD,9,BUY,-100,5".toList⟩).2
    ⟨1, 2, .nse, 7, 8, .add, 9, .buy, -100, 5, "1,2,NSE,3,4,MD,7,8,ADD,9,BUY,-100,5".toList⟩
    (by decide +kernel)
  refine ⟨hseven.1 pricePaise (-100) (begins_of_denoted (by decide +kernel))
    ⟨by decide, by decide⟩, ?_⟩
  exact hseven.2.2 ⟨2, .nse, 3, 4, [], [], "1,2,NSE,3,4,MD,8,8,ADD,9,BUY,-100,5".toList⟩ _ 7 8
    (by decide +kernel) (begins_of_denoted (by decide +kernel)) ⟨by decide, by decide⟩
    (begins_of_denoted (by decide +kernel)) ⟨by decide, by decide⟩ (by decide) {}

/-- A line without a time of arrival is accepted. -/
theorem not_faithful_soon : ¬ ∀ (pkt : RawPacket) (ev : BookEvent ℤ), parse pkt = some ev →
    ∀ col : NumericColumn, denoted (col.text pkt) = some (col.field ev) := by
  intro hall
  have hsoon := hall ⟨0, .nse, 3, 4, [], [], "1,soon,NSE,3,4,MD,7,8,ADD,9,BUY,-100,5".toList⟩
    ⟨1, 0, .nse, 7, 8, .add, 9, .buy, -100, 5, "1,soon,NSE,3,4,MD,7,8,ADD,9,BUY,-100,5".toList⟩
    (by decide +kernel) tsIngestNs
  exact absurd hsoon (by decide +kernel)

end Hft
