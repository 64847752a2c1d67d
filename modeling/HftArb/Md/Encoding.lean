import HftArb.Common.Numerals
import HftArb.Lib.Transition
import HftArb.Md.Replay

/-!
# Replay files round trip

`replayText` writes a replay file: a header line and one line of thirteen columns for each event.
Its lines are read twice, by `nextPacket` for the packet and by `parse` for the event.  A column
without commas and quotes comes back from `splitCsv` as it is (`splitCsv_intercalate`), numerals and
names come back from their parsers (`parseU64_toString`, ...), and so the reading loop returns every
record of the file, in order, and ends (`decode_encode`).
-/

namespace Hft

open Transition

/-! ### Numerals -/

theorem toString_ne_nil (n : ℕ) : (toString n).toList ≠ [] := by
  rw [Nat.toString_eq_repr, Nat.toList_repr]
  exact Nat.toDigits_ne_nil

theorem isDigit_of_mem {n : ℕ} {c : Char} (hc : c ∈ (toString n).toList) : c.isDigit := by
  rw [Nat.toString_eq_repr, Nat.toList_repr] at hc
  exact Nat.isDigit_of_mem_toDigits (by norm_num) (by norm_num) hc

theorem solid_nat (n : ℕ) : Solid (toString n).toList :=
  fun _ hc => isspace_of_isDigit (isDigit_of_mem hc)

theorem ofDigitChars_toString (n : ℕ) : Nat.ofDigitChars 10 (toString n).toList 0 = n := by
  rw [Nat.toString_eq_repr, Nat.toList_repr, Nat.ofDigitChars_ten_toDigits]

theorem digitsValue_nat (n : ℕ) : digitsValue (toString n).toList = some n :=
  digitsValue_eq_some.2 ⟨toString_ne_nil n, List.all_eq_true.2 fun _ hc => isDigit_of_mem hc,
    ofDigitChars_toString n⟩

/-- What is written denotes the number. -/
theorem denoted_nat (n : ℕ) : denoted (toString n).toList = some (n : ℤ) := by
  obtain ⟨c, s, hs⟩ := List.exists_cons_of_ne_nil (toString_ne_nil n)
  -- the first character is a digit, so no sign is read
  have hc : c.isDigit = true := isDigit_of_mem (n := n) (by rw [hs]; exact List.mem_cons_self)
  rw [hs, denoted_of_digit hc, ← hs, digitsValue_nat, Option.map_some]

/-- Every 64-bit number is read back. -/
theorem parseU64_toString {n : ℕ} (h : n < 2 ^ 64) (d : ℕ) :
    parseU64 (trim (toString n).toList) d = n := by
  have hbegins : Begins (trim (trim (toString n).toList)) n := by
    rw [trim_of_solid (solid_nat n), trim_of_solid (solid_nat n)]
    exact begins_of_denoted (denoted_nat n)
  rw [parseU64_of_begins hbegins, Nat.abs_cast, if_pos (by omega)]
  omega

/-- Every 32-bit number survives the narrowing. -/
theorem toUint32_parseU64 {n : ℕ} (h : n < 2 ^ 32) :
    toUint32 (parseU64 (trim (toString n).toList) 0) = n := by
  rw [parseU64_toString (by omega), toUint32, Nat.mod_eq_of_lt h]

theorem toString_neg (n : ℕ) :
    (toString (Int.negSucc n)).toList = '-' :: (toString (n + 1)).toList := by
  show ("-" ++ (n + 1).repr).toList = _
  rw [String.toList_append]
  rfl

theorem solid_int (z : ℤ) : Solid (toString z).toList := by
  cases z with
  | ofNat n => exact solid_nat n
  | negSucc n =>
    rw [toString_neg]
    exact List.forall_mem_cons.2 ⟨by decide, solid_nat (n + 1)⟩

theorem denoted_int (z : ℤ) : denoted (toString z).toList = some z := by
  cases z with
  | ofNat n => exact denoted_nat n
  | negSucc n =>
    rw [toString_neg, denoted, digitsValue_nat, Option.map_some]
    rfl

/-- Every signed 64-bit number is read back. -/
theorem parseI64_toString {z : ℤ} (hlo : -2 ^ 63 ≤ z) (hhi : z < 2 ^ 63) (d : ℤ) :
    parseI64 (trim (toString z).toList) d = z := by
  have hbegins : Begins (trim (trim (toString z).toList)) z := by
    rw [trim_of_solid (solid_int z), trim_of_solid (solid_int z)]
    exact begins_of_denoted (denoted_int z)
  rw [parseI64_of_begins hbegins, if_pos ⟨hlo, hhi⟩]

/-! ### Names -/

theorem venueFromString_text (v : Venue) : venueFromString (trim v.text.toList) = v := by
  cases v <;> decide

theorem sideFromString_text (s : Side) : sideFromString (trim s.text.toList) = s := by
  cases s <;> decide

theorem eventTypeFromString_text (t : EventType) :
    eventTypeFromString (trim t.text.toList) = t := by
  cases t <;> decide

/-! ### Words -/

/-- The columns but for the message type: no white space, no comma, no quote. -/
def Word (s : Bytes) : Prop := Solid s ∧ Plain s

theorem word_nat (n : ℕ) : Word (toString n).toList := by
  refine ⟨solid_nat n, fun c hc => ⟨?_, ?_⟩⟩ <;> rintro rfl <;>
    exact absurd (isDigit_of_mem hc) (by decide)

theorem word_int (z : ℤ) : Word (toString z).toList := by
  cases z with
  | ofNat n => exact word_nat n
  | negSucc n =>
    refine ⟨solid_int _, ?_⟩
    rw [toString_neg]
    exact List.forall_mem_cons.2 ⟨by decide, (word_nat (n + 1)).2⟩

theorem word_of_all {s : Bytes} (h : (s.all fun c => !isspace c && c != ',' && c != '"') = true) :
    Word s := by
  have hall : ∀ c ∈ s, (isspace c = false ∧ c ≠ ',') ∧ c ≠ '"' := by simpa using h
  exact ⟨fun c hc => (hall c hc).1.1, fun c hc => ⟨(hall c hc).1.2, (hall c hc).2⟩⟩

theorem word_venue (v : Venue) : Word v.text.toList :=
  word_of_all (by cases v <;> decide)

theorem word_side (s : Side) : Word s.text.toList :=
  word_of_all (by cases s <;> decide)

theorem word_eventType (t : EventType) : Word t.text.toList :=
  word_of_all (by cases t <;> decide)

/-! ### Records -/

/-- What a line of a replay file holds: an event, and the channel, sequence number and message type
of its packet. -/
structure ReplayRecord where
  event : BookEvent ℤ
  channelId : ℕ
  sequenceNo : ℕ
  msgType : Bytes
  tsExchange_lt : event.tsExchangeNs < 2 ^ 64
  tsIngest_lt : event.tsIngestNs < 2 ^ 64
  channel_lt : channelId < 2 ^ 32
  sequence_lt : sequenceNo < 2 ^ 64
  instrument_lt : event.instrumentId < 2 ^ 32
  token_lt : event.nativeToken < 2 ^ 32
  orderId_lt : event.orderId < 2 ^ 64
  price_mem : -2 ^ 63 ≤ event.pricePaise ∧ event.pricePaise < 2 ^ 63
  qty_mem : -2 ^ 63 ≤ event.qty ∧ event.qty < 2 ^ 63
  msgType_plain : ∀ c ∈ msgType, c ≠ ',' ∧ c ≠ '"' ∧ c ≠ '\n' ∧ c ≠ ' '

/-- The first line of a replay file. -/
structure HeaderLine where
  line : Bytes
  one_line : '\n' ∉ line
  has_word : "ts_exchange_ns".toList <:+: line

/-- The header of the replay files. -/
def replayHeader : HeaderLine where
  line := [','].intercalate (["ts_exchange_ns", "ts_ingest_ns", "venue", "channel_id", "sequence_no",
    "msg_type", "instrument_id", "native_token", "event_type", "order_id", "side", "price_paise",
    "qty"].map String.toList)
  one_line := by decide +kernel
  has_word := List.IsPrefix.isInfix ⟨_, rfl⟩

namespace ReplayRecord

/-- The columns between the first and the last. -/
def middle (r : ReplayRecord) : List Bytes :=
  [(toString r.event.tsIngestNs).toList, r.event.venue.text.toList, (toString r.channelId).toList,
    (toString r.sequenceNo).toList, r.msgType, (toString r.event.instrumentId).toList,
    (toString r.event.nativeToken).toList, r.event.eventType.text.toList,
    (toString r.event.orderId).toList, r.event.side.text.toList,
    (toString r.event.pricePaise).toList]

/-- The thirteen columns. -/
def columns (r : ReplayRecord) : List Bytes :=
  (toString r.event.tsExchangeNs).toList :: (r.middle ++ [(toString r.event.qty).toList])

/-- The line of a record. -/
def line (r : ReplayRecord) : Bytes := [','].intercalate r.columns

/-- The packet of a record. -/
def packet (r : ReplayRecord) : RawPacket where
  tsIngestNs := r.event.tsIngestNs
  venue := r.event.venue
  channelId := r.channelId
  sequenceNo := r.sequenceNo
  msgType := trim r.msgType
  srcIp := []
  payloadBytes := r.line

/-- The event of a record as the parser returns it, with the raw line. -/
def decoded (r : ReplayRecord) : BookEvent ℤ := { r.event with nativePayload := r.line }

variable (r : ReplayRecord)

theorem columns_cases {c : Bytes} (hc : c ∈ r.columns) : Word c ∨ c = r.msgType := by
  simp only [columns, middle, List.cons_append, List.nil_append, List.mem_cons, List.not_mem_nil,
    or_false] at hc
  rcases hc with rfl | rfl | rfl | rfl | rfl | hc | rfl | rfl | rfl | rfl | rfl | rfl | rfl
  · exact Or.inl (word_nat _)
  · exact Or.inl (word_nat _)
  · exact Or.inl (word_venue _)
  · exact Or.inl (word_nat _)
  · exact Or.inl (word_nat _)
  · exact Or.inr hc
  · exact Or.inl (word_nat _)
  · exact Or.inl (word_nat _)
  · exact Or.inl (word_eventType _)
  · exact Or.inl (word_nat _)
  · exact Or.inl (word_side _)
  · exact Or.inl (word_int _)
  · exact Or.inl (word_int _)

theorem exists_line : ∃ mid, r.line =
    (toString r.event.tsExchangeNs).toList ++ mid ++ (toString r.event.qty).toList :=
  intercalate_between _ _ r.middle

theorem toString_qty_ne_nil : (toString r.event.qty).toList ≠ [] := by
  cases r.event.qty with
  | ofNat n => exact toString_ne_nil n
  | negSucc n =>
    rw [toString_neg]
    exact List.cons_ne_nil _ _

theorem line_ne_nil : r.line ≠ [] := by
  obtain ⟨mid, hline⟩ := r.exists_line
  simp [hline]

theorem trim_line : trim r.line = r.line := by
  obtain ⟨mid, hline⟩ := r.exists_line
  rw [hline]
  exact trim_between (toString_ne_nil _) r.toString_qty_ne_nil (solid_nat _) (solid_int _) mid

theorem splitCsv_line : splitCsv r.line = r.columns.map trim := by
  refine splitCsv_intercalate fun c hc => ?_
  rcases r.columns_cases hc with hword | rfl
  · exact hword.2
  · exact fun c hc => ⟨(r.msgType_plain c hc).1, (r.msgType_plain c hc).2.1⟩

theorem not_mem_line : '\n' ∉ r.line := by
  intro h
  rcases mem_intercalate h with h | ⟨c, hc, hmem⟩
  · cases h
  · rcases r.columns_cases hc with hword | rfl
    · exact absurd (hword.1 _ hmem) (by decide)
    · exact (r.msgType_plain _ hmem).2.2.1 rfl

theorem length_columns : (r.columns.map trim).length = 13 := rfl

/-- The packet's own columns come back. -/
theorem packetOf_line : packetOf r.line = some r.packet := by
  unfold packetOf
  rw [splitCsv_line]
  dsimp only
  rw [length_columns, if_neg (by decide)]
  simp only [columns, middle, List.cons_append, List.nil_append, List.map_cons, List.map_nil,
    List.getD_cons_zero, List.getD_cons_succ, parseU64_toString r.tsIngest_lt,
    venueFromString_text, toUint32_parseU64 r.channel_lt, parseU64_toString r.sequence_lt]
  rfl

/-- And so do the event's. -/
theorem parse_packet : parse r.packet = some r.decoded := by
  unfold parse
  have hline : r.packet.payloadBytes = r.line := rfl
  rw [hline, splitCsv_line]
  dsimp only
  rw [length_columns, if_neg (by decide)]
  simp only [columns, middle, List.cons_append, List.nil_append, List.map_cons, List.map_nil,
    List.getD_cons_zero, List.getD_cons_succ, parseU64_toString r.tsExchange_lt,
    parseU64_toString r.tsIngest_lt, venueFromString_text, toUint32_parseU64 r.instrument_lt,
    toUint32_parseU64 r.token_lt, eventTypeFromString_text, parseU64_toString r.orderId_lt,
    sideFromString_text, parseI64_toString r.price_mem.1 r.price_mem.2,
    parseI64_toString r.qty_mem.1 r.qty_mem.2]
  rfl

/-- The first event of `sample_day.csv`. -/
def sampleDayFirst : ReplayRecord where
  event := ⟨1000000000, 1000000100, .nse, 1, 1594, .add, 101, .buy, 110050, 200, []⟩
  channelId := 1
  sequenceNo := 1
  msgType := "ADD".toList
  tsExchange_lt := by decide
  tsIngest_lt := by decide
  channel_lt := by decide
  sequence_lt := by decide
  instrument_lt := by decide
  token_lt := by decide
  orderId_lt := by decide
  price_mem := by decide
  qty_mem := by decide
  msgType_plain := by simp

end ReplayRecord

/-! ### Files -/

/-- The text of some lines. -/
def textOf (lines : List Bytes) : Bytes := lines.flatMap fun line => line ++ ['\n']

theorem linesLoop_append {line : Bytes} (h : '\n' ∉ line) (rest cur : Bytes) :
    linesLoop (line ++ '\n' :: rest) cur = (cur ++ line) :: linesLoop rest [] := by
  induction line generalizing cur with
  | nil => rw [List.nil_append, linesLoop, if_pos rfl, List.append_nil]
  | cons c line ih =>
    have hc : c ≠ '\n' := fun hc => h (hc ▸ List.mem_cons_self)
    have hline : '\n' ∉ line := fun hmem => h (List.mem_cons_of_mem c hmem)
    rw [List.cons_append, linesLoop, if_neg hc, ih hline, List.append_assoc, List.singleton_append]

/-- Lines written are read. -/
theorem linesOf_textOf {lines : List Bytes} (h : ∀ line ∈ lines, '\n' ∉ line) :
    linesOf (textOf lines) = lines := by
  unfold linesOf textOf
  induction lines with
  | nil => rfl
  | cons line lines ih =>
    rw [List.flatMap_cons, List.append_assoc, List.singleton_append,
      linesLoop_append (h line List.mem_cons_self), List.nil_append,
      ih fun line' hline' => h line' (List.mem_cons_of_mem line hline')]

/-- A replay file. -/
def replayText (header : HeaderLine) (records : List ReplayRecord) : Bytes :=
  textOf (header.line :: records.map ReplayRecord.line)

/-- A turn of `while (auto pkt = reader.next_packet())`, with what the parser returns for each
packet so far. -/
def decodeBody (s : ReplayReader × List (RawPacket × Option (BookEvent ℤ))) :
    ForInStep (ReplayReader × List (RawPacket × Option (BookEvent ℤ))) :=
  match s.1.nextPacket with
  | (none, reader) => .done (reader, s.2)
  | (some pkt, reader) => .yield (reader, s.2 ++ [(pkt, parse pkt)])

/-- The header is read over. -/
theorem nextPacket_header (header : HeaderLine) (lines : List Bytes) :
    ReplayReader.nextPacket ⟨header.line :: lines, false⟩ =
      ReplayReader.nextPacket ⟨lines, true⟩ := by
  have hword : "ts_exchange_ns".toList <:+: trim header.line :=
    infix_trim (by decide) (solid_of_all (by decide)) header.has_word
  have hne : trim header.line ≠ [] := by
    intro h
    rw [h] at hword
    exact absurd (List.infix_nil.1 hword) (by decide)
  show nextPacketLoop _ _ = nextPacketLoop _ _
  rw [nextPacketLoop, if_neg hne, if_pos ⟨rfl, hword⟩]

/-- The line of a record is read as its packet. -/
theorem nextPacket_record (r : ReplayRecord) (lines : List Bytes) :
    ReplayReader.nextPacket ⟨r.line :: lines, true⟩ = (some r.packet, ⟨lines, true⟩) := by
  show nextPacketLoop _ _ = _
  rw [nextPacketLoop, r.trim_line, if_neg r.line_ne_nil, if_neg (by simp), r.packetOf_line]

/-- Records are read one by one, to the end. -/
theorem ends_decodeBody (records : List ReplayRecord)
    (read : List (RawPacket × Option (BookEvent ℤ))) :
    Ends decodeBody (⟨records.map ReplayRecord.line, true⟩, read)
      (⟨[], true⟩, read ++ records.map fun r => (r.packet, some r.decoded)) := by
  induction records generalizing read with
  | nil =>
    rw [List.map_nil, List.map_nil, List.append_nil]
    exact .done rfl
  | cons r records ih =>
    have hturn : decodeBody (⟨(r :: records).map ReplayRecord.line, true⟩, read) =
        .yield (⟨records.map ReplayRecord.line, true⟩, read ++ [(r.packet, some r.decoded)]) := by
      rw [decodeBody, List.map_cons, nextPacket_record, ← r.parse_packet]
    have hrest := ih (read ++ [(r.packet, some r.decoded)])
    rw [List.append_assoc, List.singleton_append] at hrest
    exact .step hturn hrest

/-- **Decoding undoes encoding.**  Reading back a written file returns the packet and the event of
every record, in order, and then ends. -/
theorem decode_encode (header : HeaderLine) (records : List ReplayRecord) :
    Ends decodeBody (⟨linesOf (replayText header records), false⟩, [])
        (⟨[], true⟩, records.map fun r => (r.packet, some r.decoded)) ∧
      ReplayReader.nextPacket ⟨[], true⟩ = (none, ⟨[], true⟩) := by
  refine ⟨?_, rfl⟩
  have hlines : linesOf (replayText header records) =
      header.line :: records.map ReplayRecord.line := by
    refine linesOf_textOf fun line hline => ?_
    rcases List.mem_cons.1 hline with rfl | hline
    · exact header.one_line
    · obtain ⟨r, -, rfl⟩ := List.mem_map.1 hline
      exact r.not_mem_line
  -- the first turn reads over the header and goes on as if it had not been there
  have hturn : decodeBody (⟨header.line :: records.map ReplayRecord.line, false⟩, []) =
      decodeBody (⟨records.map ReplayRecord.line, true⟩, []) := by
    rw [decodeBody, nextPacket_header]
    rfl
  rw [hlines]
  exact (ends_decodeBody records []).of_eq hturn

/-- The first two lines of `sample_day.csv`. -/
theorem decode_encode_sampleDay :
    Ends decodeBody
      (⟨linesOf (textOf [replayHeader.line,
        "1000000000,1000000100,NSE,1,1,ADD,1,1594,ADD,101,BUY,110050,200".toList]), false⟩, [])
      (⟨[], true⟩, [(ReplayRecord.sampleDayFirst.packet,
        some ReplayRecord.sampleDayFirst.decoded)]) := by
  have hline : ReplayRecord.sampleDayFirst.line =
      "1000000000,1000000100,NSE,1,1,ADD,1,1594,ADD,101,BUY,110050,200".toList := by
    decide +kernel
  rw [← hline]
  exact (decode_encode replayHeader [ReplayRecord.sampleDayFirst]).1

end Hft
