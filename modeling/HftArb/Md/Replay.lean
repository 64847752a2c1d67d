import HftArb.Md.Packet

/-!
# `md/replay_reader` and `md/csv_parser`: from lines to book events

A `ReplayReader` holds the lines it has not read yet.  One line is both the packet's header and its
payload: `nextPacket` reads the packet's own columns from it and `parse` the event's.
-/

namespace Hft

/-- `class ReplayReader`, with the unread lines of the file. -/
structure ReplayReader where
  lines : List Bytes
  headerSkipped : Bool := false

/-- The packet of a line with at least six columns. -/
def packetOf (line : Bytes) : Option RawPacket :=
  let cols := splitCsv line
  if cols.length < 6 then none
  else some
    { tsIngestNs := parseU64 (cols.getD 1 []) 0
      venue := venueFromString (cols.getD 2 [])
      channelId := toUint32 (parseU64 (cols.getD 3 []) 0)
      sequenceNo := parseU64 (cols.getD 4 []) 0
      msgType := cols.getD 5 []
      srcIp := []
      payloadBytes := line }

/-- `next_packet`, over the unread lines and `header_skipped_`. -/
def nextPacketLoop : List Bytes → Bool → Option RawPacket × ReplayReader
  | [], headerSkipped => (none, ⟨[], headerSkipped⟩)
  | line :: lines, headerSkipped =>
      let line := trim line
      if line = [] then nextPacketLoop lines headerSkipped
      else if headerSkipped = false ∧ "ts_exchange_ns".toList <:+: line then
        nextPacketLoop lines true
      else match packetOf line with
        | none => nextPacketLoop lines true
        | some pkt => (some pkt, ⟨lines, true⟩)

/-- `next_packet`. -/
def ReplayReader.nextPacket (r : ReplayReader) : Option RawPacket × ReplayReader :=
  nextPacketLoop r.lines r.headerSkipped

/-- `CsvParser::parse`. -/
def parse (pkt : RawPacket) : Option (BookEvent ℤ) :=
  let c := splitCsv pkt.payloadBytes
  if c.length < 13 then none
  else some
    { tsExchangeNs := parseU64 (c.getD 0 []) 0
      tsIngestNs := parseU64 (c.getD 1 []) 0
      venue := venueFromString (c.getD 2 [])
      instrumentId := toUint32 (parseU64 (c.getD 6 []) 0)
      nativeToken := toUint32 (parseU64 (c.getD 7 []) 0)
      eventType := eventTypeFromString (c.getD 8 [])
      orderId := parseU64 (c.getD 9 []) 0
      side := sideFromString (c.getD 10 [])
      pricePaise := parseI64 (c.getD 11 []) 0
      qty := parseI64 (c.getD 12 []) 0
      nativePayload := pkt.payloadBytes }

/-- A packet parses exactly when its text has all columns of an event. -/
theorem parse_eq_none_iff {pkt : RawPacket} :
    parse pkt = none ↔ (splitCsv pkt.payloadBytes).length < 13 := by
  unfold parse
  dsimp only
  split_ifs with h
  · exact ⟨fun _ => h, fun _ => rfl⟩
  · simp [h]

/-! ### What the reader returns -/

/-- All packets of a file, in order. -/
def packetsOf : List Bytes → Bool → List RawPacket
  | [], _ => []
  | line :: lines, headerSkipped =>
      let line := trim line
      if line = [] then packetsOf lines headerSkipped
      else if headerSkipped = false ∧ "ts_exchange_ns".toList <:+: line then packetsOf lines true
      else match packetOf line with
        | none => packetsOf lines true
        | some pkt => pkt :: packetsOf lines true

/-- The packets a reader still has to return. -/
def ReplayReader.packets (r : ReplayReader) : List RawPacket := packetsOf r.lines r.headerSkipped

/-- `next_packet` returns the first of the packets still to come. -/
theorem nextPacketLoop_some {lines : List Bytes} {headerSkipped : Bool} {pkt : RawPacket}
    {r : ReplayReader} (h : nextPacketLoop lines headerSkipped = (some pkt, r)) :
    packetsOf lines headerSkipped = pkt :: r.packets ∧ r.lines.length < lines.length := by
  fun_induction nextPacketLoop lines headerSkipped with
  | case1 => cases h
  | case2 headerSkipped line lines trimmed hempty ih =>
    obtain ⟨hp, hlt⟩ := ih h
    exact ⟨by rw [packetsOf, if_pos hempty, hp], hlt.trans (Nat.lt_succ_self _)⟩
  | case3 headerSkipped line lines trimmed hempty hheader ih =>
    obtain ⟨hp, hlt⟩ := ih h
    exact ⟨by rw [packetsOf, if_neg hempty, if_pos hheader, hp], hlt.trans (Nat.lt_succ_self _)⟩
  | case4 headerSkipped line lines trimmed hempty hheader hnone ih =>
    obtain ⟨hp, hlt⟩ := ih h
    refine ⟨?_, hlt.trans (Nat.lt_succ_self _)⟩
    rw [packetsOf, if_neg hempty, if_neg hheader, hnone, hp]
  | case5 headerSkipped line lines trimmed hempty hheader pkt' hsome =>
    cases h
    refine ⟨?_, Nat.lt_succ_self _⟩
    rw [packetsOf, if_neg hempty, if_neg hheader, hsome]
    rfl

theorem nextPacketLoop_none {lines : List Bytes} {headerSkipped : Bool} {r : ReplayReader}
    (h : nextPacketLoop lines headerSkipped = (none, r)) : packetsOf lines headerSkipped = [] := by
  fun_induction nextPacketLoop lines headerSkipped with
  | case1 => rfl
  | case2 headerSkipped line lines trimmed hempty ih => rw [packetsOf, if_pos hempty, ih h]
  | case3 headerSkipped line lines trimmed hempty hheader ih =>
    rw [packetsOf, if_neg hempty, if_pos hheader, ih h]
  | case4 headerSkipped line lines trimmed hempty hheader hnone ih =>
    rw [packetsOf, if_neg hempty, if_neg hheader, hnone, ih h]
  | case5 => cases h

/-- At the end nothing is left to read. -/
theorem lines_none {lines : List Bytes} {headerSkipped : Bool} {r : ReplayReader}
    (h : nextPacketLoop lines headerSkipped = (none, r)) : r.lines = [] := by
  fun_induction nextPacketLoop lines headerSkipped with
  | case1 =>
    cases h
    rfl
  | case2 headerSkipped line lines trimmed hempty ih => exact ih h
  | case3 headerSkipped line lines trimmed hempty hheader ih => exact ih h
  | case4 headerSkipped line lines trimmed hempty hheader hnone ih => exact ih h
  | case5 => cases h

end Hft
