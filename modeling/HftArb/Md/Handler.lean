import HftArb.Lib.FiniteMap
import HftArb.Lib.Transition
import HftArb.Md.Replay

/-!
# `md/market_data_handler`: sequence numbers and feed health

The `SequenceTracker` classifies a packet by its venue and channel; `FeedHealth` is kept by venue
and instrument.  Both hash maps are keyed by the venue in the upper and the channel or instrument
in the lower 32 bits of one integer (`feedKey`).
-/

namespace Hft

open Std (ExtTreeMap)
open Transition

/-- `enum class SequenceStatus`. -/
inductive SequenceStatus
  | ok
  | gap
  | duplicate
  | reset
  deriving DecidableEq, Repr

/-- The key of both maps: `static_cast<uint64_t>(venue) << 32 | id`. -/
def feedKey (venue : Venue) (id : ℕ) : ℕ := venue.toInt <<< 32 ||| id

/-- `class SequenceTracker`. -/
structure SequenceTracker where
  lastSeq : ExtTreeMap ℕ ℕ := ∅

namespace SequenceTracker

/-- The last sequence number accepted on a channel, 0 if there is none. -/
def last (t : SequenceTracker) (venue : Venue) (channel : ℕ) : ℕ :=
  (t.lastSeq[feedKey venue channel]?).getD 0

/-- `last_seq_[key] = seq`. -/
def setLast (t : SequenceTracker) (venue : Venue) (channel seq : ℕ) : SequenceTracker :=
  ⟨t.lastSeq.insert (feedKey venue channel) seq⟩

/-- `on_packet`. -/
def onPacket (t : SequenceTracker) (venue : Venue) (channel seq : ℕ) :
    SequenceStatus × SequenceTracker :=
  let last := t.last venue channel
  if seq = 0 then (.reset, t.setLast venue channel last)
  else if last = 0 ∨ seq = (last + 1) % 2 ^ 64 then (.ok, t.setLast venue channel seq)
  else if seq ≤ last then (.duplicate, t.setLast venue channel last)
  else (.gap, t.setLast venue channel seq)

end SequenceTracker

/-- `struct FeedState`. -/
structure FeedState where
  lastEventNs : ℕ := 0
  healthy : Bool := true
  reason : String := ""

/-- `class FeedHealth`. -/
structure FeedHealth where
  states : ExtTreeMap ℕ FeedState := ∅

namespace FeedHealth

/-- The state of a feed, if it has one. -/
def state (h : FeedHealth) (venue : Venue) (instrumentId : ℕ) : Option FeedState :=
  h.states[feedKey venue instrumentId]?

/-- `states_[key(venue, instrument_id)] = s`. -/
def setState (h : FeedHealth) (venue : Venue) (instrumentId : ℕ) (s : FeedState) : FeedHealth :=
  ⟨h.states.insert (feedKey venue instrumentId) s⟩

/-- `on_event`. -/
def onEvent (h : FeedHealth) (venue : Venue) (instrumentId tsIngestNs : ℕ) : FeedHealth :=
  let s := (h.state venue instrumentId).getD {}
  h.setState venue instrumentId
    { s with
      lastEventNs := tsIngestNs
      healthy := if s.reason = "" then true else s.healthy }

/-- `mark_unhealthy`. -/
def markUnhealthy (h : FeedHealth) (venue : Venue) (instrumentId : ℕ) (reason : String) :
    FeedHealth :=
  let s := (h.state venue instrumentId).getD {}
  h.setState venue instrumentId { s with healthy := false, reason := reason }

/-- `is_healthy`. -/
def isHealthy (h : FeedHealth) (venue : Venue) (instrumentId : ℕ) : Bool :=
  match h.state venue instrumentId with
  | none => false
  | some s => s.healthy

/-- `book_age_us`. -/
def bookAgeUs (h : FeedHealth) (venue : Venue) (instrumentId nowNs : ℕ) : ℕ :=
  match h.state venue instrumentId with
  | none => uint32Max
  | some s =>
      if s.lastEventNs = 0 then uint32Max
      else if nowNs < s.lastEventNs then 0
      else toUint32 ((nowNs - s.lastEventNs) / 1000)

end FeedHealth

/-- `struct MdResult`. -/
structure MdResult where
  event : Option (BookEvent ℤ) := none
  sequenceStatus : SequenceStatus := .ok
  warning : String := ""

/-- `class MarketDataHandler`. -/
structure MarketDataHandler where
  reader : ReplayReader
  seq : SequenceTracker := {}
  health : FeedHealth := {}

namespace MarketDataHandler

/-- The constructor `MarketDataHandler(replay_path)`, given the lines of the file. -/
def ofLines (lines : List Bytes) : MarketDataHandler where
  reader := { lines := lines }

/-- `next` once it has a packet. -/
def onPacket (h : MarketDataHandler) (pkt : RawPacket) : MdResult × MarketDataHandler :=
  let (status, seq) := h.seq.onPacket pkt.venue pkt.channelId pkt.sequenceNo
  let h := { h with seq := seq }
  if status = .duplicate then
    ({ sequenceStatus := status, warning := "duplicate packet ignored" }, h)
  else match parse pkt with
    | none => ({ sequenceStatus := status, warning := "parse failure" }, h)
    | some ev =>
        if status = .gap then
          ({ event := some ev, sequenceStatus := status, warning := "sequence gap" },
            { h with health := h.health.markUnhealthy ev.venue ev.instrumentId "SEQUENCE_GAP" })
        else
          ({ event := some ev, sequenceStatus := status },
            { h with health := h.health.onEvent ev.venue ev.instrumentId ev.tsIngestNs })

/-- `next`. -/
def next (h : MarketDataHandler) : Option MdResult × MarketDataHandler :=
  match h.reader.nextPacket with
  | (none, reader) => (none, { h with reader := reader })
  | (some pkt, reader) =>
      let (result, h) := { h with reader := reader }.onPacket pkt
      (some result, h)

/-- The handler after a stream of packets. -/
def processed (h : MarketDataHandler) (packets : List RawPacket) : MarketDataHandler :=
  packets.foldl (fun h pkt => (h.onPacket pkt).2) h

/-- The verdict of the tracker on a packet, and the tracker afterwards. -/
def track (h : MarketDataHandler) (pkt : RawPacket) : SequenceStatus × SequenceTracker :=
  h.seq.onPacket pkt.venue pkt.channelId pkt.sequenceNo

/-- What becomes of a packet: the branches of `next`. -/
inductive Handled (h : MarketDataHandler) (pkt : RawPacket) : MdResult × MarketDataHandler → Prop
  | duplicate (hdup : (h.track pkt).1 = .duplicate) :
      Handled h pkt ({ sequenceStatus := (h.track pkt).1, warning := "duplicate packet ignored" },
        { h with seq := (h.track pkt).2 })
  | unparsed (hdup : (h.track pkt).1 ≠ .duplicate) (hparse : parse pkt = none) :
      Handled h pkt ({ sequenceStatus := (h.track pkt).1, warning := "parse failure" },
        { h with seq := (h.track pkt).2 })
  | gap {ev : BookEvent ℤ} (hgap : (h.track pkt).1 = .gap) (hparse : parse pkt = some ev) :
      Handled h pkt
        ({ event := some ev, sequenceStatus := (h.track pkt).1, warning := "sequence gap" },
          { h with
            seq := (h.track pkt).2
            health := h.health.markUnhealthy ev.venue ev.instrumentId "SEQUENCE_GAP" })
  | accepted {ev : BookEvent ℤ} (hdup : (h.track pkt).1 ≠ .duplicate)
      (hgap : (h.track pkt).1 ≠ .gap) (hparse : parse pkt = some ev) :
      Handled h pkt ({ event := some ev, sequenceStatus := (h.track pkt).1 },
        { h with
          seq := (h.track pkt).2
          health := h.health.onEvent ev.venue ev.instrumentId ev.tsIngestNs })

theorem onPacket_handled (h : MarketDataHandler) (pkt : RawPacket) :
    Handled h pkt (h.onPacket pkt) := by
  unfold onPacket
  change Handled h pkt (if (h.track pkt).1 = .duplicate then _ else _)
  by_cases hdup : (h.track pkt).1 = .duplicate
  · rw [if_pos hdup]
    exact .duplicate hdup
  · rw [if_neg hdup]
    cases hparse : parse pkt with
    | none => exact .unparsed hdup hparse
    | some ev =>
      change Handled h pkt (if (h.track pkt).1 = .gap then _ else _)
      by_cases hgap : (h.track pkt).1 = .gap
      · rw [if_pos hgap]
        exact .gap hgap hparse
      · rw [if_neg hgap]
        exact .accepted hdup hgap hparse

/-- The tracker goes on whether the packet parses or not. -/
theorem seq_onPacket (h : MarketDataHandler) (pkt : RawPacket) : (h.onPacket pkt).2.seq =
    (h.seq.onPacket pkt.venue pkt.channelId pkt.sequenceNo).2 := by
  have hhandled := onPacket_handled h pkt
  generalize h.onPacket pkt = res at hhandled ⊢
  cases hhandled <;> rfl

theorem Handled.reader {h : MarketDataHandler} {pkt : RawPacket} {res : MdResult × MarketDataHandler}
    (hres : Handled h pkt res) : res.2.reader = h.reader := by
  cases hres <;> rfl

theorem reader_onPacket (h : MarketDataHandler) (pkt : RawPacket) :
    (h.onPacket pkt).2.reader = h.reader := (onPacket_handled h pkt).reader

/-- `next` processes the first packet still to come. -/
theorem next_some {h h' : MarketDataHandler} {item : MdResult} (hn : h.next = (some item, h')) :
    ∃ pkt reader, h.reader.nextPacket = (some pkt, reader) ∧
      (item, h') = { h with reader := reader }.onPacket pkt := by
  unfold next at hn
  split at hn
  · cases hn
  · next pkt reader hread =>
    cases hn
    exact ⟨pkt, reader, hread, rfl⟩

/-- At the end of the file nothing is learnt. -/
theorem next_none {h h' : MarketDataHandler} (hn : h.next = (none, h')) :
    h'.seq = h.seq ∧ h'.health = h.health := by
  unfold next at hn
  split at hn
  · cases hn
    exact ⟨rfl, rfl⟩
  · cases hn

/-- The end of the file stays the end. -/
theorem next_ended {h h' : MarketDataHandler} (hn : h.next = (none, h')) :
    h'.next = (none, h') := by
  unfold next at hn
  split at hn
  · next reader hread =>
    cases hn
    have hlines : reader.lines = [] := lines_none hread
    obtain ⟨lines, headerSkipped⟩ := reader
    cases hlines
    rfl
  · cases hn

/-- `next` reads at least one line. -/
theorem lines_next {h h' : MarketDataHandler} {item : MdResult} (hn : h.next = (some item, h')) :
    h'.reader.lines.length < h.reader.lines.length := by
  obtain ⟨pkt, reader, hread, heq⟩ := next_some hn
  have hreader := reader_onPacket { h with reader := reader } pkt
  rw [← heq] at hreader
  rw [show h'.reader = reader from hreader]
  exact (nextPacketLoop_some hread).2

/-! ### Reading a file to its end -/

/-- The loop `while (auto item = md.next())`, as far as the handler goes. -/
def readBody (h : MarketDataHandler) : ForInStep MarketDataHandler :=
  match h.next with
  | (none, h) => .done h
  | (some _, h) => .yield h

/-- Two handlers know the same of every feed; their readers may differ. -/
def SameFeeds (h h' : MarketDataHandler) : Prop := h.seq = h'.seq ∧ h.health = h'.health

theorem SameFeeds.onPacket {h h' : MarketDataHandler} (hsame : SameFeeds h h') (pkt : RawPacket) :
    SameFeeds (h.onPacket pkt).2 (h'.onPacket pkt).2 := by
  obtain ⟨hseq, hhealth⟩ := hsame
  unfold MarketDataHandler.onPacket SameFeeds
  rw [hseq, hhealth]
  cases parse pkt with
  | none =>
    dsimp only
    split_ifs <;> exact ⟨rfl, rfl⟩
  | some ev =>
    dsimp only
    split_ifs <;> exact ⟨rfl, rfl⟩

theorem SameFeeds.processed {h h' : MarketDataHandler} (hsame : SameFeeds h h')
    (packets : List RawPacket) : SameFeeds (h.processed packets) (h'.processed packets) := by
  induction packets generalizing h h' with
  | nil => exact hsame
  | cons pkt packets ih => exact ih (hsame.onPacket pkt)

/-- A handler that has read its file to the end has processed the packets of the file in order. -/
theorem processed_of_ends {h t : MarketDataHandler} (hends : Ends readBody h t) :
    SameFeeds t (h.processed h.reader.packets) := by
  induction hends with
  | @done h t hbody =>
    unfold readBody next at hbody
    split at hbody
    · next heq =>
      split at heq
      · next reader hread =>
        cases heq
        cases hbody
        rw [ReplayReader.packets, nextPacketLoop_none hread]
        exact ⟨rfl, rfl⟩
      · cases heq
    · cases hbody
  | @step h h' t hbody hrest ih =>
    unfold readBody at hbody
    split at hbody
    · cases hbody
    · next item heq =>
      cases hbody
      obtain ⟨pkt, reader, hpacket, hpkt⟩ := next_some heq
      have hh' : h' = ({ h with reader := reader }.onPacket pkt).2 := congrArg Prod.snd hpkt
      have hreader : h'.reader = reader := by
        rw [hh']
        exact reader_onPacket _ pkt
      have hread : SameFeeds { h with reader := reader } h := ⟨rfl, rfl⟩
      have hstep : SameFeeds h' (h.onPacket pkt).2 := by
        rw [hh']
        exact hread.onPacket pkt
      rw [ReplayReader.packets, (nextPacketLoop_some hpacket).1, ← hreader]
      obtain ⟨hseq, hhealth⟩ := hstep.processed h'.reader.packets
      exact ⟨ih.1.trans hseq, ih.2.trans hhealth⟩

end MarketDataHandler

/-! ### Keys -/

theorem feedKey_eq {id : ℕ} (h : id < 2 ^ 32) (venue : Venue) :
    feedKey venue id = venue.toInt * 2 ^ 32 + id := by
  unfold feedKey
  rw [← Nat.shiftLeft_add_eq_or_of_lt h, Nat.shiftLeft_eq]

/-- 32-bit identifiers do not reach into the venue's bits. -/
theorem feedKey_inj {v v' : Venue} {id id' : ℕ} (h : id < 2 ^ 32) (h' : id' < 2 ^ 32) :
    feedKey v id = feedKey v' id' ↔ v = v' ∧ id = id' := by
  rw [feedKey_eq h, feedKey_eq h']
  constructor
  · intro heq
    cases v <;> cases v' <;> simp [Venue.toInt] at * <;> omega
  · rintro ⟨rfl, rfl⟩
    rfl

theorem toUint32_lt (n : ℕ) : toUint32 n < 2 ^ 32 := Nat.mod_lt _ (by norm_num)

end Hft
