import HftArb.Md.Handler

/-!
# Lost packets and feed health

A `PublishedFeed` numbers the packets of every channel `1, 2, …`; a `Delivery` is a sub-stream of it
that has the first packet of every channel.  The handler notices a loss at the next packet of the
same channel (`onPacket_status`), and marks the feed of *that* packet: `isHealthy_iff` says which
feeds end up healthy.

A feed whose packet was lost is therefore found unhealthy only if it is also the feed of a packet
that directly follows a loss (`taintsHurt_iff`); `taintsHurt_multiplexed` is a channel with two
instruments where it is not.  What has been delivered so far is a delivery too (`upTo`).
-/

namespace Hft

open Std (ExtTreeMap)

namespace RawPacket

/-- The packet was read from a line that has all columns of an event. -/
def WellFormed (p : RawPacket) : Prop :=
  ∃ line, packetOf line = some p ∧ 13 ≤ (splitCsv line).length

/-- The channel that numbers the packet. -/
def channel (p : RawPacket) : Venue × ℕ := (p.venue, p.channelId)

/-- The feed, by venue and instrument, that the packet updates. -/
def feed (p : RawPacket) : Option (Venue × ℕ) :=
  (parse p).map fun ev => (ev.venue, ev.instrumentId)

end RawPacket

/-- The sequence numbers that `packets` has on a channel. -/
def seqNos (packets : List RawPacket) (ch : Venue × ℕ) : List ℕ :=
  (packets.filter fun p => p.channel = ch).map RawPacket.sequenceNo

/-- A published stream: the packets of every channel are numbered from 1. -/
structure PublishedFeed where
  packets : List RawPacket
  wellFormed : ∀ p ∈ packets, p.WellFormed
  numbered : ∀ ch, ∃ n, seqNos packets ch = List.range' 1 n

/-- A sub-stream delivered in order, with packet 1 of each channel that it has packets of. -/
structure Delivery (F : PublishedFeed) where
  packets : List RawPacket
  sublist : packets.Sublist F.packets
  first : ∀ q ∈ packets, ∀ p ∈ F.packets, p.channel = q.channel → p.sequenceNo = 1 → p ∈ packets

namespace Delivery

variable {F : PublishedFeed} (D : Delivery F)

/-- The handler after the delivered packets. -/
def handler : MarketDataHandler := (MarketDataHandler.ofLines []).processed D.packets

/-- `handler` is what a handler comes to that reads a file of the delivered packets to its end. -/
theorem handler_of_file {lines : List Bytes} {t : MarketDataHandler}
    (hfile : (MarketDataHandler.ofLines lines).reader.packets = D.packets)
    (hends : Transition.Ends MarketDataHandler.readBody (.ofLines lines) t) :
    MarketDataHandler.SameFeeds t D.handler := by
  have hread := MarketDataHandler.processed_of_ends hends
  have hstart : MarketDataHandler.SameFeeds (.ofLines lines) (.ofLines []) := ⟨rfl, rfl⟩
  have hsame := hstart.processed D.packets
  rw [hfile] at hread
  exact ⟨hread.1.trans hsame.1, hread.2.trans hsame.2⟩

/-- A packet of the feed was lost and a later packet of its channel has been delivered. -/
def Hurt (venue : Venue) (instrumentId : ℕ) : Prop :=
  ∃ p ∈ F.packets, p ∉ D.packets ∧ p.feed = some (venue, instrumentId) ∧
    ∃ q ∈ D.packets, q.channel = p.channel ∧ p.sequenceNo < q.sequenceNo

/-- The packet right before `q` on its channel was lost. -/
def Reveals (q : RawPacket) : Prop :=
  ∃ p ∈ F.packets, p ∉ D.packets ∧ p.channel = q.channel ∧ p.sequenceNo + 1 = q.sequenceNo

/-- Every feed that a loss has hurt is unhealthy. -/
def TaintsHurt : Prop :=
  ∀ venue instrumentId, D.Hurt venue instrumentId →
    D.handler.health.isHealthy venue instrumentId = false

end Delivery

/-! ### Well-formed packets -/

theorem parseU64_lt (s : Bytes) : parseU64 s 0 < 2 ^ 64 := by
  unfold parseU64
  dsimp only
  split_ifs with hdefault hneg
  · norm_num
  · exact Nat.mod_lt _ (by norm_num)
  · omega

theorem RawPacket.WellFormed.channelId_lt {p : RawPacket} (h : p.WellFormed) :
    p.channelId < 2 ^ 32 := by
  obtain ⟨line, hp, -⟩ := h
  unfold packetOf at hp
  dsimp only at hp
  split_ifs at hp
  cases hp
  exact toUint32_lt _

theorem RawPacket.WellFormed.sequenceNo_lt {p : RawPacket} (h : p.WellFormed) :
    p.sequenceNo < 2 ^ 64 := by
  obtain ⟨line, hp, -⟩ := h
  unfold packetOf at hp
  dsimp only at hp
  split_ifs at hp
  cases hp
  exact parseU64_lt _

theorem RawPacket.WellFormed.parse_some {p : RawPacket} (h : p.WellFormed) :
    ∃ ev, parse p = some ev ∧ ev.instrumentId < 2 ^ 32 := by
  obtain ⟨line, hp, hcols⟩ := h
  unfold packetOf at hp
  dsimp only at hp
  split_ifs at hp
  cases hp
  refine ⟨_, if_neg (by dsimp only; omega), toUint32_lt _⟩

/-! ### Sequence numbers of a sub-stream -/

section SeqNos

variable {F : PublishedFeed} {ch : Venue × ℕ} {l l' : List RawPacket} {x : ℕ}

theorem mem_seqNos : x ∈ seqNos l ch ↔ ∃ p ∈ l, p.channel = ch ∧ p.sequenceNo = x := by
  simp [seqNos, and_assoc]

theorem seqNos_append : seqNos (l ++ l') ch = seqNos l ch ++ seqNos l' ch := by
  simp [seqNos]

theorem seqNos_cons_self (q : RawPacket) :
    seqNos (q :: l) q.channel = q.sequenceNo :: seqNos l q.channel := by
  simp [seqNos]

theorem seqNos_singleton_of_ne {q : RawPacket} (h : q.channel ≠ ch) : seqNos [q] ch = [] := by
  simp [seqNos, h]

theorem seqNos_pairwise (h : l.Sublist F.packets) (ch : Venue × ℕ) :
    (seqNos l ch).Pairwise (· < ·) := by
  obtain ⟨n, hn⟩ := F.numbered ch
  have hsub : (seqNos l ch).Sublist (List.range' 1 n) := by
    rw [← hn]
    exact (h.filter _).map _
  exact List.Pairwise.sublist hsub (List.pairwise_lt_range' 1)

theorem one_le_sequenceNo {p : RawPacket} (h : p ∈ F.packets) : 1 ≤ p.sequenceNo := by
  obtain ⟨n, hn⟩ := F.numbered p.channel
  have hmem : p.sequenceNo ∈ seqNos F.packets p.channel := mem_seqNos.2 ⟨p, h, rfl, rfl⟩
  rw [hn, List.mem_range'_1] at hmem
  exact hmem.1

/-- Numbers below a published one are published too. -/
theorem exists_packet {q : RawPacket} (h : q ∈ F.packets) (h1 : 1 ≤ x) (hx : x ≤ q.sequenceNo) :
    ∃ p ∈ F.packets, p.channel = q.channel ∧ p.sequenceNo = x := by
  obtain ⟨n, hn⟩ := F.numbered q.channel
  have hmem : q.sequenceNo ∈ seqNos F.packets q.channel := mem_seqNos.2 ⟨q, h, rfl, rfl⟩
  rw [hn, List.mem_range'_1] at hmem
  rw [← mem_seqNos, hn, List.mem_range'_1]
  omega

/-- A packet is determined by its channel and number. -/
theorem packet_unique {p p' : RawPacket} (h : p ∈ F.packets) (h' : p' ∈ F.packets)
    (hch : p.channel = p'.channel) (hseq : p.sequenceNo = p'.sequenceNo) : p = p' := by
  have hnodup : (seqNos F.packets p'.channel).Nodup :=
    (seqNos_pairwise (List.Sublist.refl _) _).imp fun h => h.ne
  exact List.inj_on_of_nodup_map hnodup (by simp [h, hch]) (by simp [h']) hseq

/-- The last number received on a channel, 0 if there is none. -/
def lastSeqNo (l : List RawPacket) (ch : Venue × ℕ) : ℕ := (seqNos l ch).getLast?.getD 0

theorem lastSeqNo_cases (l : List RawPacket) (ch : Venue × ℕ) :
    seqNos l ch = [] ∧ lastSeqNo l ch = 0 ∨ ∃ init, seqNos l ch = init ++ [lastSeqNo l ch] := by
  cases hlast : (seqNos l ch).getLast? with
  | none =>
    left
    exact ⟨List.getLast?_eq_none_iff.1 hlast, by simp [lastSeqNo, hlast]⟩
  | some x =>
    right
    obtain ⟨init, hinit⟩ := List.getLast?_eq_some_iff.1 hlast
    exact ⟨init, by rw [hinit, lastSeqNo, hlast]; rfl⟩

theorem lastSeqNo_append_self (q : RawPacket) :
    lastSeqNo (l ++ [q]) q.channel = q.sequenceNo := by
  rw [lastSeqNo, seqNos_append, seqNos_cons_self]
  simp [seqNos]

theorem lastSeqNo_append_of_ne {q : RawPacket} (h : q.channel ≠ ch) :
    lastSeqNo (l ++ [q]) ch = lastSeqNo l ch := by
  simp [lastSeqNo, seqNos_append, seqNos_singleton_of_ne h]

end SeqNos

/-- What has been delivered after `n` packets. -/
def Delivery.upTo {F : PublishedFeed} (D : Delivery F) (n : ℕ) : Delivery F where
  packets := D.packets.take n
  sublist := (List.take_sublist n _).trans D.sublist
  first q hq p hp hch hone := by
    have hmem := D.first q (List.mem_of_mem_take hq) p hp hch hone
    rw [← List.take_append_drop n D.packets] at hmem
    refine (List.mem_append.1 hmem).resolve_right fun hlate => ?_
    -- packets of a channel come in order, and `q` is not before number 1
    have hsorted := seqNos_pairwise D.sublist q.channel
    rw [← List.take_append_drop n D.packets, seqNos_append] at hsorted
    have hlt := (List.pairwise_append.1 hsorted).2.2 _ (mem_seqNos.2 ⟨q, hq, rfl, rfl⟩) _
      (mem_seqNos.2 ⟨p, hlate, hch, rfl⟩)
    have hpos := one_le_sequenceNo (D.sublist.subset (List.mem_of_mem_take hq))
    omega

/-! ### The tracker and the health map -/

section Handler

variable {v v' : Venue} {c c' i i' : ℕ}

theorem SequenceTracker.last_setLast (t : SequenceTracker) (hc : c < 2 ^ 32) (hc' : c' < 2 ^ 32)
    (seq : ℕ) :
    (t.setLast v c seq).last v' c' = if (v, c) = (v', c') then seq else t.last v' c' := by
  simp only [last, setLast, ExtTreeMap.getElem?_insert, compare_eq_iff_eq, feedKey_inj hc hc',
    Prod.mk.injEq]
  split_ifs <;> rfl

theorem FeedHealth.state_setState (h : FeedHealth) (hi : i < 2 ^ 32) (hi' : i' < 2 ^ 32)
    (s : FeedState) :
    (h.setState v i s).state v' i' = if (v, i) = (v', i') then some s else h.state v' i' := by
  simp only [state, setState, ExtTreeMap.getElem?_insert, compare_eq_iff_eq, feedKey_inj hi hi',
    Prod.mk.injEq]

end Handler

/-! ### What the handler has heard -/

namespace Delivery

variable {F : PublishedFeed} {D : Delivery F}

/-- The handler `h` after the delivered packets `l`. -/
structure Heard (D : Delivery F) (l : List RawPacket) (h : MarketDataHandler) : Prop where
  last : ∀ v c, c < 2 ^ 32 → h.seq.last v c = lastSeqNo l (v, c)
  unknown : ∀ v i, i < 2 ^ 32 →
    (h.health.state v i = none ↔ ∀ q ∈ l, q.feed ≠ some (v, i))
  healthy : ∀ v i s, i < 2 ^ 32 → h.health.state v i = some s →
    (s.healthy = true ↔ s.reason = "")
  reason : ∀ v i s, i < 2 ^ 32 → h.health.state v i = some s →
    (s.reason = "" ↔ ∀ q ∈ l, q.feed = some (v, i) → ¬ D.Reveals q)

theorem heard_nil (D : Delivery F) : D.Heard [] (.ofLines []) where
  last v c _ := by simp [MarketDataHandler.ofLines, SequenceTracker.last, lastSeqNo, seqNos]
  unknown v i _ := by simp [MarketDataHandler.ofLines, FeedHealth.state]
  healthy v i s _ h := by simp [MarketDataHandler.ofLines, FeedHealth.state] at h
  reason v i s _ h := by simp [MarketDataHandler.ofLines, FeedHealth.state] at h

section Step

variable {l rest : List RawPacket} {q : RawPacket} {h h' : MarketDataHandler}

/-- The number of the next packet is above the last one received on its channel, and is 1 if there
is none. -/
theorem lastSeqNo_lt (hsplit : D.packets = l ++ q :: rest) :
    lastSeqNo l q.channel < q.sequenceNo ∧
      (lastSeqNo l q.channel = 0 → q.sequenceNo = 1) := by
  have hq : q ∈ F.packets := D.sublist.subset (by rw [hsplit]; simp)
  have hpos := one_le_sequenceNo hq
  have hsorted := seqNos_pairwise D.sublist q.channel
  rw [hsplit, seqNos_append, seqNos_cons_self] at hsorted
  rcases lastSeqNo_cases l q.channel with ⟨hnil, hzero⟩ | ⟨init, hinit⟩
  · refine ⟨by omega, fun _ => ?_⟩
    obtain ⟨p, hp, hch, hone⟩ := exists_packet hq le_rfl hpos
    have hmem : 1 ∈ seqNos D.packets q.channel := mem_seqNos.2 ⟨p, D.first q (by rw [hsplit]; simp) p hp hch hone, hch, hone⟩
    rw [hsplit, seqNos_append, seqNos_cons_self, hnil, List.nil_append] at hmem
    rw [hnil, List.nil_append] at hsorted
    rcases List.mem_cons.1 hmem with heq | hlater
    · exact heq.symm
    · have := (List.pairwise_cons.1 hsorted).1 1 hlater
      omega
  · have hmem : lastSeqNo l q.channel ∈ seqNos l q.channel := by
      rw [hinit]
      simp
    have hlt := (List.pairwise_append.1 hsorted).2.2 _ hmem q.sequenceNo (by simp)
    refine ⟨hlt, fun hzero => ?_⟩
    obtain ⟨p, hp, -, hseq⟩ := mem_seqNos.1 hmem
    have hp' : p ∈ F.packets := D.sublist.subset (by rw [hsplit]; simp [hp])
    have := one_le_sequenceNo hp'
    omega

/-- The packet is not the successor of the last one received exactly when its predecessor was
lost. -/
theorem reveals_iff (hsplit : D.packets = l ++ q :: rest) :
    D.Reveals q ↔ lastSeqNo l q.channel ≠ 0 ∧ q.sequenceNo ≠ lastSeqNo l q.channel + 1 := by
  have hq : q ∈ F.packets := D.sublist.subset (by rw [hsplit]; simp)
  obtain ⟨hlt, hfirst⟩ := lastSeqNo_lt hsplit
  have hsorted := seqNos_pairwise D.sublist q.channel
  rw [hsplit, seqNos_append, seqNos_cons_self] at hsorted
  constructor
  · rintro ⟨p, hp, hlost, hch, hseq⟩
    have hpos := one_le_sequenceNo hp
    have hne : lastSeqNo l q.channel ≠ 0 := fun h0 => by
      have := hfirst h0
      omega
    refine ⟨hne, fun hnext => hlost ?_⟩
    -- the last packet received is the predecessor
    obtain ⟨init, hinit⟩ := (lastSeqNo_cases l q.channel).resolve_left fun h0 => hne h0.2
    have hmem : lastSeqNo l q.channel ∈ seqNos l q.channel := by
      rw [hinit]
      simp
    obtain ⟨p', hp', hch', hseq'⟩ := mem_seqNos.1 hmem
    have hdel : p' ∈ D.packets := by
      rw [hsplit]
      exact List.mem_append_left _ hp'
    rwa [packet_unique hp (D.sublist.subset hdel) (hch.trans hch'.symm) (by omega)]
  · rintro ⟨hne, hskip⟩
    obtain ⟨p, hp, hch, hseq⟩ := exists_packet (x := q.sequenceNo - 1) hq (by omega) (by omega)
    refine ⟨p, hp, fun hdel => ?_, hch, by omega⟩
    rw [hsplit] at hdel
    rcases List.mem_append.1 hdel with hbefore | hafter
    · have hmem : p.sequenceNo ∈ seqNos l q.channel := mem_seqNos.2 ⟨p, hbefore, hch, rfl⟩
      obtain ⟨init, hinit⟩ := (lastSeqNo_cases l q.channel).resolve_left fun h0 => hne h0.2
      have hl := (List.pairwise_append.1 hsorted).1
      rw [hinit] at hmem hl
      rcases List.mem_append.1 hmem with hin | hlast
      · have := (List.pairwise_append.1 hl).2.2 _ hin _ (List.mem_singleton_self _)
        omega
      · have := List.mem_singleton.1 hlast
        omega
    · have hmem : p.sequenceNo ∈ seqNos (q :: rest) q.channel := mem_seqNos.2 ⟨p, hafter, hch, rfl⟩
      rw [seqNos_cons_self] at hmem
      have hr := (List.pairwise_append.1 hsorted).2.1
      rcases List.mem_cons.1 hmem with heq | hlater
      · omega
      · have := (List.pairwise_cons.1 hr).1 _ hlater
        omega

open Classical in
/-- A delivered packet is classified `Gap` exactly when its predecessor was lost. -/
theorem onPacket_status (hsplit : D.packets = l ++ q :: rest) (hh : D.Heard l h) :
    h.seq.onPacket q.venue q.channelId q.sequenceNo =
      (if D.Reveals q then .gap else .ok, h.seq.setLast q.venue q.channelId q.sequenceNo) := by
  have hq : q ∈ F.packets := D.sublist.subset (by rw [hsplit]; simp)
  have hwf := F.wellFormed q hq
  have hbound := hwf.sequenceNo_lt
  obtain ⟨hlt, -⟩ := lastSeqNo_lt hsplit
  have hlast := hh.last q.venue q.channelId hwf.channelId_lt
  have hch : (q.venue, q.channelId) = q.channel := rfl
  rw [hch] at hlast
  have hmod : (lastSeqNo l q.channel + 1) % 2 ^ 64 = lastSeqNo l q.channel + 1 :=
    Nat.mod_eq_of_lt (by omega)
  have hzero : q.sequenceNo ≠ 0 := by omega
  have hnotle : ¬ q.sequenceNo ≤ lastSeqNo l q.channel := by omega
  unfold SequenceTracker.onPacket
  simp only [hlast, hmod, if_neg hzero, if_neg hnotle, reveals_iff hsplit]
  by_cases hok : lastSeqNo l q.channel = 0 ∨ q.sequenceNo = lastSeqNo l q.channel + 1
  · rw [if_pos hok, if_neg (by tauto)]
  · rw [if_neg hok, if_pos (by tauto)]

theorem Heard.last_step (hh : D.Heard l h) (hq : q.WellFormed) {v : Venue} {c : ℕ}
    (hc : c < 2 ^ 32) :
    (h.seq.setLast q.venue q.channelId q.sequenceNo).last v c = lastSeqNo (l ++ [q]) (v, c) := by
  rw [SequenceTracker.last_setLast _ hq.channelId_lt hc]
  split_ifs with heq
  · rw [← heq]
    exact (lastSeqNo_append_self q).symm
  · rw [hh.last v c hc, lastSeqNo_append_of_ne heq]

/-- The state of the feed of `q` after it: marked if `q` reveals a loss, else healthy unless it was
marked before. -/
theorem Heard.health_step (hh : D.Heard l h) {s : FeedState} {v : Venue} {i : ℕ}
    (hi : i < 2 ^ 32) (hfeed : q.feed = some (v, i)) (hhealthy : s.healthy = true ↔ s.reason = "")
    (hreason : s.reason = "" ↔
      ((h.health.state v i).getD {}).reason = "" ∧ ¬ D.Reveals q)
    (hlast : h'.health = h.health.setState v i s) (hseq : ∀ v c, c < 2 ^ 32 →
      h'.seq.last v c = lastSeqNo (l ++ [q]) (v, c)) :
    D.Heard (l ++ [q]) h' := by
  have hold : ((h.health.state v i).getD {}).reason = "" ↔
      ∀ p ∈ l, p.feed = some (v, i) → ¬ D.Reveals p := by
    cases hs : h.health.state v i with
    | none =>
      have hnone := (hh.unknown v i hi).1 hs
      exact ⟨fun _ p hp hf => absurd hf (hnone p hp), fun _ => rfl⟩
    | some s => exact hh.reason v i s hi hs
  have hstate : ∀ v' i', i' < 2 ^ 32 → h'.health.state v' i' =
      if (v, i) = (v', i') then some s else h.health.state v' i' := fun v' i' hi' => by
    rw [hlast, FeedHealth.state_setState _ hi hi']
  refine ⟨hseq, fun v' i' hi' => ?_, fun v' i' s' hi' hs' => ?_, fun v' i' s' hi' hs' => ?_⟩
  · rw [hstate v' i' hi']
    split_ifs with heq
    · simp [← heq, hfeed]
    · rw [hh.unknown v' i' hi']
      simp only [List.forall_mem_append, List.forall_mem_singleton, hfeed, ne_eq, Option.some.injEq,
        heq, not_false_eq_true, and_true]
  · rw [hstate v' i' hi'] at hs'
    split_ifs at hs' with heq
    · cases hs'
      exact hhealthy
    · exact hh.healthy v' i' s' hi' hs'
  · rw [hstate v' i' hi'] at hs'
    simp only [List.forall_mem_append, List.forall_mem_singleton, hfeed, Option.some.injEq]
    split_ifs at hs' with heq
    · cases hs'
      rw [hreason, hold, ← heq]
      simp
    · rw [hh.reason v' i' s' hi' hs']
      simp [heq]

theorem heard_step (hsplit : D.packets = l ++ q :: rest) (hh : D.Heard l h) :
    D.Heard (l ++ [q]) (h.onPacket q).2 := by
  have hq := F.wellFormed q (D.sublist.subset (by rw [hsplit]; simp))
  obtain ⟨ev, hev, hi⟩ := hq.parse_some
  have hfeed : q.feed = some (ev.venue, ev.instrumentId) := by simp [RawPacket.feed, hev]
  have hstatus := onPacket_status hsplit hh
  have hlast : ∀ v c, c < 2 ^ 32 →
      (h.seq.setLast q.venue q.channelId q.sequenceNo).last v c = lastSeqNo (l ++ [q]) (v, c) :=
    fun v c hc => hh.last_step hq hc
  by_cases hr : D.Reveals q
  · rw [if_pos hr] at hstatus
    have hpkt : (h.onPacket q).2 =
        { h with
          seq := h.seq.setLast q.venue q.channelId q.sequenceNo
          health := h.health.markUnhealthy ev.venue ev.instrumentId "SEQUENCE_GAP" } := by
      simp [MarketDataHandler.onPacket, hstatus, hev]
    rw [hpkt]
    exact hh.health_step hi hfeed (by simp) (by simp [hr]) rfl hlast
  · rw [if_neg hr] at hstatus
    have hpkt : (h.onPacket q).2 =
        { h with
          seq := h.seq.setLast q.venue q.channelId q.sequenceNo
          health := h.health.onEvent ev.venue ev.instrumentId ev.tsIngestNs } := by
      simp [MarketDataHandler.onPacket, hstatus, hev]
    rw [hpkt]
    refine hh.health_step hi hfeed ?_ (by simp [hr]) rfl hlast
    cases hs : h.health.state ev.venue ev.instrumentId with
    | none => simp
    | some s =>
      have := hh.healthy _ _ s hi hs
      by_cases he : s.reason = "" <;> simp_all

end Step

theorem heard_delivered (D : Delivery F) : D.Heard D.packets D.handler := by
  have hall : ∀ l rest h, D.packets = l ++ rest → D.Heard l h →
      D.Heard D.packets (h.processed rest) := by
    intro l rest
    induction rest generalizing l with
    | nil =>
      intro h hsplit hh
      rw [hsplit, List.append_nil]
      exact hh
    | cons q rest ih =>
      intro h hsplit hh
      exact ih (l ++ [q]) _ (by rw [hsplit, List.append_assoc]; rfl) (heard_step hsplit hh)
  exact hall [] D.packets _ rfl (heard_nil D)

/-- **Which feeds are healthy**: those of a delivered packet, none of whose delivered packets
directly follows a loss. -/
theorem isHealthy_iff (D : Delivery F) {v : Venue} {i : ℕ} (hi : i < 2 ^ 32) :
    D.handler.health.isHealthy v i = true ↔
      (∃ q ∈ D.packets, q.feed = some (v, i)) ∧
        ∀ q ∈ D.packets, q.feed = some (v, i) → ¬ D.Reveals q := by
  have hh := heard_delivered D
  unfold FeedHealth.isHealthy
  cases hs : D.handler.health.state v i with
  | none =>
    have hnone := (hh.unknown v i hi).1 hs
    simp only [Bool.false_eq_true, false_iff, not_and]
    rintro ⟨q, hq, hf⟩
    exact absurd hf (hnone q hq)
  | some s =>
    have hsome : ∃ q ∈ D.packets, q.feed = some (v, i) := by
      by_contra hnone
      push Not at hnone
      rw [(hh.unknown v i hi).2 hnone] at hs
      cases hs
    simp only [hsome, true_and]
    rw [hh.healthy v i s hi hs, hh.reason v i s hi hs]

/-- **When every hurt feed is found unhealthy**: each of them has had no packet at all, or one that
directly follows a loss on its channel. -/
theorem taintsHurt_iff (D : Delivery F) :
    D.TaintsHurt ↔ ∀ venue instrumentId, D.Hurt venue instrumentId →
      (∀ q ∈ D.packets, q.feed ≠ some (venue, instrumentId)) ∨
        ∃ q ∈ D.packets, q.feed = some (venue, instrumentId) ∧ D.Reveals q := by
  refine forall₂_congr fun v i => imp_congr_right fun hhurt => ?_
  obtain ⟨p, hp, -, hfeed, -⟩ := hhurt
  obtain ⟨ev, hev, hlt⟩ := (F.wellFormed p hp).parse_some
  have hi : i < 2 ^ 32 := by
    simp only [RawPacket.feed, hev, Option.map_some, Option.some.injEq, Prod.mk.injEq] at hfeed
    omega
  rw [← Bool.not_eq_true, isHealthy_iff D hi]
  push Not
  constructor
  · intro h
    by_cases hsome : ∃ q ∈ D.packets, q.feed = some (v, i)
    · exact Or.inr (h hsome)
    · push Not at hsome
      exact Or.inl hsome
  · rintro (hnone | hreveals) ⟨q, hq, hf⟩
    · exact absurd hf (hnone q hq)
    · exact hreveals

end Delivery

/-! ### One channel, two instruments -/

/-- The line of packet `sequenceNo` of NSE channel 1, an event of instrument `instrumentId`. -/
def multiplexedLine (sequenceNo instrumentId : ℕ) : Bytes :=
  ("1,1,NSE,1," ++ toString sequenceNo ++ ",MBO," ++ toString instrumentId ++
    ",1594,ADD,1,BUY,100,10").toList

/-- The packet of that line. -/
def multiplexedPacket (sequenceNo instrumentId : ℕ) : RawPacket where
  tsIngestNs := 1
  venue := .nse
  channelId := 1
  sequenceNo := sequenceNo
  msgType := "MBO".toList
  srcIp := []
  payloadBytes := multiplexedLine sequenceNo instrumentId

/-- Instrument 2 is updated by packets 1 and 2, instrument 1 by packet 3. -/
def multiplexedFeed : PublishedFeed where
  packets := [multiplexedPacket 1 2, multiplexedPacket 2 2, multiplexedPacket 3 1]
  wellFormed p hp := by
    simp only [List.mem_cons, List.not_mem_nil, or_false] at hp
    rcases hp with rfl | rfl | rfl
    · exact ⟨multiplexedLine 1 2, by decide +kernel, by decide +kernel⟩
    · exact ⟨multiplexedLine 2 2, by decide +kernel, by decide +kernel⟩
    · exact ⟨multiplexedLine 3 1, by decide +kernel, by decide +kernel⟩
  numbered ch := by
    by_cases hch : ((.nse, 1) : Venue × ℕ) = ch
    · exact ⟨3, by simp [seqNos, RawPacket.channel, multiplexedPacket, hch, List.range']⟩
    · exact ⟨0, by simp [seqNos, RawPacket.channel, multiplexedPacket, hch]⟩

/-- Packet 2 is lost. -/
def multiplexedDelivery : Delivery multiplexedFeed where
  packets := [multiplexedPacket 1 2, multiplexedPacket 3 1]
  sublist := ((List.Sublist.refl _).cons _).cons_cons _
  first q hq p hp hch h1 := by
    simp only [multiplexedFeed, List.mem_cons, List.not_mem_nil, or_false] at hp
    rcases hp with rfl | rfl | rfl
    · exact List.mem_cons_self
    · cases h1
    · cases h1

/-- The gap is seen at packet 3, which taints instrument 1; instrument 2 missed the update and stays
healthy. -/
theorem taintsHurt_multiplexed : ¬ multiplexedDelivery.TaintsHurt := by
  intro h
  have hunhealthy := h .nse 2 ⟨multiplexedPacket 2 2, by simp [multiplexedFeed], by decide +kernel,
    by decide +kernel, multiplexedPacket 3 1, by simp [multiplexedDelivery], rfl, by decide⟩
  exact absurd hunhealthy (by decide +kernel)

end Hft
