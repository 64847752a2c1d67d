import HftArb.Md.Retransmission

/-!
# What the tracker remembers of a channel

The tracker keeps one number for each channel, the highest that has arrived on it
(`last_tracked`).  So it calls a packet a duplicate when a packet with its number or a higher one
came before, whether or not it has been delivered itself (`duplicate_iff`).  A reset is reported but
not recorded: the packets of a new session are accepted only if nothing was numbered before
(`restarts_iff`).
-/

namespace Hft

open Std (ExtTreeMap)

/-- The highest number among the packets of a channel, 0 if there is none. -/
def highest (packets : List RawPacket) (ch : Venue × ℕ) : ℕ := (seqNos packets ch).toFinset.sup id

section Highest

variable {l l' : List RawPacket} {ch : Venue × ℕ} {q : RawPacket} {x : ℕ}

theorem highest_append : highest (l ++ l') ch = highest l ch ⊔ highest l' ch := by
  rw [highest, seqNos_append, List.toFinset_append, Finset.sup_union]
  rfl

theorem highest_singleton (q : RawPacket) (ch : Venue × ℕ) :
    highest [q] ch = if q.channel = ch then q.sequenceNo else 0 := by
  split_ifs with h
  · subst h
    simp [highest, seqNos]
  · simp [highest, seqNos_singleton_of_ne h]

/-- A number is reached when a packet had it or a higher one. -/
theorem le_highest_iff (hpos : 0 < x) :
    x ≤ highest l ch ↔ ∃ p ∈ l, p.channel = ch ∧ x ≤ p.sequenceNo := by
  rw [highest, Finset.le_sup_iff hpos]
  constructor
  · rintro ⟨n, hn, hle⟩
    obtain ⟨p, hp, hch, rfl⟩ := mem_seqNos.1 (List.mem_toFinset.1 hn)
    exact ⟨p, hp, hch, hle⟩
  · rintro ⟨p, hp, hch, hle⟩
    exact ⟨p.sequenceNo, List.mem_toFinset.2 (mem_seqNos.2 ⟨p, hp, hch, rfl⟩), hle⟩

theorem highest_eq_zero_iff : highest l ch = 0 ↔ ∀ p ∈ l, p.channel = ch → p.sequenceNo = 0 := by
  rw [← Nat.lt_one_iff, ← not_le, le_highest_iff Nat.one_pos]
  constructor
  · intro h p hp hch
    by_contra hne
    exact h ⟨p, hp, hch, Nat.one_le_iff_ne_zero.2 hne⟩
  · rintro h ⟨p, hp, hch, hle⟩
    have hzero := h p hp hch
    omega

/-- The packets of a channel that are numbered from 1 on reach their count. -/
theorem highest_of_numbered {n : ℕ} (h : seqNos l ch = List.range' 1 n) : highest l ch = n := by
  induction n generalizing l with
  | zero => simp [highest, h]
  | succ n _ =>
    refine le_antisymm (Finset.sup_le fun x hx => ?_) ?_
    · rw [h, List.mem_toFinset, List.mem_range'_1] at hx
      simp only [id]
      omega
    · refine Finset.le_sup (f := id) ?_
      rw [h, List.mem_toFinset, List.mem_range'_1]
      omega

end Highest

namespace SequenceTracker

variable {t : SequenceTracker} {v v' : Venue} {c c' seq : ℕ}

/-- The tracker after some packets, whatever their text. -/
def tracked (packets : List RawPacket) : SequenceTracker :=
  packets.foldl (fun t pkt => (t.onPacket pkt.venue pkt.channelId pkt.sequenceNo).2) {}

/-- The verdict on a packet that arrives after others. -/
def verdict (before : List RawPacket) (pkt : RawPacket) : SequenceStatus :=
  ((tracked before).onPacket pkt.venue pkt.channelId pkt.sequenceNo).1

/-- The verdict, by the number the tracker holds for the channel. -/
theorem onPacket_status (h : t.Fits) (hseq : seq < 2 ^ 64) : (t.onPacket v c seq).1 =
    if seq = 0 then .reset
    else if t.last v c = 0 ∨ seq = t.last v c + 1 then .ok
    else if seq ≤ t.last v c then .duplicate
    else .gap := by
  have hlast := h.last_lt v c
  unfold onPacket
  dsimp only
  by_cases hzero : seq = 0
  · rw [if_pos hzero, if_pos hzero]
  -- the successor of the highest 64-bit number is 0, which is no packet's number here
  have hnext : seq = (t.last v c + 1) % 2 ^ 64 ↔ seq = t.last v c + 1 := by omega
  simp only [if_neg hzero, hnext]
  split_ifs <;> rfl

/-- A packet raises the number of its channel to its own, and leaves the others. -/
theorem last_onPacket (h : t.Fits) (hc : c < 2 ^ 32) (hc' : c' < 2 ^ 32) (hseq : seq < 2 ^ 64) :
    (t.onPacket v c seq).2.last v' c' =
      if (v, c) = (v', c') then t.last v c ⊔ seq else t.last v' c' := by
  have hlast := h.last_lt v c
  rcases onPacket_setLast t v c seq with ⟨-, hzero, hcase, heq⟩ | ⟨hstatus, heq⟩
  · have hraised : t.last v c ⊔ seq = seq := by omega
    rw [heq, last_setLast t hc hc', hraised]
  · have hkept : t.last v c ⊔ seq = t.last v c := by
      rw [onPacket_status h hseq] at hstatus
      split_ifs at hstatus with hzero hok hle
      · omega
      · exact absurd (Or.inl rfl) hstatus
      · omega
      · exact absurd (Or.inr rfl) hstatus
    rw [heq, last_setLast t hc hc', hkept]

/-- **What the tracker remembers** of a channel is the highest number that has arrived on it. -/
theorem last_tracked {packets : List RawPacket} (hsized : ∀ p ∈ packets, p.Sized) :
    (tracked packets).Fits ∧
      ∀ ch : Venue × ℕ, ch.2 < 2 ^ 32 → (tracked packets).last ch.1 ch.2 = highest packets ch := by
  induction packets using List.reverseRecOn with
  | nil => exact ⟨fits_empty, fun ch _ => by simp [tracked, last, highest, seqNos]⟩
  | append_singleton packets pkt ih =>
    rw [List.forall_mem_append, List.forall_mem_singleton] at hsized
    obtain ⟨hfits, hlast⟩ := ih hsized.1
    have hstep : tracked (packets ++ [pkt]) =
        ((tracked packets).onPacket pkt.venue pkt.channelId pkt.sequenceNo).2 := by
      rw [tracked, List.foldl_append]
      rfl
    rw [hstep]
    refine ⟨hfits.onPacket _ _ hsized.2.sequenceNo, fun ch hch => ?_⟩
    have hown : (tracked packets).last pkt.venue pkt.channelId = highest packets pkt.channel :=
      hlast pkt.channel hsized.2.channelId
    rw [last_onPacket hfits hsized.2.channelId hch hsized.2.sequenceNo, highest_append,
      highest_singleton, hlast ch hch, hown]
    change (if pkt.channel = ch then _ else _) = _
    split_ifs with heq
    · rw [heq]
    · exact (max_eq_left (Nat.zero_le _)).symm

variable {before : List RawPacket} {pkt : RawPacket}

/-- The verdict on a packet depends on the highest number of its channel. -/
theorem verdict_eq (hsized : ∀ p ∈ before, p.Sized) (hpkt : pkt.Sized) : verdict before pkt =
    if pkt.sequenceNo = 0 then .reset
    else if highest before pkt.channel = 0 ∨ pkt.sequenceNo = highest before pkt.channel + 1 then
      .ok
    else if pkt.sequenceNo ≤ highest before pkt.channel then .duplicate
    else .gap := by
  obtain ⟨hfits, hlast⟩ := last_tracked hsized
  have hch : (tracked before).last pkt.venue pkt.channelId = highest before pkt.channel :=
    hlast pkt.channel hpkt.channelId
  rw [verdict, onPacket_status hfits hpkt.sequenceNo, hch]

theorem verdict_ok_iff (hsized : ∀ p ∈ before, p.Sized) (hpkt : pkt.Sized)
    (hpos : 0 < pkt.sequenceNo) : verdict before pkt = .ok ↔
      highest before pkt.channel = 0 ∨ pkt.sequenceNo = highest before pkt.channel + 1 := by
  rw [verdict_eq hsized hpkt, if_neg hpos.ne']
  split_ifs with hok hle
  · exact iff_of_true rfl hok
  · exact iff_of_false (by simp) hok
  · exact iff_of_false (by simp) hok

/-! ### Duplicates -/

/-- **What a duplicate is.**  In every stream of packets a packet with a non-zero number is called a
duplicate exactly when a packet with its number or a higher one came before it on its channel. -/
theorem duplicate_iff (hsized : ∀ p ∈ before, p.Sized) (hpkt : pkt.Sized)
    (hpos : 0 < pkt.sequenceNo) : verdict before pkt = .duplicate ↔
      ∃ p ∈ before, p.channel = pkt.channel ∧ pkt.sequenceNo ≤ p.sequenceNo := by
  rw [verdict_eq hsized hpkt, ← le_highest_iff hpos, if_neg hpos.ne']
  split_ifs with hok hle
  · exact iff_of_false (by simp) (by omega)
  · exact iff_of_true rfl hle
  · exact iff_of_false (by simp) hle

/-- A packet of NSE channel 1. -/
def packetNo (n : ℕ) : RawPacket where
  tsIngestNs := 0
  venue := .nse
  channelId := 1
  sequenceNo := n
  msgType := []
  srcIp := []
  payloadBytes := []

/-- Packet 4 is late: after packet 5 it is called a duplicate although it was never delivered. -/
theorem not_duplicate_iff_late :
    ¬(verdict [packetNo 3, packetNo 5] (packetNo 4) = .duplicate ↔
      ∃ p ∈ [packetNo 3, packetNo 5], p.channel = (packetNo 4).channel ∧
        p.sequenceNo = (packetNo 4).sequenceNo) := by
  decide +kernel

/-- Packet 5 itself came before. -/
theorem duplicate_iff_again : verdict [packetNo 3, packetNo 5] (packetNo 5) = .duplicate :=
  (duplicate_iff (List.forall_mem_cons.2 ⟨⟨by decide, by decide⟩,
    List.forall_mem_singleton.2 ⟨by decide, by decide⟩⟩) ⟨by decide, by decide⟩ (by decide)).2
      ⟨packetNo 5, by simp, rfl, le_rfl⟩

/-! ### Resets -/

/-- After `history` the packet `reset` restarts its channel: the packets of a session numbered from
1 are accepted one after the other, whatever arrives in between on other channels, and the verdicts
on those are what they would be without the reset. -/
structure Restarts (history : List RawPacket) (reset : RawPacket) : Prop where
  session : ∀ later : List RawPacket, (∀ p ∈ later, p.Sized) → ∀ n,
    seqNos later reset.channel = List.range' 1 n → ∀ pre pkt, pre ++ [pkt] <+: later →
      pkt.channel = reset.channel → verdict (history ++ reset :: pre) pkt = .ok
  others : ∀ pre pkt, (∀ p ∈ pre, p.Sized) → pkt.Sized → pkt.channel ≠ reset.channel →
    verdict (history ++ reset :: pre) pkt = verdict (history ++ pre) pkt

variable {history pre : List RawPacket} {reset : RawPacket}

/-- A reset does not count for the highest number. -/
theorem highest_reset (hzero : reset.sequenceNo = 0) (ch : Venue × ℕ) :
    highest (history ++ reset :: pre) ch = highest history ch ⊔ highest pre ch := by
  have hreset : highest [reset] ch = 0 := by
    rw [highest_singleton, hzero]
    split_ifs <;> rfl
  rw [← List.singleton_append, highest_append, highest_append, hreset]
  exact congrArg _ (max_eq_right (Nat.zero_le _))

/-- Within a session numbered from 1 every packet follows the ones before it. -/
theorem numbered_prefix {later : List RawPacket} {n : ℕ} {ch : Venue × ℕ}
    (hnumbered : seqNos later ch = List.range' 1 n) (hle : pre ++ [pkt] <+: later)
    (hch : pkt.channel = ch) : highest pre ch + 1 = pkt.sequenceNo := by
  subst hch
  obtain ⟨rest, rfl⟩ := hle
  rw [List.append_assoc, List.singleton_append, seqNos_append, seqNos_cons_self] at hnumbered
  have hlt : (seqNos pre pkt.channel).length < n := by
    have hlength := congrArg List.length hnumbered
    rw [List.length_append, List.length_cons, List.length_range'] at hlength
    omega
  -- what comes before the packet is the beginning of the range, and the packet the next number
  have hfirst : seqNos pre pkt.channel = List.range' 1 (seqNos pre pkt.channel).length := by
    have htake := congrArg (List.take (seqNos pre pkt.channel).length) hnumbered
    rwa [List.take_left, List.take_range'_of_length_ge hlt.le] at htake
  have hat : pkt.sequenceNo = 1 + (seqNos pre pkt.channel).length := by
    have hget := congrArg (fun l => l[(seqNos pre pkt.channel).length]?) hnumbered
    simpa [hlt] using hget
  rw [highest_of_numbered hfirst, hat, Nat.add_comm]

/-- **When a reset restarts its channel.**  After any history it does so exactly when no packet of
the channel has had a number other than 0. -/
theorem restarts_iff (hhistory : ∀ p ∈ history, p.Sized) (hreset : reset.Sized)
    (hzero : reset.sequenceNo = 0) : Restarts history reset ↔
      ∀ p ∈ history, p.channel = reset.channel → p.sequenceNo = 0 := by
  have hsized : ∀ pre : List RawPacket, (∀ p ∈ pre, p.Sized) →
      ∀ p ∈ history ++ reset :: pre, p.Sized := fun pre hpre =>
    List.forall_mem_append.2 ⟨hhistory, List.forall_mem_cons.2 ⟨hreset, hpre⟩⟩
  rw [← highest_eq_zero_iff]
  constructor
  · intro h
    -- a session of one packet
    obtain ⟨first, hfirst⟩ : ∃ first, first = { reset with sequenceNo := 1 } := ⟨_, rfl⟩
    have hch : first.channel = reset.channel := by
      rw [hfirst]
      rfl
    have hseq : first.sequenceNo = 1 := by rw [hfirst]
    have hone : first.Sized := ⟨by rw [hfirst]; exact hreset.channelId, by omega⟩
    have hok := h.session [first] (List.forall_mem_singleton.2 hone) 1 (by simp [seqNos, hch, hseq])
      [] first List.prefix_rfl hch
    have hnone : highest [] reset.channel = 0 := rfl
    rw [verdict_ok_iff (hsized [] (by simp)) hone (by omega), highest_reset hzero, hch, hnone,
      hseq] at hok
    omega
  · intro hnone
    constructor
    · intro later hlater n hnumbered pre pkt hle hch
      have hmem : ∀ p ∈ pre ++ [pkt], p.Sized := fun p hp => hlater p (hle.subset hp)
      rw [List.forall_mem_append, List.forall_mem_singleton] at hmem
      have hnext := numbered_prefix hnumbered hle hch
      rw [verdict_ok_iff (hsized pre hmem.1) hmem.2 (by omega), highest_reset hzero, hch, hnone,
        max_eq_right (Nat.zero_le _)]
      exact Or.inr hnext.symm
    · intro pre pkt hpre hpkt hch
      rw [verdict_eq (hsized pre hpre) hpkt,
        verdict_eq (List.forall_mem_append.2 ⟨hhistory, hpre⟩) hpkt, highest_reset hzero,
        highest_append]

/-- After packet 1 and a reset, packet 1 of the new session is dropped as a duplicate. -/
theorem not_restarts_afterOne : ¬ Restarts [packetNo 1] (packetNo 0) := by
  intro h
  have hok := h.session [packetNo 1] (List.forall_mem_singleton.2 ⟨by decide, by decide⟩) 1
    (by decide) [] _ List.prefix_rfl rfl
  exact absurd hok (by decide +kernel)

/-- A reset restarts its channel after another reset of it, whatever numbers another exchange has
used. -/
theorem restarts_iff_first :
    Restarts [packetNo 0, { packetNo 5 with venue := .bse }] (packetNo 0) := by
  refine (restarts_iff ?_ ⟨by decide, by decide⟩ rfl).2 ?_
  · refine List.forall_mem_cons.2 ⟨⟨by decide, by decide⟩, ?_⟩
    exact List.forall_mem_singleton.2 ⟨by decide, by decide⟩
  · refine List.forall_mem_cons.2 ⟨fun _ => rfl, ?_⟩
    exact List.forall_mem_singleton.2 fun hch => absurd hch (by decide)

end SequenceTracker

end Hft
