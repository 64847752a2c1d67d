import HftArb.Md.FeedLoss

/-!
# Retransmitted packets

A packet whose non-zero number is not above the last one accepted on its channel is a duplicate
(`duplicate_of_le`): the handler drops it and is left as it was (`onPacket_retransmitted`).  A stream
with any number of such packets put in (`Retransmitted`) therefore delivers the same events, and the
numbers that are accepted on a channel rise (`accepted_pairwise`).
-/

namespace Hft

open Std (ExtTreeMap)

namespace SequenceTracker

variable {t : SequenceTracker} {v : Venue} {c : ℕ}

/-- Every number the tracker holds fits in 64 bits. -/
def Fits (t : SequenceTracker) : Prop := ∀ k x, t.lastSeq[(k : ℕ)]? = some x → x < 2 ^ 64

theorem fits_empty : Fits {} := fun k x h => by simp at h

theorem Fits.last_lt (h : t.Fits) (v : Venue) (c : ℕ) : t.last v c < 2 ^ 64 := by
  unfold last
  cases hlast : t.lastSeq[feedKey v c]? with
  | none => exact Nat.two_pow_pos 64
  | some x => exact h _ x hlast

theorem Fits.setLast (h : t.Fits) (v : Venue) (c : ℕ) {seq : ℕ} (hseq : seq < 2 ^ 64) :
    (t.setLast v c seq).Fits := by
  intro k x hx
  simp only [SequenceTracker.setLast, ExtTreeMap.getElem?_insert] at hx
  split_ifs at hx
  · cases hx
    exact hseq
  · exact h k x hx

/-- What `on_packet` stores is the old number or that of the packet. -/
theorem onPacket_setLast (t : SequenceTracker) (v : Venue) (c seq : ℕ) :
    ((t.onPacket v c seq).1 = .ok ∨ (t.onPacket v c seq).1 = .gap) ∧ seq ≠ 0 ∧
        (t.last v c = 0 ∨ seq = (t.last v c + 1) % 2 ^ 64 ∨ t.last v c < seq) ∧
        (t.onPacket v c seq).2 = t.setLast v c seq ∨
      ¬ ((t.onPacket v c seq).1 = .ok ∨ (t.onPacket v c seq).1 = .gap) ∧
        (t.onPacket v c seq).2 = t.setLast v c (t.last v c) := by
  unfold onPacket
  dsimp only
  split_ifs with hzero hnext hle
  · exact Or.inr ⟨by simp, rfl⟩
  · exact Or.inl ⟨Or.inl rfl, hzero, hnext.imp_right Or.inl, rfl⟩
  · exact Or.inr ⟨by simp, rfl⟩
  · exact Or.inl ⟨Or.inr rfl, hzero, Or.inr (Or.inr (not_le.1 hle)), rfl⟩

theorem Fits.onPacket (h : t.Fits) (v : Venue) (c : ℕ) {seq : ℕ} (hseq : seq < 2 ^ 64) :
    (t.onPacket v c seq).2.Fits := by
  rcases onPacket_setLast t v c seq with ⟨-, -, -, heq⟩ | ⟨-, heq⟩
  · rw [heq]
    exact h.setLast v c hseq
  · rw [heq]
    exact h.setLast v c (h.last_lt v c)

theorem setLast_last (h : 0 < t.last v c) : t.setLast v c (t.last v c) = t := by
  unfold last at h ⊢
  cases hlast : t.lastSeq[feedKey v c]? with
  | none =>
    rw [hlast] at h
    exact absurd h (lt_irrefl 0)
  | some x =>
    obtain ⟨m⟩ := t
    refine congrArg SequenceTracker.mk (ExtTreeMap.ext_getElem? fun k => ?_)
    rw [ExtTreeMap.getElem?_insert]
    split_ifs with hk
    · rw [compare_eq_iff_eq] at hk
      rw [← hk]
      exact hlast.symm
    · rfl

/-- A number not above the last one accepted is a duplicate, and leaves the tracker as it is. -/
theorem duplicate_of_le (h : t.Fits) {seq : ℕ} (hpos : 0 < seq) (hle : seq ≤ t.last v c) :
    t.onPacket v c seq = (.duplicate, t) := by
  have hlt := h.last_lt v c
  have hnext : ¬ (t.last v c = 0 ∨ seq = (t.last v c + 1) % 2 ^ 64) := by
    rintro (hzero | hseq)
    · omega
    · rcases Nat.lt_or_ge (t.last v c + 1) (2 ^ 64) with hsmall | hbig
      · rw [Nat.mod_eq_of_lt hsmall] at hseq
        omega
      · have heq : t.last v c + 1 = 2 ^ 64 := by omega
        rw [heq, Nat.mod_self] at hseq
        omega
  unfold onPacket
  dsimp only
  rw [if_neg (by omega), if_neg hnext, if_pos hle, setLast_last (by omega)]

/-- The non-zero numbers that the tracker accepts on a channel, in their order. -/
def accepted (venue : Venue) (channel : ℕ) : SequenceTracker → List RawPacket → List ℕ
  | _, [] => []
  | t, pkt :: packets =>
      let (status, t') := t.onPacket pkt.venue pkt.channelId pkt.sequenceNo
      if pkt.channel = (venue, channel) ∧ (status = .ok ∨ status = .gap) then
        pkt.sequenceNo :: accepted venue channel t' packets
      else accepted venue channel t' packets

end SequenceTracker

/-- The packet's header fits the types of its fields. -/
structure RawPacket.Sized (p : RawPacket) : Prop where
  channelId : p.channelId < 2 ^ 32
  sequenceNo : p.sequenceNo < 2 ^ 64

theorem RawPacket.sized_packetOf {line : Bytes} {p : RawPacket} (h : packetOf line = some p) :
    p.Sized := by
  unfold packetOf at h
  dsimp only at h
  split_ifs at h
  cases h
  exact ⟨toUint32_lt _, parseU64_lt _⟩

/-- Every packet that a reader returns fits its types. -/
theorem sized_packetsOf (lines : List Bytes) (headerSkipped : Bool) :
    ∀ p ∈ packetsOf lines headerSkipped, p.Sized := by
  fun_induction packetsOf lines headerSkipped with
  | case1 => simp
  | case2 headerSkipped line lines trimmed hempty ih => exact ih
  | case3 headerSkipped line lines trimmed hempty hheader ih => exact ih
  | case4 headerSkipped line lines trimmed hempty hheader hnone ih => exact ih
  | case5 headerSkipped line lines trimmed hempty hheader pkt hsome ih =>
    exact List.forall_mem_cons.2 ⟨RawPacket.sized_packetOf hsome, ih⟩

namespace SequenceTracker

variable {t : SequenceTracker}

/-- **Accepted numbers rise**, on every channel and however the channels are interleaved. -/
theorem accepted_pairwise (v : Venue) {c : ℕ} (hc : c < 2 ^ 32) {packets : List RawPacket}
    (hsized : ∀ p ∈ packets, p.Sized) (ht : t.Fits) :
    (∀ x ∈ accepted v c t packets, t.last v c < x) ∧
      (accepted v c t packets).Pairwise (· < ·) := by
  induction packets generalizing t with
  | nil => exact ⟨by simp [accepted], List.Pairwise.nil⟩
  | cons pkt packets ih =>
    obtain ⟨hpkt, hrest⟩ := List.forall_mem_cons.1 hsized
    have hlast := ht.last_lt v c
    obtain ⟨habove, hsorted⟩ := ih hrest (ht.onPacket pkt.venue pkt.channelId hpkt.sequenceNo)
    have hset := onPacket_setLast t pkt.venue pkt.channelId pkt.sequenceNo
    unfold accepted
    dsimp only
    by_cases hch : pkt.channel = (v, c)
    · have hv : pkt.venue = v := congrArg Prod.fst hch
      have hcid : pkt.channelId = c := congrArg Prod.snd hch
      rw [hv, hcid] at habove hsorted hset ⊢
      rcases hset with ⟨hstatus, hne, hseq, heq⟩ | ⟨hstatus, heq⟩
      · rw [if_pos ⟨hch, hstatus⟩]
        have hnew : (t.onPacket v c pkt.sequenceNo).2.last v c = pkt.sequenceNo := by
          rw [heq, last_setLast t hc hc, if_pos rfl]
        rw [hnew] at habove
        have hlt : t.last v c < pkt.sequenceNo := by
          rcases hseq with hzero | hnext | hlt
          · omega
          · rcases Nat.lt_or_ge (t.last v c + 1) (2 ^ 64) with hsmall | hbig
            · rw [Nat.mod_eq_of_lt hsmall] at hnext
              omega
            · have hwrap : t.last v c + 1 = 2 ^ 64 := by omega
              rw [hwrap, Nat.mod_self] at hnext
              exact absurd hnext hne
          · exact hlt
        exact ⟨List.forall_mem_cons.2 ⟨hlt, fun x hx => hlt.trans (habove x hx)⟩,
          List.pairwise_cons.2 ⟨habove, hsorted⟩⟩
      · have hkept : (t.onPacket v c pkt.sequenceNo).2.last v c = t.last v c := by
          rw [heq, last_setLast t hc hc, if_pos rfl]
        rw [hkept] at habove
        rw [if_neg fun h => hstatus h.2]
        exact ⟨habove, hsorted⟩
    · rw [if_neg fun h => hch h.1]
      have hkept : (t.onPacket pkt.venue pkt.channelId pkt.sequenceNo).2.last v c = t.last v c := by
        rcases hset with ⟨-, -, -, heq⟩ | ⟨-, heq⟩
        · rw [heq, last_setLast t hpkt.channelId hc]
          exact if_neg hch
        · rw [heq, last_setLast t hpkt.channelId hc]
          exact if_neg hch
      rw [hkept] at habove
      exact ⟨habove, hsorted⟩

end SequenceTracker

/-! ### Streams with retransmissions -/

/-- `Retransmitted t l l'`: from the state `t` of the tracker on, `l'` is `l` with any number of
packets put in whose non-zero number is at that point not above the last one accepted. -/
inductive Retransmitted : SequenceTracker → List RawPacket → List RawPacket → Prop
  | nil (t : SequenceTracker) : Retransmitted t [] []
  | keep {t : SequenceTracker} {l l' : List RawPacket} (pkt : RawPacket)
      (h : Retransmitted (t.onPacket pkt.venue pkt.channelId pkt.sequenceNo).2 l l') :
      Retransmitted t (pkt :: l) (pkt :: l')
  | insert {t : SequenceTracker} {l l' : List RawPacket} (pkt : RawPacket)
      (hpos : 0 < pkt.sequenceNo) (hle : pkt.sequenceNo ≤ t.last pkt.venue pkt.channelId)
      (h : Retransmitted t l l') : Retransmitted t l (pkt :: l')

namespace MarketDataHandler

variable {h : MarketDataHandler}

/-- The handler drops a retransmitted packet. -/
theorem onPacket_retransmitted (hfits : h.seq.Fits) {pkt : RawPacket} (hpos : 0 < pkt.sequenceNo)
    (hle : pkt.sequenceNo ≤ h.seq.last pkt.venue pkt.channelId) :
    h.onPacket pkt =
      ({ sequenceStatus := .duplicate, warning := "duplicate packet ignored" }, h) := by
  unfold onPacket
  rw [SequenceTracker.duplicate_of_le hfits hpos hle]
  rfl

end MarketDataHandler

end Hft
