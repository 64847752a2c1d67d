import HftArb.Lib.Fifo
import HftArb.Concurrency.SpscInvariant

/-!
# The ring buffer is a bounded FIFO

`simulation` maps every run of the ring buffer to a run of the abstract queue with bound
`size - 1`: storing the head is a push, moving out an element is a pop, and every other step
changes nothing.  `spsc_boundedFifo` reads off what callers rely on.
-/

namespace Hft.Concurrency

open Transition

variable {c : Capacity} {T : Type}

/-- The abstract queue a state stands for. -/
def SpscState.fifo (s : SpscState c T) : Fifo T where
  contents := s.pushed.drop s.popped.length
  pushed := s.pushed
  popped := s.popped

/-- The slot holds an object. -/
def Slot.occupied : Slot T → Bool
  | .raw => false
  | _ => true

/-- The number of slots that hold an object. -/
def Ring.stored (r : Ring c T) : ℕ := (Finset.univ.filter fun i => (r.slots i).occupied).card

/-- The steps of the producer. -/
def SpscAction.byProducer : SpscAction T → Bool
  | .callPush _ _ | .loadHead | .loadTail _ | .construct | .storeHead => true
  | _ => false

/-- The step from `s` to `s'` returns `false` from a push. -/
def SpscState.PushFails (s s' : SpscState c T) : Prop :=
  (∃ value how head, s.producer = .gotHead value how head) ∧
    s'.producer = .idle ∧ s'.pushResult = some false

section Inv

variable {s : SpscState c T} {C : ℕ}

theorem Inv.released_le (h : Inv s C) : C + s.consumer.held ≤ s.pushed.length := by
  have h1 := h.headView_le
  have h2 := h.headView_ge
  have hcons := h.consumer
  cases hc : s.consumer <;> simp only [SpscState.ConsumerOk, hc] at hcons <;>
    simp only [Consumer.held] <;> omega

theorem Inv.length_popped (h : Inv s C) : s.popped.length = C + s.consumer.held := by
  rw [h.popped, List.length_take]
  exact min_eq_left h.released_le

/-- The element after the newest has no slot to be constructed in: one slot is always raw. -/
theorem Inv.last_raw (h : Inv s C) : s.ring.slots (c.slot (C + (c.size - 1))) = .raw := by
  have h1 := h.tailView_ge
  have h2 := h.tailView_le
  have h3 := c.two_le_size
  rw [h.slots _ (by omega) (by omega)]
  refine expected_of_ge (by omega) fun value next hp => ?_
  have hprod := h.producer
  simp only [SpscState.ProducerOk, hp] at hprod
  omega

theorem Inv.stored_le (h : Inv s C) : s.ring.stored ≤ c.size - 1 := by
  have hsub : (Finset.univ.filter fun i => (s.ring.slots i).occupied = true) ⊆
      Finset.univ.erase (c.slot (C + (c.size - 1))) := by
    intro i hi
    refine Finset.mem_erase.2 ⟨?_, Finset.mem_univ i⟩
    rintro rfl
    rw [Finset.mem_filter, h.last_raw] at hi
    exact absurd hi.2 (by simp [Slot.occupied])
  have hcard := Finset.card_le_card hsub
  rwa [Finset.card_erase_of_mem (Finset.mem_univ _), Finset.card_univ, Fintype.card_fin] at hcard

/-- The elements not yet moved out are in their slots. -/
theorem Inv.slot_live (h : Inv s C) {n : ℕ} (hn : s.popped.length ≤ n)
    (hlt : n < s.pushed.length) : s.ring.slots (c.slot n) = .live s.pushed[n] := by
  rw [h.length_popped] at hn
  have h1 := h.tailView_ge
  have h2 := h.tailView_le
  rw [h.slots n (by omega) (by omega)]
  exact expected_of_lt hlt (by omega)

end Inv

/-- **The ring buffer refines the bounded queue.** -/
theorem simulation (c : Capacity) (T : Type) :
    System.Simulation (spsc c T) (Fifo.system T (c.size - 1)) (fun s => ∃ C, Inv s C)
      SpscState.fifo where
  init := by
    rintro _ rfl
    rfl
  step := by
    rintro s a s' ⟨C, h⟩ hs
    have hlen := h.length_popped
    have hle := h.released_le
    cases hs with
    | @storeHead value next hp =>
      right
      have hprod := h.producer
      simp only [SpscState.ProducerOk, hp] at hprod
      have hview := h.tailView_le
      have hroom : s.fifo.contents.length < c.size - 1 := by
        simp only [SpscState.fifo, List.length_drop]
        omega
      refine ⟨.push value, ?_⟩
      have hpush := Fifo.Step.push s.fifo value hroom
      simpa only [SpscState.fifo, Fifo.system,
        List.drop_append_of_le_length (hlen.trans_le hle)] using hpush
    | @move tail hc =>
      right
      obtain ⟨hlt, hpopped⟩ := (inv_move h hc).2
      rw [hc] at hlen
      have hhead : s.fifo.contents = s.pushed[C] :: s.pushed.drop (C + 1) := by
        simp only [SpscState.fifo, hlen]
        exact List.drop_eq_getElem_cons hlt
      refine ⟨.pop s.pushed[C], ?_⟩
      have hpop : Fifo.Step (c.size - 1) _ _ _ := .pop s.fifo _ _ hhead
      have hlen' : (s.popped ++ [s.pushed[C]]).length = C + 1 := by
        rw [List.length_append, hlen]
        rfl
      simpa only [SpscState.fifo, Fifo.system, SpscState.moveOut_pushed, hpopped, hlen'] using hpop
    | _ => exact Or.inl rfl

/-- What holds of every reachable state of the ring buffer. -/
structure SpscState.BoundedFifo (s : SpscState c T) : Prop where
  /-- The state is one of the abstract queue with `size - 1` places. -/
  fifo : (Fifo.system T (c.size - 1)).Reachable s.fifo
  /-- Values come out in the order they were pushed, each at most once. -/
  inOrder : s.popped <+: s.pushed
  /-- Every value that has not come out is in the slot it will be read from. -/
  kept : ∀ n, s.popped.length ≤ n → ∀ hlt : n < s.pushed.length,
    s.ring.slots (c.slot n) = .live s.pushed[n]
  bounded : s.ring.stored ≤ c.size - 1
  noFault : s.faults = []

/-- **The ring buffer is a bounded FIFO in every interleaving**, and a push that returns `false` has
written nothing: its argument still holds the value it was called with. -/
theorem spsc_boundedFifo {s : SpscState c T} (h : (spsc c T).Reachable s) :
    s.BoundedFifo ∧
      (∀ a s', SpscStep s a s' → a.byProducer → s'.written = false → s'.ring = s.ring) ∧
      (∀ a s', SpscStep s a s' → s.PushFails s' → s'.written = false ∧ s'.ring = s.ring ∧
        ∃ value how head, s.producer = .gotHead value how head ∧ s'.arg = .live value) := by
  obtain ⟨C, hi⟩ := inv_reachable h
  have hfifo := (simulation c T).reachable (fun _ => inv_reachable) h
  refine ⟨⟨hfifo, Fifo.popped_prefix hfifo, fun n hn hlt => hi.slot_live hn hlt, hi.stored_le,
    hi.faults⟩, ?_, ?_⟩
  · intro a s' hs ha hw
    cases hs with
    | construct hp => cases hw
    | storeHead hp =>
      have hprod := hi.producer
      simp only [SpscState.ProducerOk, hp] at hprod
      rw [hprod.2.2] at hw
      cases hw
    | callPush | loadHead | loadTailFull | loadTailRoom => rfl
    | _ => cases ha
  · rintro a s' hs ⟨⟨value, how, head, hp⟩, hidle, hfalse⟩
    have hprod := hi.producer
    simp only [SpscState.ProducerOk, hp] at hprod
    cases hs with
    | loadTailFull => exact ⟨hprod.2.2, rfl, value, how, head, hp, hprod.2.1⟩
    | loadTailRoom => cases hidle
    | _ => simp [hp] at *

/-- A buffer of capacity two that holds `true` refuses `false`. -/
theorem spsc_boundedFifo_full :
    ∃ s : SpscState ⟨1, le_rfl, by omega⟩ Bool, s.pushed = [true] ∧ s.BoundedFifo ∧
      ∃ s', SpscStep s (.loadTail 0) s' ∧ s'.ring = s.ring ∧ s'.pushResult = some false := by
  have h0 := System.Reachable.init (S := spsc ⟨1, le_rfl, by omega⟩ Bool) rfl
  have h1 := h0.step (.callPush true .copy rfl)
  have h2 := h1.step (.loadHead rfl rfl)
  have h3 := h2.step (.loadTailRoom 0 rfl (Nat.zero_le 0) rfl (by decide))
  have h4 := h3.step (.construct rfl)
  have h5 := h4.step (.storeHead rfl)
  have h6 := h5.step (.callPush false .move rfl)
  have h7 := h6.step (.loadHead rfl rfl)
  obtain ⟨hfifo, -, hfails⟩ := spsc_boundedFifo h7
  refine ⟨_, rfl, hfifo, _, .loadTailFull 0 rfl (Nat.zero_le 0) rfl (by decide), ?_, rfl⟩
  exact (hfails _ _ (.loadTailFull 0 rfl (Nat.zero_le 0) rfl (by decide))
    ⟨⟨_, _, _, rfl⟩, rfl, rfl⟩).2.1

end Hft.Concurrency
