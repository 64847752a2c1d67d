import HftArb.Lib.Fifo
import HftArb.Concurrency.SpscRingBuffer

/-!
# The invariant of the ring buffer

Wrapped cursors are read through unbounded counts: with `P = pushed.length` pushes published and `C`
slots released, element number `n` lives in slot `n % size` for `C ≤ n < P`.  `Inv` says so for
every state of the two threads, and bounds each side's stale view of the other's cursor by the
counts: `C ≤ headView ≤ P` and `P - (size - 1) ≤ tailView ≤ C`.  Inside these windows cursors that
differ show that there is room (`room_of_ne`) or an element (`item_of_ne`), and two live elements
never share a slot (`slot_inj`).

The invariant is preserved by each step (`inv_step`).
-/

namespace Hft.Concurrency

open Transition

namespace Capacity

variable (c : Capacity)

/-- The cursor value after `n` increments. -/
def cursor (n : ℕ) : SizeT := BitVec.ofNat 64 (n % c.size)

theorem mod_size_lt (n : ℕ) : n % c.size < c.size :=
  Nat.mod_lt _ (by have := c.two_le_size; omega)

/-- The slot of element number `n`. -/
def slot (n : ℕ) : Fin c.size := ⟨n % c.size, c.mod_size_lt n⟩

theorem toNat_cursor (n : ℕ) : (c.cursor n).toNat = n % c.size := by
  have h1 := c.mod_size_lt n
  have h2 := c.size_lt
  unfold cursor
  rw [BitVec.toNat_ofNat, Nat.mod_eq_of_lt (by omega)]

theorem increment_cursor (n : ℕ) : c.increment (c.cursor n) = c.cursor (n + 1) := by
  have h1 : n % c.size < c.size := Nat.mod_lt _ (by have := c.two_le_size; omega)
  have h2 := c.size_lt
  apply BitVec.eq_of_toNat_eq
  unfold increment
  rw [toNat_and_mask, toNat_cursor, BitVec.toNat_add, toNat_cursor]
  have hone : (1 : SizeT).toNat = 1 := rfl
  rw [hone, Nat.mod_eq_of_lt (by omega : n % c.size + 1 < 2 ^ 64), Nat.mod_add_mod]

theorem ptr_cursor (n : ℕ) : c.ptr (c.cursor n) = c.slot n := by
  apply Fin.ext
  change (c.cursor n &&& c.mask).toNat = n % c.size
  rw [toNat_and_mask, toNat_cursor, Nat.mod_mod]

/-- Within one turn of the ring a count is determined by its slot. -/
theorem slot_inj {a n m : ℕ} (hn : a ≤ n ∧ n < a + c.size) (hm : a ≤ m ∧ m < a + c.size)
    (h : c.slot n = c.slot m) : n = m :=
  Nat.mod_injOn_Ico a c.size (by simpa using hn) (by simpa using hm) (congrArg Fin.val h)

/-- The values of a cursor that has been incremented `n` times. -/
def versions (n : ℕ) : List SizeT := (List.range (n + 1)).map c.cursor

theorem versions_zero : c.versions 0 = [0] := by
  have h := c.two_le_size
  simp [versions, cursor]

theorem versions_succ (n : ℕ) : c.versions (n + 1) = c.versions n ++ [c.cursor (n + 1)] := by
  simp [versions, List.range_succ]

theorem getLast?_versions (n : ℕ) : (c.versions n).getLast? = some (c.cursor n) := by
  simp [versions, List.range_succ]

theorem getElem?_versions {n version : ℕ} {index : SizeT}
    (h : (c.versions n)[version]? = some index) : version ≤ n ∧ index = c.cursor version := by
  simp only [versions, List.getElem?_map, Option.map_eq_some_iff] at h
  obtain ⟨v, hv, rfl⟩ := h
  obtain ⟨hlt, rfl⟩ := List.getElem?_eq_some_iff.1 hv
  rw [List.length_range] at hlt
  exact ⟨by omega, by rw [List.getElem_range]⟩

end Capacity

variable {c : Capacity} {T : Type}

/-- Elements moved out whose slot is not yet released. -/
def Consumer.held : Consumer → ℕ
  | .moved _ => 1
  | .destroyed _ => 1
  | _ => 0

/-- What the slot of element number `n` holds, when `C` slots have been released. -/
def SpscState.expected (s : SpscState c T) (C n : ℕ) : Slot T :=
  match s.pushed[n]? with
  | some value =>
      match s.consumer with
      | .moved _ => if n = C then .movedFrom else .live value
      | .destroyed _ => if n = C then .raw else .live value
      | _ => .live value
  | none =>
      match s.producer with
      | .constructed value _ => if n = s.pushed.length then .live value else .raw
      | _ => .raw

/-- The producer's registers. -/
def SpscState.ProducerOk (s : SpscState c T) : Prop :=
  match s.producer with
  | .idle => True
  | .entered value _ => s.arg = .live value ∧ s.written = false
  | .gotHead value _ head =>
      head = c.cursor s.pushed.length ∧ s.arg = .live value ∧ s.written = false
  | .hasRoom value _ head => head = c.cursor s.pushed.length ∧
      s.pushed.length + 2 ≤ s.tailView + c.size ∧ s.arg = .live value ∧ s.written = false
  | .constructed _ next => next = c.cursor (s.pushed.length + 1) ∧
      s.pushed.length + 2 ≤ s.tailView + c.size ∧ s.written = true

/-- The consumer's registers, when `C` slots have been released. -/
def SpscState.ConsumerOk (s : SpscState c T) (C : ℕ) : Prop :=
  match s.consumer with
  | .idle => True
  | .entered => True
  | .gotTail tail => tail = c.cursor C
  | .hasItem tail => tail = c.cursor C ∧ C < s.headView
  | .moved tail => tail = c.cursor C ∧ C < s.headView
  | .destroyed tail => tail = c.cursor C ∧ C < s.headView

/-- The invariant, with `C` the number of slots released so far. -/
structure Inv (s : SpscState c T) (C : ℕ) : Prop where
  head : s.ring.head = c.versions s.pushed.length
  tail : s.ring.tail = c.versions C
  tailView_le : s.tailView ≤ C
  tailView_ge : s.pushed.length + 1 ≤ s.tailView + c.size
  headView_le : s.headView ≤ s.pushed.length
  headView_ge : C ≤ s.headView
  popped : s.popped = s.pushed.take (C + s.consumer.held)
  producer : s.ProducerOk
  consumer : s.ConsumerOk C
  slots : ∀ n, C ≤ n → n < C + c.size → s.ring.slots (c.slot n) = s.expected C n
  faults : s.faults = []

theorem inv_fresh (c : Capacity) (T : Type) : Inv (.fresh c T) 0 where
  head := c.versions_zero.symm
  tail := c.versions_zero.symm
  tailView_le := le_rfl
  tailView_ge := by have := c.two_le_size; simp [SpscState.fresh]; omega
  headView_le := le_rfl
  headView_ge := le_rfl
  popped := rfl
  producer := trivial
  consumer := trivial
  slots := fun n _ _ => by simp [SpscState.fresh, SpscState.expected]
  faults := rfl

/-! ### What a slot holds -/

section Expected

variable {s : SpscState c T} {C n : ℕ}

theorem expected_of_lt (hn : n < s.pushed.length) (hheld : s.consumer.held = 0 ∨ n ≠ C) :
    s.expected C n = .live s.pushed[n] := by
  unfold SpscState.expected
  rw [List.getElem?_eq_getElem hn]
  cases hc : s.consumer <;> simp_all [Consumer.held]

theorem expected_of_ge (hn : s.pushed.length ≤ n)
    (hp : ∀ value next, s.producer = .constructed value next → n ≠ s.pushed.length) :
    s.expected C n = .raw := by
  unfold SpscState.expected
  rw [List.getElem?_eq_none hn]
  cases hprod : s.producer with
  | constructed value next => simp [hp value next hprod]
  | _ => rfl

/-- `expected` reads the pushed values and the two program points only. -/
theorem expected_congr {s' : SpscState c T} (hpushed : s'.pushed = s.pushed)
    (hc : s.consumer.held = 0 ∧ s'.consumer.held = 0 ∨ s'.consumer = s.consumer)
    (hp : (∀ value next, s.producer ≠ .constructed value next) ∧
        (∀ value next, s'.producer ≠ .constructed value next) ∨ s'.producer = s.producer) :
    s'.expected C n = s.expected C n := by
  unfold SpscState.expected
  rw [hpushed]
  cases s.pushed[n]? with
  | some value =>
    rcases hc with ⟨h, h'⟩ | h
    · cases hs : s.consumer <;> cases hs' : s'.consumer <;> simp_all [Consumer.held]
    · rw [h]
  | none =>
    rcases hp with ⟨h, h'⟩ | h
    · cases hs : s.producer <;> cases hs' : s'.producer <;> simp_all
    · rw [h]

end Expected

/-! ### The steps -/

section Steps

variable {s : SpscState c T} {C : ℕ} {value : T} {how : Passing} {head tail : SizeT} {version : ℕ}

/-- A view of the tail that is at most `C` and does not wrap onto the head leaves room. -/
theorem room_of_ne (h : Inv s C) (hview : s.tailView ≤ version)
    (hne : c.cursor (s.pushed.length + 1) ≠ c.cursor version) :
    s.pushed.length + 2 ≤ version + c.size := by
  have hge := h.tailView_ge
  by_contra hlt
  have hsame : s.pushed.length + 1 = version + c.size := by omega
  refine hne ?_
  unfold Capacity.cursor
  rw [hsame, Nat.add_mod_right]

/-- A view of the head that differs from the tail shows an element. -/
theorem item_of_ne (h : Inv s C) (hview : s.headView ≤ version)
    (hne : c.cursor C ≠ c.cursor version) : C < version := by
  have hge := h.headView_ge
  rcases Nat.lt_or_ge C version with hlt | hle
  · exact hlt
  · exact absurd (by rw [show version = C by omega]) hne

/-- A step of the producer that writes neither a slot nor its cursor. -/
theorem inv_producer (h : Inv s C) {p : Producer T} {result : Option Bool} {arg : Slot T}
    {written : Bool} (hview : s.tailView ≤ version) (hle : version ≤ C)
    (hold : ∀ value next, s.producer ≠ .constructed value next)
    (hnew : ∀ value next, p ≠ .constructed value next)
    (hok : { s with
      producer := p
      tailView := version
      pushResult := result
      arg := arg
      written := written }.ProducerOk) :
    Inv { s with
      producer := p
      tailView := version
      pushResult := result
      arg := arg
      written := written } C := by
  have hge := h.tailView_ge
  refine ⟨h.head, h.tail, hle, by dsimp only; omega, h.headView_le, h.headView_ge, h.popped, hok,
    h.consumer, fun n hn hn' => ?_, h.faults⟩
  refine (h.slots n hn hn').trans (Eq.symm ?_)
  exact expected_congr rfl (Or.inr rfl) (Or.inl ⟨hold, hnew⟩)

/-- A step of the consumer that writes neither a slot nor its cursor. -/
theorem inv_consumer (h : Inv s C) {k : Consumer} {result : Option Bool}
    (hview : s.headView ≤ version) (hle : version ≤ s.pushed.length)
    (hold : s.consumer.held = 0) (hnew : k.held = 0)
    (hok : { s with
      consumer := k
      headView := version
      popResult := result }.ConsumerOk C) :
    Inv { s with
      consumer := k
      headView := version
      popResult := result } C := by
  have hpopped := h.popped
  rw [hold, ← hnew] at hpopped
  refine ⟨h.head, h.tail, h.tailView_le, h.tailView_ge, hle, h.headView_ge.trans hview, hpopped,
    h.producer, hok, fun n hn hn' => ?_, h.faults⟩
  refine (h.slots n hn hn').trans (Eq.symm ?_)
  exact expected_congr rfl (Or.inl ⟨hold, hnew⟩) (Or.inr rfl)

theorem inv_construct (h : Inv s C) (hp : s.producer = .hasRoom value how head) :
    Inv { s.constructAt head value with
      producer := .constructed value (c.increment head)
      arg := match how with
        | .copy => s.arg
        | .move => .movedFrom
      written := true } C := by
  have hprod := h.producer
  simp only [SpscState.ProducerOk, hp] at hprod
  obtain ⟨rfl, hroom, -, -⟩ := hprod
  have hview := h.tailView_le
  have hCP : C ≤ s.pushed.length := h.headView_ge.trans h.headView_le
  have hraw : s.ring.slots (c.slot s.pushed.length) = .raw := by
    rw [h.slots _ hCP (by omega)]
    exact expected_of_ge le_rfl fun v n hn => by rw [hp] at hn; cases hn
  refine ⟨h.head, h.tail, h.tailView_le, h.tailView_ge, h.headView_le, h.headView_ge, h.popped,
    ?_, h.consumer, fun n hn hn' => ?_, ?_⟩
  · exact ⟨c.increment_cursor _, hroom, rfl⟩
  · simp only [SpscState.constructAt, Capacity.ptr_cursor]
    by_cases hnP : n = s.pushed.length
    · subst hnP
      rw [Function.update_self]
      simp [SpscState.expected]
    · have hslot : c.slot n ≠ c.slot s.pushed.length := fun he =>
        hnP (c.slot_inj ⟨hn, hn'⟩ ⟨hCP, by omega⟩ he)
      rw [Function.update_of_ne hslot, h.slots n hn hn']
      unfold SpscState.expected
      simp only [hp, hnP, if_false]
  · simp only [SpscState.constructAt, Capacity.ptr_cursor, hraw]
    exact h.faults

theorem inv_storeHead (h : Inv s C) {next : SizeT} (hp : s.producer = .constructed value next) :
    Inv { s with
      ring := { s.ring with head := s.ring.head ++ [next] }
      producer := .idle
      pushResult := some true
      pushed := s.pushed ++ [value] } C := by
  have hprod := h.producer
  simp only [SpscState.ProducerOk, hp] at hprod
  obtain ⟨rfl, hroom, -⟩ := hprod
  have hle := h.headView_le
  have hheld : s.consumer.held = 0 ∨ C + 1 ≤ s.pushed.length := by
    have hc := h.consumer
    unfold SpscState.ConsumerOk at hc
    cases hcons : s.consumer <;> simp only [hcons] at hc <;> simp [Consumer.held] <;> omega
  refine ⟨?_, h.tail, h.tailView_le, ?_, ?_, h.headView_ge, ?_, trivial, h.consumer,
    fun n hn hn' => ?_, h.faults⟩
  · simp only [List.length_append, List.length_singleton, h.head, ← c.versions_succ]
  · simp only [List.length_append, List.length_singleton]
    omega
  · simp only [List.length_append, List.length_singleton]
    omega
  · have hCP : C + s.consumer.held ≤ s.pushed.length := by
      have := h.headView_ge
      have hone : s.consumer.held ≤ 1 := by cases s.consumer <;> simp [Consumer.held]
      omega
    dsimp only
    rw [h.popped, List.take_append_of_le_length hCP]
  · dsimp only
    rw [h.slots n hn hn']
    unfold SpscState.expected
    dsimp only
    rcases Nat.lt_trichotomy n s.pushed.length with hlt | heq | hgt
    · rw [List.getElem?_append_left hlt, List.getElem?_eq_getElem hlt]
    · subst heq
      have hnC : s.consumer.held = 0 ∨ s.pushed.length ≠ C := by omega
      rw [List.getElem?_append_right le_rfl, Nat.sub_self, List.getElem?_eq_none le_rfl]
      cases hcons : s.consumer <;> simp_all [Consumer.held]
    · have hne : n ≠ s.pushed.length := by omega
      have hlen : (s.pushed ++ [value]).length ≤ n := by
        simp only [List.length_append, List.length_singleton]
        omega
      rw [List.getElem?_eq_none hlen, List.getElem?_eq_none (by omega)]
      simp [hp, hne]

/-- The slot the consumer is about to read holds the oldest element. -/
theorem slot_hasItem (h : Inv s C) (hc : s.consumer = .hasItem tail) :
    ∃ hlt : C < s.pushed.length, tail = c.cursor C ∧
      s.ring.slots (c.slot C) = .live s.pushed[C] := by
  have hcons := h.consumer
  simp only [SpscState.ConsumerOk, hc] at hcons
  have hlt : C < s.pushed.length := hcons.2.trans_le h.headView_le
  refine ⟨hlt, hcons.1, ?_⟩
  rw [h.slots C le_rfl (by have := c.two_le_size; omega)]
  exact expected_of_lt hlt (Or.inl (by rw [hc]; rfl))

/-- Rewriting the slot of the oldest element. -/
theorem slots_update_oldest (h : Inv s C) {s' : SpscState c T} {x : Slot T}
    (hslots : s'.ring.slots = Function.update s.ring.slots (c.slot C) x)
    (hat : s'.expected C C = x) (hother : ∀ n, n ≠ C → s'.expected C n = s.expected C n) :
    ∀ n, C ≤ n → n < C + c.size → s'.ring.slots (c.slot n) = s'.expected C n := by
  intro n hn hn'
  rw [hslots]
  by_cases hnC : n = C
  · subst hnC
    rw [Function.update_self, hat]
  · have hslot : c.slot n ≠ c.slot C := fun he =>
      hnC (c.slot_inj ⟨hn, hn'⟩ ⟨le_rfl, by have := c.two_le_size; omega⟩ he)
    rw [Function.update_of_ne hslot, h.slots n hn hn', hother n hnC]

theorem inv_move (h : Inv s C) (hc : s.consumer = .hasItem tail) :
    Inv { s.moveOut tail with consumer := .moved tail } C ∧
      ∃ hlt : C < s.pushed.length, (s.moveOut tail).popped = s.popped ++ [s.pushed[C]] := by
  have hcons := h.consumer
  simp only [SpscState.ConsumerOk, hc] at hcons
  obtain ⟨hlt, rfl, hlive⟩ := slot_hasItem h hc
  have hmove : s.moveOut (c.cursor C) =
      { s with
        ring := { s.ring with slots := Function.update s.ring.slots (c.slot C) .movedFrom }
        popped := s.popped ++ [s.pushed[C]] } := by
    simp only [SpscState.moveOut, Capacity.ptr_cursor, hlive]
  rw [hmove]
  refine ⟨⟨h.head, h.tail, h.tailView_le, h.tailView_ge, h.headView_le, h.headView_ge, ?_,
    h.producer, hcons, ?_, h.faults⟩, hlt, rfl⟩
  · dsimp only
    rw [h.popped, hc]
    exact List.take_concat_get' s.pushed C hlt
  · refine slots_update_oldest h rfl ?_ fun n hn => ?_
    · simp [SpscState.expected, hlt]
    · unfold SpscState.expected
      simp only [hc, hn, if_false]

theorem inv_destroy (h : Inv s C) (hc : s.consumer = .moved tail) :
    Inv { s.destroyAt tail with consumer := .destroyed tail } C := by
  have hcons := h.consumer
  simp only [SpscState.ConsumerOk, hc] at hcons
  have hlt : C < s.pushed.length := hcons.2.trans_le h.headView_le
  have hslot : s.ring.slots (c.ptr tail) = .movedFrom := by
    rw [hcons.1, Capacity.ptr_cursor, h.slots C le_rfl (by have := c.two_le_size; omega)]
    simp [SpscState.expected, hlt, hc]
  refine ⟨h.head, h.tail, h.tailView_le, h.tailView_ge, h.headView_le, h.headView_ge, ?_,
    h.producer, hcons, ?_, ?_⟩
  · have hp := h.popped
    rw [hc] at hp
    exact hp
  · refine slots_update_oldest h (x := .raw) ?_ ?_ fun n hn => ?_
    · simp only [SpscState.destroyAt, hcons.1, Capacity.ptr_cursor]
    · simp [SpscState.destroyAt, SpscState.expected, hlt]
    · unfold SpscState.expected
      simp only [SpscState.destroyAt, hc, hn, if_false]
  · simp only [SpscState.destroyAt, hslot]
    exact h.faults

theorem inv_storeTail (h : Inv s C) (hc : s.consumer = .destroyed tail) :
    Inv { s with
      ring := { s.ring with tail := s.ring.tail ++ [c.increment tail] }
      consumer := .idle
      popResult := some true } (C + 1) := by
  have hcons := h.consumer
  simp only [SpscState.ConsumerOk, hc] at hcons
  obtain ⟨rfl, hlt⟩ := hcons
  have hview := h.headView_le
  have hge := h.tailView_ge
  have htv := h.tailView_le
  refine ⟨h.head, ?_, by dsimp only; omega, h.tailView_ge, h.headView_le, hlt, ?_, h.producer,
    trivial, fun n hn hn' => ?_, h.faults⟩
  · dsimp only
    rw [h.tail, c.increment_cursor, ← c.versions_succ]
  · have hp := h.popped
    rw [hc] at hp
    exact hp
  · dsimp only
    by_cases hnew : n = C + c.size
    · -- the slot released last comes back as the newest slot of the window
      have hwrap : c.slot n = c.slot C := by
        apply Fin.ext
        simp [Capacity.slot, hnew]
      rw [hwrap, h.slots C le_rfl (by have := c.two_le_size; omega)]
      have hraw : s.expected C C = .raw := by
        simp [SpscState.expected, hlt.trans_le hview, hc]
      rw [hraw]
      refine (expected_of_ge (by dsimp only; omega) fun v next hv => ?_).symm
      dsimp only
      omega
    · rw [h.slots n (by omega) (by omega)]
      unfold SpscState.expected
      have hnC : n ≠ C := by omega
      simp only [hc, hnC, if_false]

/-- **Every step preserves the invariant**, releasing a slot exactly when the tail is stored. -/
theorem inv_step {a : SpscAction T} {s' : SpscState c T} (h : Inv s C) (hs : SpscStep s a s') :
    ∃ C', Inv s' C' := by
  cases hs with
  | callPush value how hp =>
    exact ⟨C, inv_producer h le_rfl h.tailView_le (by simp [hp]) (by simp) ⟨rfl, rfl⟩⟩
  | loadHead hp hload =>
    have hprod := h.producer
    simp only [SpscState.ProducerOk, hp] at hprod
    rw [h.head, c.getLast?_versions] at hload
    cases hload
    exact ⟨C, inv_producer h le_rfl h.tailView_le (by simp [hp]) (by simp) ⟨rfl, hprod⟩⟩
  | loadTailFull version hp hview hload hfull =>
    rw [h.tail] at hload
    obtain ⟨hle, rfl⟩ := c.getElem?_versions hload
    exact ⟨C, inv_producer h hview hle (by simp [hp]) (by simp) trivial⟩
  | loadTailRoom version hp hview hload hroom =>
    have hprod := h.producer
    simp only [SpscState.ProducerOk, hp] at hprod
    obtain ⟨rfl, harg, hwritten⟩ := hprod
    rw [h.tail] at hload
    obtain ⟨hle, rfl⟩ := c.getElem?_versions hload
    rw [c.increment_cursor] at hroom
    have hlt := room_of_ne h hview hroom
    exact ⟨C, inv_producer h hview hle (by simp [hp]) (by simp) ⟨rfl, hlt, harg, hwritten⟩⟩
  | construct hp => exact ⟨C, inv_construct h hp⟩
  | storeHead hp => exact ⟨C, inv_storeHead h hp⟩
  | callPop hc =>
    exact ⟨C, inv_consumer h le_rfl h.headView_le (by rw [hc]; rfl) rfl trivial⟩
  | loadOwnTail hc hload =>
    rw [h.tail, c.getLast?_versions] at hload
    cases hload
    exact ⟨C, inv_consumer h le_rfl h.headView_le (by rw [hc]; rfl) rfl rfl⟩
  | loadHeadEmpty version hc hview hload hempty =>
    rw [h.head] at hload
    obtain ⟨hle, rfl⟩ := c.getElem?_versions hload
    exact ⟨C, inv_consumer h hview hle (by rw [hc]; rfl) rfl trivial⟩
  | loadHeadItem version hc hview hload hitem =>
    have hcons := h.consumer
    simp only [SpscState.ConsumerOk, hc] at hcons
    subst hcons
    rw [h.head] at hload
    obtain ⟨hle, rfl⟩ := c.getElem?_versions hload
    have hlt := item_of_ne h hview hitem
    exact ⟨C, inv_consumer h hview hle (by rw [hc]; rfl) rfl ⟨rfl, hlt⟩⟩
  | move hc => exact ⟨C, (inv_move h hc).1⟩
  | destroy hc => exact ⟨C, inv_destroy h hc⟩
  | storeTail hc => exact ⟨C + 1, inv_storeTail h hc⟩

end Steps

/-- The invariant holds in every reachable state. -/
theorem inv_reachable {s : SpscState c T} (h : (spsc c T).Reachable s) : ∃ C, Inv s C :=
  h.induct (I := fun s => ∃ C, Inv s C) (by rintro _ rfl; exact ⟨0, inv_fresh c T⟩)
    fun _ _ _ ⟨_, hi⟩ hs => inv_step hi hs

end Hft.Concurrency
