import HftArb.Lib.Transition

/-!
# `concurrency/spsc_ring_buffer`: one producer, one consumer

The ring buffer as a transition system.  Producer and consumer run `try_emplace` and `try_pop`
one atomic step at a time, in any interleaving: each cursor load, slot construction, slot move,
slot destruction and cursor store is a step.

* Cursors are `size_t`, here `BitVec 64`; the capacity is a power of two that fits.
* A cursor keeps the list of all values it has held.  A thread reads its own cursor exactly, and
  from the other's cursor any version not older than the one it read last (`tailView`,
  `headView`): what coherence leaves open to an acquire load.
* Slots are raw memory: constructing over an object, or moving from or destroying where there is
  none, is recorded as a `Fault` and not prevented.

`arg`, `written`, `pushed`, `popped` and `faults` observe the run; no step reads them.
-/

namespace Hft.Concurrency

open Transition

/-- `std::size_t`. -/
abbrev SizeT := BitVec 64

/-- A capacity that passes the `static_assert`s: a power of two, at least two. -/
structure Capacity where
  log2 : ℕ
  two_le : 1 ≤ log2
  fits : log2 < 64

namespace Capacity

variable (c : Capacity)

/-- `Capacity` as a number. -/
def size : ℕ := 2 ^ c.log2

/-- `mask_ = Capacity - 1`. -/
def mask : SizeT := BitVec.ofNat 64 c.size - 1

/-- `increment`. -/
def increment (index : SizeT) : SizeT := (index + 1) &&& c.mask

theorem two_le_size : 2 ≤ c.size := by
  unfold size
  calc 2 = 2 ^ 1 := rfl
    _ ≤ 2 ^ c.log2 := Nat.pow_le_pow_right (by omega) c.two_le

theorem size_lt : c.size < 2 ^ 64 := Nat.pow_lt_pow_right (by omega) c.fits

theorem toNat_and_mask (index : SizeT) : (index &&& c.mask).toNat = index.toNat % c.size := by
  have hmask : c.mask.toNat = 2 ^ c.log2 - 1 := by
    have h2 := c.two_le_size
    have hlt := c.size_lt
    unfold mask
    rw [BitVec.toNat_sub_of_le, BitVec.toNat_ofNat, Nat.mod_eq_of_lt hlt]
    · rfl
    · rw [BitVec.le_def, BitVec.toNat_ofNat, Nat.mod_eq_of_lt hlt]
      change 1 ≤ c.size
      omega
  rw [BitVec.toNat_and, hmask, Nat.and_two_pow_sub_one_eq_mod]
  rfl

/-- `ptr(index)`: the slot a cursor value addresses. -/
def ptr (index : SizeT) : Fin c.size :=
  ⟨(index &&& c.mask).toNat, by
    rw [toNat_and_mask]
    exact Nat.mod_lt _ (by have := c.two_le_size; omega)⟩

end Capacity

/-- A slot of raw storage. -/
inductive Slot (T : Type)
  | raw
  | live (value : T)
  | movedFrom

/-- How the argument of a push is passed: `try_push(const T&)` copies it, `try_push(T&&)` and
`try_emplace` move it. -/
inductive Passing
  | copy
  | move

/-- Misuse of a slot. -/
inductive Fault
  | constructOverObject
  | readRaw
  | destroyRaw

/-- `head_`, `tail_` and `slots_`.  Cursors are given by all values they have held, oldest
first. -/
structure Ring (c : Capacity) (T : Type) where
  slots : Fin c.size → Slot T
  head : List SizeT
  tail : List SizeT

/-- Where the producer is in `try_emplace`. -/
inductive Producer (T : Type)
  | idle
  | entered (value : T) (how : Passing)
  | gotHead (value : T) (how : Passing) (head : SizeT)
  | hasRoom (value : T) (how : Passing) (head : SizeT)
  | constructed (value : T) (next : SizeT)

/-- Where the consumer is in `try_pop`; both overloads take the same steps. -/
inductive Consumer
  | idle
  | entered
  | gotTail (tail : SizeT)
  | hasItem (tail : SizeT)
  | moved (tail : SizeT)
  | destroyed (tail : SizeT)

/-- The state of buffer, producer and consumer. -/
structure SpscState (c : Capacity) (T : Type) where
  ring : Ring c T
  producer : Producer T := .idle
  tailView : ℕ := 0
  pushResult : Option Bool := none
  consumer : Consumer := .idle
  headView : ℕ := 0
  popResult : Option Bool := none
  /-- The caller's argument of the current or last push. -/
  arg : Slot T := .raw
  /-- The producer has written to the buffer since the current or last push was called. -/
  written : Bool := false
  /-- The values of the successful pushes. -/
  pushed : List T := []
  /-- The values moved out by the consumer. -/
  popped : List T := []
  faults : List Fault := []

/-- The steps of the two threads; `version` is the version of the other's cursor that is read. -/
inductive SpscAction (T : Type)
  | callPush (value : T) (how : Passing)
  | loadHead
  | loadTail (version : ℕ)
  | construct
  | storeHead
  | callPop
  | loadOwnTail
  | loadOtherHead (version : ℕ)
  | move
  | destroy
  | storeTail

variable {c : Capacity} {T : Type}

/-- `std::construct_at(ptr(head), value)`. -/
def SpscState.constructAt (s : SpscState c T) (head : SizeT) (value : T) : SpscState c T :=
  { s with
    ring := { s.ring with slots := Function.update s.ring.slots (c.ptr head) (.live value) }
    faults := match s.ring.slots (c.ptr head) with
      | .raw => s.faults
      | _ => s.faults ++ [.constructOverObject] }

/-- `out = std::move(*ptr(tail))`. -/
def SpscState.moveOut (s : SpscState c T) (tail : SizeT) : SpscState c T :=
  match s.ring.slots (c.ptr tail) with
  | .live value =>
      { s with
        ring := { s.ring with slots := Function.update s.ring.slots (c.ptr tail) .movedFrom }
        popped := s.popped ++ [value] }
  | _ => { s with faults := s.faults ++ [.readRaw] }

@[simp]
theorem SpscState.moveOut_pushed (s : SpscState c T) (tail : SizeT) :
    (s.moveOut tail).pushed = s.pushed := by
  unfold moveOut
  split <;> rfl

@[simp]
theorem SpscState.moveOut_producer (s : SpscState c T) (tail : SizeT) :
    (s.moveOut tail).producer = s.producer := by
  unfold moveOut
  split <;> rfl

/-- `std::destroy_at(ptr(tail))`. -/
def SpscState.destroyAt (s : SpscState c T) (tail : SizeT) : SpscState c T :=
  { s with
    ring := { s.ring with slots := Function.update s.ring.slots (c.ptr tail) .raw }
    faults := match s.ring.slots (c.ptr tail) with
      | .raw => s.faults ++ [.destroyRaw]
      | _ => s.faults }

@[simp]
theorem SpscState.destroyAt_producer (s : SpscState c T) (tail : SizeT) :
    (s.destroyAt tail).producer = s.producer := rfl

/-- One atomic step of `try_emplace` or `try_pop`. -/
inductive SpscStep : SpscState c T → SpscAction T → SpscState c T → Prop
  | callPush {s : SpscState c T} (value : T) (how : Passing) (hp : s.producer = .idle) :
      SpscStep s (.callPush value how)
        { s with producer := .entered value how, arg := .live value, written := false }
  | loadHead {s : SpscState c T} {value : T} {how : Passing} {head : SizeT}
      (hp : s.producer = .entered value how) (hload : s.ring.head.getLast? = some head) :
      SpscStep s .loadHead { s with producer := .gotHead value how head }
  | loadTailFull {s : SpscState c T} {value : T} {how : Passing} {head tail : SizeT} (version : ℕ)
      (hp : s.producer = .gotHead value how head) (hview : s.tailView ≤ version)
      (hload : s.ring.tail[version]? = some tail) (hfull : c.increment head = tail) :
      SpscStep s (.loadTail version)
        { s with producer := .idle, tailView := version, pushResult := some false }
  | loadTailRoom {s : SpscState c T} {value : T} {how : Passing} {head tail : SizeT} (version : ℕ)
      (hp : s.producer = .gotHead value how head) (hview : s.tailView ≤ version)
      (hload : s.ring.tail[version]? = some tail) (hroom : c.increment head ≠ tail) :
      SpscStep s (.loadTail version)
        { s with producer := .hasRoom value how head, tailView := version }
  | construct {s : SpscState c T} {value : T} {how : Passing} {head : SizeT}
      (hp : s.producer = .hasRoom value how head) :
      SpscStep s .construct
        { s.constructAt head value with
          producer := .constructed value (c.increment head)
          arg := match how with
            | .copy => s.arg
            | .move => .movedFrom
          written := true }
  | storeHead {s : SpscState c T} {value : T} {next : SizeT}
      (hp : s.producer = .constructed value next) :
      SpscStep s .storeHead
        { s with
          ring := { s.ring with head := s.ring.head ++ [next] }
          producer := .idle
          pushResult := some true
          pushed := s.pushed ++ [value] }
  | callPop {s : SpscState c T} (hc : s.consumer = .idle) :
      SpscStep s .callPop { s with consumer := .entered }
  | loadOwnTail {s : SpscState c T} {tail : SizeT} (hc : s.consumer = .entered)
      (hload : s.ring.tail.getLast? = some tail) :
      SpscStep s .loadOwnTail { s with consumer := .gotTail tail }
  | loadHeadEmpty {s : SpscState c T} {tail head : SizeT} (version : ℕ)
      (hc : s.consumer = .gotTail tail) (hview : s.headView ≤ version)
      (hload : s.ring.head[version]? = some head) (hempty : tail = head) :
      SpscStep s (.loadOtherHead version)
        { s with consumer := .idle, headView := version, popResult := some false }
  | loadHeadItem {s : SpscState c T} {tail head : SizeT} (version : ℕ)
      (hc : s.consumer = .gotTail tail) (hview : s.headView ≤ version)
      (hload : s.ring.head[version]? = some head) (hitem : tail ≠ head) :
      SpscStep s (.loadOtherHead version)
        { s with consumer := .hasItem tail, headView := version }
  | move {s : SpscState c T} {tail : SizeT} (hc : s.consumer = .hasItem tail) :
      SpscStep s .move { s.moveOut tail with consumer := .moved tail }
  | destroy {s : SpscState c T} {tail : SizeT} (hc : s.consumer = .moved tail) :
      SpscStep s .destroy { s.destroyAt tail with consumer := .destroyed tail }
  | storeTail {s : SpscState c T} {tail : SizeT} (hc : s.consumer = .destroyed tail) :
      SpscStep s .storeTail
        { s with
          ring := { s.ring with tail := s.ring.tail ++ [c.increment tail] }
          consumer := .idle
          popResult := some true }

/-- The freshly constructed buffer: raw slots and both cursors at zero. -/
def SpscState.fresh (c : Capacity) (T : Type) : SpscState c T where
  ring := { slots := fun _ => .raw, head := [0], tail := [0] }

/-- The buffer with its two threads. -/
def spsc (c : Capacity) (T : Type) : System (SpscState c T) (SpscAction T) where
  init s := s = .fresh c T
  step := SpscStep

end Hft.Concurrency
