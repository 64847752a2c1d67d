import HftArb.Lib.Threads
import HftArb.Lib.Transition

/-!
# `concurrency/bounded_blocking_queue`: any number of threads

The queue with a mutex and two condition variables as a transition system.  Any number of threads
`ι` call `push_wait` and `pop_wait`; a step is what one thread does between two points at which
another may run: take the mutex, evaluate the predicate of a wait, change the deque, notify,
release the mutex.

* `cv.wait(lock, pred)` is `while (!pred()) cv.wait(lock)`: a thread whose predicate is false
  releases the mutex and blocks in one step, and evaluates the predicate again, with the mutex,
  after it was woken.
* `notify_one` wakes an arbitrary thread blocked on the condition variable, if there is one.
* A blocked thread may wake up without being notified.

`called`, `returned`, `pushed` and `popped` observe the run; no step reads them.
-/

namespace Hft.Concurrency.Blocking

open Transition

/-- A call of `push_wait`, with `had_to_wait` a null pointer or not, or of `pop_wait`. -/
inductive Call (T : Type)
  | push (value : T) (hadToWait : Bool)
  | pop

/-- What a call has done to the queue. -/
inductive Outcome (T : Type)
  | pushed
  | popped (value : T)

/-- The two condition variables. -/
inductive Condition
  | notFull
  | notEmpty
  deriving DecidableEq

variable {ι T : Type}

/-- The condition variable a call waits on. -/
def Call.waitsOn : Call T → Condition
  | .push _ _ => .notFull
  | .pop => .notEmpty

/-- The condition variable that is notified after the queue was changed. -/
def Outcome.notifies : Outcome T → Condition
  | .pushed => .notEmpty
  | .popped _ => .notFull

/-- The predicate of the wait. -/
def Call.ready (capacity : ℕ) (queue : List T) : Call T → Bool
  | .push _ _ => queue.length < capacity
  | .pop => !queue.isEmpty

/-- Where a thread is.  `testing`, `acting`, `notifying` and `leaving` are inside the mutex. -/
inductive Phase (T : Type)
  /-- Not in a call: before its first, between two, or after its last. -/
  | idle
  | entering (c : Call T)
  | testing (c : Call T)
  /-- In the wait, not notified. -/
  | blocked (c : Call T)
  /-- Out of the wait, before it has the mutex again. -/
  | woken (c : Call T)
  | acting (c : Call T)
  | notifying (o : Outcome T)
  | leaving (o : Outcome T)

/-- The queue and its threads. -/
structure State (ι T : Type) where
  queue : List T := []
  owner : Option ι := none
  phase : ι → Phase T := fun _ => .idle
  /-- Each thread's `*had_to_wait`. -/
  hadToWait : ι → Option Bool := fun _ => none
  /-- The calls of all threads, oldest first. -/
  called : List (ι × Call T) := []
  /-- What the calls that have returned did. -/
  returned : List (ι × Outcome T) := []
  pushed : List (ι × T) := []
  popped : List (ι × T) := []

/-- The steps, by the thread that takes them. -/
inductive Action (ι T : Type)
  | call (i : ι) (c : Call T)
  | lock (i : ι)
  | test (i : ι)
  | act (i : ι)
  | notify (i : ι) (woken : Option ι)
  | unlock (i : ι)
  | relock (i : ι)
  | wakeUp (i : ι)

variable [DecidableEq ι]

/-- Thread `i` goes on to `p`. -/
def State.goto (s : State ι T) (i : ι) (p : Phase T) : State ι T :=
  { s with phase := Function.update s.phase i p }

/-- Each thread's `*had_to_wait` after the head of the call of thread `i`. -/
def State.flagWait (s : State ι T) (capacity : ℕ) (i : ι) : Call T → ι → Option Bool
  | .push _ true => Function.update s.hadToWait i (some (s.queue.length ≥ capacity))
  | .push _ false | .pop => s.hadToWait

/-- One step of one thread. -/
inductive Step (capacity : ℕ) : State ι T → Action ι T → State ι T → Prop
  | call {s : State ι T} {i : ι} (c : Call T) (hi : s.phase i = .idle) :
      Step capacity s (.call i c) { s.goto i (.entering c) with called := s.called ++ [(i, c)] }
  | lock {s : State ι T} {i : ι} {c : Call T} (hi : s.phase i = .entering c)
      (free : s.owner = none) :
      Step capacity s (.lock i)
        { s.goto i (.testing c) with owner := some i, hadToWait := s.flagWait capacity i c }
  | testTrue {s : State ι T} {i : ι} {c : Call T} (hi : s.phase i = .testing c)
      (ready : c.ready capacity s.queue = true) :
      Step capacity s (.test i) (s.goto i (.acting c))
  | testFalse {s : State ι T} {i : ι} {c : Call T} (hi : s.phase i = .testing c)
      (unready : c.ready capacity s.queue = false) :
      Step capacity s (.test i) { s.goto i (.blocked c) with owner := none }
  | push {s : State ι T} {i : ι} {value : T} {hadToWait : Bool}
      (hi : s.phase i = .acting (.push value hadToWait)) :
      Step capacity s (.act i)
        { s.goto i (.notifying .pushed) with
          queue := s.queue ++ [value]
          pushed := s.pushed ++ [(i, value)] }
  | pop {s : State ι T} {i : ι} {value : T} {rest : List T} (hi : s.phase i = .acting .pop)
      (front : s.queue = value :: rest) :
      Step capacity s (.act i)
        { s.goto i (.notifying (.popped value)) with
          queue := rest
          popped := s.popped ++ [(i, value)] }
  | notifyOne {s : State ι T} {i j : ι} {o : Outcome T} {c : Call T}
      (hi : s.phase i = .notifying o) (hj : s.phase j = .blocked c)
      (waits : c.waitsOn = o.notifies) :
      Step capacity s (.notify i (some j)) ((s.goto i (.leaving o)).goto j (.woken c))
  | notifyNone {s : State ι T} {i : ι} {o : Outcome T} (hi : s.phase i = .notifying o)
      (nobody : ∀ j c, s.phase j = .blocked c → c.waitsOn ≠ o.notifies) :
      Step capacity s (.notify i none) (s.goto i (.leaving o))
  | unlock {s : State ι T} {i : ι} {o : Outcome T} (hi : s.phase i = .leaving o) :
      Step capacity s (.unlock i)
        { s.goto i .idle with owner := none, returned := s.returned ++ [(i, o)] }
  | relock {s : State ι T} {i : ι} {c : Call T} (hi : s.phase i = .woken c)
      (free : s.owner = none) :
      Step capacity s (.relock i) { s.goto i (.testing c) with owner := some i }
  | wakeUp {s : State ι T} {i : ι} {c : Call T} (hi : s.phase i = .blocked c) :
      Step capacity s (.wakeUp i) (s.goto i (.woken c))

/-- The queue of the given capacity, empty at first, and no thread in a call. -/
def blockingQueue (ι T : Type) [DecidableEq ι] (capacity : ℕ) :
    System (State ι T) (Action ι T) where
  init s := s = {}
  step := Step capacity

end Hft.Concurrency.Blocking
