import HftArb.Bench.Pipeline
import HftArb.Bench.QueueStats
import HftArb.Concurrency.BoundedBlockingQueue

/-!
# `run_normal_queue_pipeline`

The lambdas `push_wait` and `pop_wait` over a blocking queue, whose two threads are the ends of the
queue.  A step is one step of `push_wait` or `pop_wait` of the queue, as in `Blocking.Step`, or one
access of the statistics.  `size_approx` holds the mutex while it reads the size, so it is one step
that is taken when the mutex is free.
-/

namespace Hft.Concurrency.Blocking

/-- The thread that makes a step. -/
def Action.thread {ι T : Type} : Action ι T → ι
  | .call i _ | .lock i | .test i | .act i | .notify i _ | .unlock i | .relock i | .wakeUp i => i

end Hft.Concurrency.Blocking

namespace Hft.Bench

open Concurrency

/-- A blocking queue and its statistics. -/
structure WaitQueue where
  queue : Blocking.State Endpoint PipelineEvent := {}
  stats : QueueStats Endpoint := {}

/-- Where a thread is in `push_wait` or `pop_wait`. -/
inductive WaitPc
  | calling
  /-- In the queue's `push_wait` or `pop_wait`; `did` once the queue has been changed. -/
  | inside (did : Bool)
  /-- Had to wait: before `full_events.fetch_add`. -/
  | waited
  /-- Before `size_approx`. -/
  | sizing
  | observing

/-- The accesses. -/
inductive WaitLabel
  | queue (a : Blocking.Action Endpoint PipelineEvent)
  | size
  | stats (a : QueueStats.Action Endpoint)

/-- `push_wait(std::move(event), &had_to_wait)` or `pop_wait(event)`. -/
def waitCall (event : PipelineEvent) : Endpoint → Blocking.Call PipelineEvent
  | .producer => .push event true
  | .consumer => .pop

/-- What a thread does after the call has returned. -/
def WaitPc.after (e : Endpoint) (hadToWait : Option Bool) : WaitPc :=
  match e with
  | .producer => if hadToWait = some true then .waited else .sizing
  | .consumer => .sizing

/-- The event that the caller has after the queue was changed. -/
def takenBy (e : Endpoint) (event : PipelineEvent) (q : Blocking.State Endpoint PipelineEvent) :
    Option PipelineEvent :=
  match e with
  | .producer => some event
  | .consumer => q.popped.getLast?.map Prod.snd

/-- One step of `push_wait` at the producing end, or of `pop_wait` at the consuming end. -/
inductive WaitStep (capacity : ℕ) : Endpoint → WaitLabel → WaitQueue × PipelineEvent × WaitPc →
    WaitQueue × PipelineEvent × WaitPc → Prop
  | call {e : Endpoint} {q : WaitQueue} {event : PipelineEvent}
      {r : Blocking.State Endpoint PipelineEvent}
      (hs : Blocking.Step capacity q.queue (.call e (waitCall event e)) r) :
      WaitStep capacity e (.queue (.call e (waitCall event e))) (q, event, .calling)
        ({ q with queue := r }, event, .inside false)
  | work {e : Endpoint} {q : WaitQueue} {event : PipelineEvent} {did : Bool}
      {a : Blocking.Action Endpoint PipelineEvent} {r : Blocking.State Endpoint PipelineEvent}
      (ha : a.thread = e) (hact : a ≠ .act e) (hunlock : a ≠ .unlock e)
      (hin : q.queue.phase e ≠ .idle) (hs : Blocking.Step capacity q.queue a r) :
      WaitStep capacity e (.queue a) (q, event, .inside did)
        ({ q with queue := r }, event, .inside did)
  | act {e : Endpoint} {q : WaitQueue} {event event' : PipelineEvent} {did : Bool}
      {r : Blocking.State Endpoint PipelineEvent} (hs : Blocking.Step capacity q.queue (.act e) r)
      (hevent : takenBy e event r = some event') :
      WaitStep capacity e (.queue (.act e)) (q, event, .inside did)
        ({ q with queue := r }, event', .inside true)
  | ret {e : Endpoint} {q : WaitQueue} {event : PipelineEvent} {did : Bool}
      {r : Blocking.State Endpoint PipelineEvent}
      (hs : Blocking.Step capacity q.queue (.unlock e) r) :
      WaitStep capacity e (.queue (.unlock e)) (q, event, .inside did)
        ({ q with queue := r }, event, .after e (r.hadToWait e))
  | countFull {e : Endpoint} {q : WaitQueue} {event : PipelineEvent} {t : QueueStats Endpoint}
      (hs : QueueStats.Step q.stats (.countFull e) t) :
      WaitStep capacity e (.stats (.countFull e)) (q, event, .waited)
        ({ q with stats := t }, event, .sizing)
  | size {e : Endpoint} {q : WaitQueue} {event : PipelineEvent} {t : QueueStats Endpoint}
      (free : q.queue.owner = none)
      (hs : QueueStats.Step q.stats (.call e q.queue.queue.length) t) :
      WaitStep capacity e .size (q, event, .sizing) ({ q with stats := t }, event, .observing)
  | observe {e : Endpoint} {q : WaitQueue} {event : PipelineEvent}
      {a : QueueStats.Action Endpoint} {t : QueueStats Endpoint} (ha : a.Inside e)
      (hs : QueueStats.Step q.stats a t) :
      WaitStep capacity e (.stats a) (q, event, .observing) ({ q with stats := t }, event, .observing)

/-- The lambdas of `run_normal_queue_pipeline`. -/
def wait (capacity : ℕ) : Lambdas where
  Queue := WaitQueue
  Pc := WaitPc
  Label := WaitLabel
  fresh := {}
  enter := .calling
  step := WaitStep capacity
  returns := fun e q pc => pc = .observing ∧ q.stats.phase e = .idle

end Hft.Bench
