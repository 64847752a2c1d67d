import HftArb.Concurrency.SpscObservers
import HftArb.Lib.Completion
import HftArb.Lib.FifoChain

/-!
# The benchmark's pipeline

`run_spsc_pipeline` and `run_normal_queue_pipeline` are one program: a producer, workers and a sink,
joined by `kQueuesInPipeline` queues.  They differ in the two lambdas that push an event into a queue
and pop one out of it, which here are a parameter (`Lambdas`); everything else is written once.

Thread `0` is the producer, thread `k + 1` pops from queue `k` and, unless it is the last, pushes
into queue `k + 1`: it is `workers[k]`, or the sink.  A step is one step of a lambda, or the local
code between two calls.

`made` and `sunk` observe the run; no step reads them.
-/

namespace Hft.Concurrency

instance : Fintype Endpoint := ⟨{.producer, .consumer}, fun e => by cases e <;> simp⟩

end Hft.Concurrency

namespace Hft.Bench

open Function Transition Concurrency

/-- `PipelineEvent`. -/
structure PipelineEvent where
  seq : BitVec 64 := 0
  createdNs : BitVec 64 := 0
  payload : BitVec 64 := 0
  stop : Bool := false
  deriving DecidableEq

/-- `do_stage_work`. -/
def doStageWork (value : BitVec 64) (stageId : ℕ) : BitVec 64 :=
  let value := value ^^^
    (0x9e3779b97f4a7c15#64 + BitVec.ofNat 64 stageId + (value <<< 6) + (value >>> 2))
  let value := value * 0xbf58476d1ce4e5b9#64
  value ^^^ (value >>> 31)

/-- What thread `stageId` does with an event it has popped: a stop event is passed on as it is. -/
def PipelineEvent.worked (stageId : ℕ) (event : PipelineEvent) : PipelineEvent :=
  if event.stop then event else { event with payload := doStageWork event.payload stageId }

/-- The event the producer makes when its loop variable is `i`: the stop event after the loop. -/
def eventAt (events : BitVec 64) (i : ℕ) (now : BitVec 64) : PipelineEvent :=
  if i < events.toNat then
    { seq := BitVec.ofNat 64 i, createdNs := now, payload := BitVec.ofNat 64 i * 17 }
  else
    { seq := events, createdNs := now, payload := 0, stop := true }

/-- The lambdas `push_spin` and `pop_spin`, or `push_wait` and `pop_wait`: programs that run on a
queue with its statistics and on the caller's event.  The producing end runs the first, the
consuming end the second. -/
structure Lambdas where
  Queue : Type
  /-- Where a thread is in a lambda. -/
  Pc : Type
  Label : Type
  fresh : Queue
  enter : Pc
  step : Endpoint → Label → Queue × PipelineEvent × Pc → Queue × PipelineEvent × Pc → Prop
  /-- The lambda is at its end. -/
  returns : Endpoint → Queue → Pc → Prop

/-- Where a thread is: before the next event, in a lambda, or out of its loop. -/
inductive Thread (Pc : Type)
  | next
  | inCall (e : Endpoint) (event : PipelineEvent) (pc : Pc)
  | finished

/-- Where a thread is in the lambda of an end. -/
def Thread.position {Pc : Type} (e : Endpoint) : Thread Pc → Option (PipelineEvent × Pc)
  | .inCall e' event pc => if e' = e then some (event, pc) else none
  | _ => none

/-- The pipeline. -/
structure Pipeline (L : Lambdas) where
  queue : ℕ → L.Queue := fun _ => L.fresh
  thread : ℕ → Thread L.Pc := fun _ => .next
  /-- The producer's loop variable. -/
  seq : ℕ := 0
  latencies : List (BitVec 64) := []
  /-- The events the producer has made. -/
  made : List PipelineEvent := []
  /-- The events the sink is done with, the stop event included. -/
  sunk : List PipelineEvent := []

namespace Pipeline

variable {L : Lambdas}

/-- The thread at an end of queue `k`. -/
def user (k : ℕ) : Endpoint → ℕ
  | .producer => k
  | .consumer => k + 1

/-- Thread `j` goes on to `t`. -/
def goto (s : Pipeline L) (j : ℕ) (t : Thread L.Pc) : Pipeline L :=
  { s with thread := update s.thread j t }

/-- Queue `k` becomes `q`. -/
def put (s : Pipeline L) (k : ℕ) (q : L.Queue) : Pipeline L :=
  { s with queue := update s.queue k q }

@[simp]
theorem goto_thread_self (s : Pipeline L) (j : ℕ) (t : Thread L.Pc) : (s.goto j t).thread j = t :=
  update_self ..

theorem goto_thread_of_ne (s : Pipeline L) {i j : ℕ} (h : i ≠ j) (t : Thread L.Pc) :
    (s.goto j t).thread i = s.thread i := update_of_ne h _ _

@[simp]
theorem put_thread (s : Pipeline L) (k : ℕ) (q : L.Queue) : (s.put k q).thread = s.thread := rfl

/-- The steps. -/
inductive Action (Label : Type)
  | make (now : BitVec 64)
  | take (k : ℕ)
  | inCall (k : ℕ) (e : Endpoint) (l : Label)
  | passed (k : ℕ)
  | handed (k : ℕ)
  | sunk (k : ℕ) (now : BitVec 64)

/-- One step of a pipeline of `n` queues that is to carry `events` events. -/
inductive Step (L : Lambdas) (n : ℕ) (events : BitVec 64) :
    Pipeline L → Action L.Label → Pipeline L → Prop
  | make {s : Pipeline L} (now : BitVec 64) (hn : 0 < n) (h : s.thread 0 = .next) :
      Step L n events s (.make now)
        { s.goto 0 (.inCall .producer (eventAt events s.seq now) L.enter) with
          seq := s.seq + 1
          made := s.made ++ [eventAt events s.seq now] }
  | take {s : Pipeline L} {k : ℕ} (hk : k < n) (h : s.thread (k + 1) = .next) :
      Step L n events s (.take k) (s.goto (k + 1) (.inCall .consumer {} L.enter))
  | inCall {s : Pipeline L} {k : ℕ} {e : Endpoint} {l : L.Label} {event event' : PipelineEvent}
      {pc pc' : L.Pc} {queue' : L.Queue} (hk : k < n)
      (h : s.thread (user k e) = .inCall e event pc)
      (hs : L.step e l (s.queue k, event, pc) (queue', event', pc')) :
      Step L n events s (.inCall k e l)
        ((s.goto (user k e) (.inCall e event' pc')).put k queue')
  | passed {s : Pipeline L} {k : ℕ} {event : PipelineEvent} {pc : L.Pc} (hk : k < n)
      (h : s.thread k = .inCall .producer event pc) (hr : L.returns .producer (s.queue k) pc) :
      Step L n events s (.passed k) (s.goto k (if event.stop then .finished else .next))
  | handed {s : Pipeline L} {k : ℕ} {event : PipelineEvent} {pc : L.Pc} (hk : k + 1 < n)
      (h : s.thread (k + 1) = .inCall .consumer event pc)
      (hr : L.returns .consumer (s.queue k) pc) :
      Step L n events s (.handed k)
        (s.goto (k + 1) (.inCall .producer (event.worked (k + 1)) L.enter))
  | sunk {s : Pipeline L} {k : ℕ} {event : PipelineEvent} {pc : L.Pc} (now : BitVec 64)
      (hk : k + 1 = n) (h : s.thread (k + 1) = .inCall .consumer event pc)
      (hr : L.returns .consumer (s.queue k) pc) :
      Step L n events s (.sunk k now)
        { s.goto (k + 1) (if event.stop then .finished else .next) with
          latencies := if event.stop then s.latencies else s.latencies ++ [now - event.createdNs]
          sunk := s.sunk ++ [event.worked (k + 1)] }

/-- The pipeline when its threads are started. -/
def system (L : Lambdas) (n : ℕ) (events : BitVec 64) : System (Pipeline L) (Action L.Label) where
  init s := s = {}
  step := Step L n events

/-- The events the sink has processed. -/
def processed (s : Pipeline L) : List PipelineEvent := s.sunk.filter fun e => !e.stop

/-- All threads can be joined. -/
def Joined (n : ℕ) (s : Pipeline L) : Prop := ∀ j ≤ n, s.thread j = .finished

end Pipeline

end Hft.Bench
