import HftArb.Bench.Pipeline
import HftArb.Bench.QueueStats

/-!
# `run_spsc_pipeline`

The lambdas `push_spin` and `pop_spin` over a ring buffer.  A step is one atomic access of the
buffer, as in `SpscStep`, of an observer of the buffer, or of the statistics.  `std::move(event)`
copies, since an event is trivially copyable, so a refused push is tried again with the same event.
`cpu_relax` has no effect on the state.
-/

namespace Hft.Concurrency

/-- What the last call of a thread that has returned has returned. -/
def SpscState.result {c : Capacity} {T : Type} (s : SpscState c T) : Endpoint → Option Bool
  | .producer => s.pushResult
  | .consumer => s.popResult

end Hft.Concurrency

namespace Hft.Bench

open Concurrency

/-- A ring buffer and its statistics. -/
structure SpinQueue (c : Capacity) where
  ring : ObservedState c PipelineEvent := { buffer := .fresh c PipelineEvent }
  stats : QueueStats Endpoint := {}

/-- Where a thread is in `push_spin` or `pop_spin`; `done` tells the `observe` after a success from
the one in the loop of `push_spin`. -/
inductive SpinPc
  /-- At the head of the `while`. -/
  | attempting
  /-- In `try_push` or `try_pop`; `popped` once the event has been moved out. -/
  | inside (popped : Bool)
  /-- Before `full_events.fetch_add`. -/
  | refused
  /-- Before `size_approx`. -/
  | sizing (done : Bool)
  | inSize (done : Bool)
  | observing (done : Bool)

/-- The accesses, and the jump back to the head of the loop. -/
inductive SpinLabel
  | ring (a : ObservedAction PipelineEvent)
  | stats (a : QueueStats.Action Endpoint)
  | jump

/-- `try_push(std::move(event))` or `try_pop(event)`. -/
def tryCall (event : PipelineEvent) : Endpoint → SpscAction PipelineEvent
  | .producer => .callPush event .move
  | .consumer => .callPop

/-- Where a thread goes on after an attempt. -/
def SpinPc.after (e : Endpoint) (ok : Bool) : SpinPc :=
  if ok then .sizing true else
    match e with
    | .producer => .refused
    | .consumer => .attempting

variable {c : Capacity}

/-- One step of `push_spin` at the producing end, or of `pop_spin` at the consuming end. -/
inductive SpinStep : Endpoint → SpinLabel → SpinQueue c × PipelineEvent × SpinPc →
    SpinQueue c × PipelineEvent × SpinPc → Prop
  | attempt {e : Endpoint} {q : SpinQueue c} {event : PipelineEvent} {r : ObservedState c PipelineEvent}
      (hs : ObservedStep q.ring (.operate (tryCall event e)) r) :
      SpinStep e (.ring (.operate (tryCall event e))) (q, event, .attempting)
        ({ q with ring := r }, event, .inside false)
  | work {e : Endpoint} {q : SpinQueue c} {event : PipelineEvent} {popped : Bool}
      {a : SpscAction PipelineEvent} {r : ObservedState c PipelineEvent} (ha : a.endpoint = e)
      (hmove : a ≠ .move) (hin : ¬ q.ring.buffer.Rests e)
      (hs : ObservedStep q.ring (.operate a) r) (hstill : ¬ r.buffer.Rests e) :
      SpinStep e (.ring (.operate a)) (q, event, .inside popped)
        ({ q with ring := r }, event, .inside popped)
  | move {q : SpinQueue c} {event event' : PipelineEvent} {popped : Bool}
      {r : ObservedState c PipelineEvent} (hs : ObservedStep q.ring (.operate .move) r)
      (hout : r.buffer.popped.getLast? = some event') :
      SpinStep .consumer (.ring (.operate .move)) (q, event, .inside popped)
        ({ q with ring := r }, event', .inside true)
  | ret {e : Endpoint} {q : SpinQueue c} {event : PipelineEvent} {popped ok : Bool}
      {a : SpscAction PipelineEvent} {r : ObservedState c PipelineEvent} (ha : a.endpoint = e)
      (hin : ¬ q.ring.buffer.Rests e) (hs : ObservedStep q.ring (.operate a) r)
      (hrests : r.buffer.Rests e) (hresult : r.buffer.result e = some ok) :
      SpinStep e (.ring (.operate a)) (q, event, .inside popped)
        ({ q with ring := r }, event, .after e ok)
  | countFull {e : Endpoint} {q : SpinQueue c} {event : PipelineEvent} {t : QueueStats Endpoint}
      (hs : QueueStats.Step q.stats (.countFull e) t) :
      SpinStep e (.stats (.countFull e)) (q, event, .refused)
        ({ q with stats := t }, event, .sizing false)
  | size {e : Endpoint} {q : SpinQueue c} {event : PipelineEvent} {done : Bool}
      {r : ObservedState c PipelineEvent} (hs : ObservedStep q.ring (.call e .sizeApprox) r) :
      SpinStep e (.ring (.call e .sizeApprox)) (q, event, .sizing done)
        ({ q with ring := r }, event, .inSize done)
  | load {e : Endpoint} {q : SpinQueue c} {event : PipelineEvent} {done : Bool}
      {a : ObservedAction PipelineEvent} {r : ObservedState c PipelineEvent}
      (ha : a = .loadFirst e ∨ a = .loadSecond e ∨ a = .ret e) (hs : ObservedStep q.ring a r) :
      SpinStep e (.ring a) (q, event, .inSize done) ({ q with ring := r }, event, .inSize done)
  | sized {e : Endpoint} {q : SpinQueue c} {event : PipelineEvent} {done : Bool} {occupancy : ℕ}
      {t : QueueStats Endpoint} (hout : q.ring.phase e = .idle)
      (hanswer : q.ring.answer e = some (.sizeApprox, .number occupancy))
      (hs : QueueStats.Step q.stats (.call e occupancy) t) :
      SpinStep e (.stats (.call e occupancy)) (q, event, .inSize done)
        ({ q with stats := t }, event, .observing done)
  | observe {e : Endpoint} {q : SpinQueue c} {event : PipelineEvent} {done : Bool}
      {a : QueueStats.Action Endpoint} {t : QueueStats Endpoint} (ha : a.Inside e)
      (hs : QueueStats.Step q.stats a t) :
      SpinStep e (.stats a) (q, event, .observing done) ({ q with stats := t }, event, .observing done)
  | again {e : Endpoint} {q : SpinQueue c} {event : PipelineEvent}
      (hout : q.stats.phase e = .idle) :
      SpinStep e .jump (q, event, .observing false) (q, event, .attempting)

/-- The lambdas of `run_spsc_pipeline`. -/
def spin (c : Capacity) : Lambdas where
  Queue := SpinQueue c
  Pc := SpinPc
  Label := SpinLabel
  fresh := {}
  enter := .attempting
  step := SpinStep
  returns := fun e q pc => pc = .observing true ∧ q.stats.phase e = .idle

end Hft.Bench
