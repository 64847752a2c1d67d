import HftArb.Lib.Fifo
import HftArb.Concurrency.BoundedBlockingQueue

/-!
# The blocking queue is a bounded FIFO without lost wake-ups

`simulation` maps every run of the blocking queue to a run of the abstract queue.  `Served` is the
invariant behind the wake-ups: as long as a thread is blocked on a condition variable, there are
at least as many threads that will still serve it (act on an element or a place themselves, or
notify somebody) as there are elements or places to be had.
-/

namespace Hft.Concurrency.Blocking

open Transition Threads

variable {ι T : Type} [DecidableEq ι] {capacity : ℕ} {s s' : State ι T} {a : Action ι T}

/-! ### The mutex -/

/-- The thread holds the mutex. -/
def Phase.inMutex : Phase T → Bool
  | .testing _ | .acting _ | .notifying _ | .leaving _ => true
  | .idle | .entering _ | .blocked _ | .woken _ => false

/-- The owner of the mutex is the one thread inside it. -/
def State.Exclusive (s : State ι T) : Prop := ∀ i, s.owner = some i ↔ (s.phase i).inMutex

section Moves

variable {i : ι} {p : Phase T}

/-- A thread moves within the mutex or outside it. -/
theorem State.Exclusive.stay (h : s.Exclusive) (hphase : s'.phase = Function.update s.phase i p)
    (howner : s'.owner = s.owner) (hp : p.inMutex = (s.phase i).inMutex) : s'.Exclusive := by
  intro j
  rw [hphase, howner]
  by_cases hj : j = i
  · subst hj
    rw [Function.update_self, hp]
    exact h j
  · rw [Function.update_of_ne hj]
    exact h j

/-- A thread takes the free mutex. -/
theorem State.Exclusive.enter (h : s.Exclusive) (hphase : s'.phase = Function.update s.phase i p)
    (free : s.owner = none) (howner : s'.owner = some i) (hp : p.inMutex = true) :
    s'.Exclusive := by
  intro j
  rw [hphase, howner]
  by_cases hj : j = i
  · subst hj
    rw [Function.update_self]
    simp [hp]
  · have hout := h j
    rw [free] at hout
    rw [Function.update_of_ne hj, ← hout]
    simp [Ne.symm hj]

/-- The owner of the mutex releases it. -/
theorem State.Exclusive.leave (h : s.Exclusive) (hphase : s'.phase = Function.update s.phase i p)
    (hi : (s.phase i).inMutex = true) (howner : s'.owner = none) (hp : p.inMutex = false) :
    s'.Exclusive := by
  intro j
  rw [hphase, howner]
  by_cases hj : j = i
  · subst hj
    rw [Function.update_self]
    simp [hp]
  · have hout := h j
    rw [(h i).2 hi] at hout
    rw [Function.update_of_ne hj, ← hout]
    simp [Ne.symm hj]

/-- The thread that is to be woken is still blocked when its notifier has moved on. -/
theorem blocked_goto {j : ι} {o : Outcome T} {c : Call T} (hi : s.phase i = .notifying o)
    (hj : s.phase j = .blocked c) (p : Phase T) : (s.goto i p).phase j = .blocked c := by
  have hji : j ≠ i := by
    rintro rfl
    rw [hi] at hj
    cases hj
  rw [← hj]
  exact Function.update_of_ne hji _ _

end Moves

theorem State.Exclusive.step (h : s.Exclusive) (hs : Step capacity s a s') : s'.Exclusive := by
  cases hs with
  | call c hi => exact h.stay rfl rfl (by rw [hi]; rfl)
  | lock hi free => exact h.enter rfl free rfl rfl
  | testTrue hi ready => exact h.stay rfl rfl (by rw [hi]; rfl)
  | testFalse hi unready => exact h.leave rfl (by rw [hi]; rfl) rfl rfl
  | push hi => exact h.stay rfl rfl (by rw [hi]; rfl)
  | pop hi front => exact h.stay rfl rfl (by rw [hi]; rfl)
  | @notifyOne i j o c hi hj waits =>
    have hmid : (s.goto i (.leaving o)).Exclusive := h.stay rfl rfl (by rw [hi]; rfl)
    exact hmid.stay rfl rfl (by rw [blocked_goto hi hj]; rfl)
  | notifyNone hi nobody => exact h.stay rfl rfl (by rw [hi]; rfl)
  | unlock hi => exact h.leave rfl (by rw [hi]; rfl) rfl rfl
  | relock hi free => exact h.enter rfl free rfl rfl
  | wakeUp hi => exact h.stay rfl rfl (by rw [hi]; rfl)

/-! ### Elements and places -/

/-- What the predicate of a wait counts: the free places or the elements. -/
def Condition.room (capacity : ℕ) (queue : List T) : Condition → ℕ
  | .notFull => capacity - queue.length
  | .notEmpty => queue.length

theorem ready_iff (c : Call T) (queue : List T) :
    c.ready capacity queue = true ↔ 0 < c.waitsOn.room capacity queue := by
  cases c with
  | push value hadToWait => simp [Call.ready, Call.waitsOn, Condition.room]
  | pop => simp [Call.ready, Call.waitsOn, Condition.room, List.length_pos_iff]

/-- A thread about to change the queue finds the element or the place it waited for. -/
def State.Ready (capacity : ℕ) (s : State ι T) : Prop :=
  ∀ i c, s.phase i = .acting c → 0 < c.waitsOn.room capacity s.queue

omit [DecidableEq ι] in
/-- Two threads inside the mutex are one. -/
theorem State.Exclusive.unique (h : s.Exclusive) {i j : ι} (hi : (s.phase i).inMutex = true)
    (hj : (s.phase j).inMutex = true) : i = j :=
  Option.some.inj (((h i).2 hi).symm.trans ((h j).2 hj))

theorem State.Ready.step (h : s.Ready capacity) (hex : s.Exclusive)
    (hs : Step capacity s a s') : s'.Ready capacity := by
  intro k c hk
  -- the thread that moves does not start to act, and the queue stays
  have keep : ∀ {i : ι} {p : Phase T}, (∀ c, p ≠ .acting c) → s'.queue = s.queue →
      s'.phase = Function.update s.phase i p → 0 < c.waitsOn.room capacity s'.queue := by
    intro i p hp hqueue hphase
    rw [hphase] at hk
    by_cases hki : k = i
    · subst hki
      rw [Function.update_self] at hk
      exact absurd hk (hp c)
    · rw [Function.update_of_ne hki] at hk
      rw [hqueue]
      exact h k c hk
  -- the thread that changes the queue is the only one in the mutex
  have change : ∀ {i : ι} {c' : Call T} {o : Outcome T}, s.phase i = .acting c' →
      s'.phase = Function.update s.phase i (.notifying o) → False := by
    intro i c' o hi hphase
    rw [hphase] at hk
    by_cases hki : k = i
    · subst hki
      rw [Function.update_self] at hk
      cases hk
    · rw [Function.update_of_ne hki] at hk
      exact hki (hex.unique (by rw [hk]; rfl) (by rw [hi]; rfl))
  cases hs with
  | call c' hi => exact keep (by simp) rfl rfl
  | lock hi free => exact keep (by simp) rfl rfl
  | @testTrue i c' hi ready =>
    by_cases hki : k = i
    · subst hki
      have hc : c' = c := by simpa [State.goto] using hk
      rw [← hc]
      exact (ready_iff c' s.queue).1 ready
    · exact h k c (by simpa [State.goto, hki] using hk)
  | testFalse hi unready => exact keep (by simp) rfl rfl
  | push hi => exact (change hi rfl).elim
  | pop hi front => exact (change hi rfl).elim
  | @notifyOne i j o c' hi hj waits =>
    have hmid : k = j → False := by
      rintro rfl
      simp [State.goto] at hk
    have hki : k = i → False := by
      rintro rfl
      simp [State.goto, Function.update_of_ne hmid] at hk
    rw [show ((s.goto i (.leaving o)).goto j (.woken c')).phase k = s.phase k by
      simp [State.goto, Function.update_of_ne hmid, Function.update_of_ne hki]] at hk
    exact h k c hk
  | notifyNone hi nobody => exact keep (by simp) rfl rfl
  | unlock hi => exact keep (by simp) rfl rfl
  | relock hi free => exact keep (by simp) rfl rfl
  | wakeUp hi => exact keep (by simp) rfl rfl

/-! ### Wake-ups -/

/-- A thread is blocked on the condition variable. -/
def State.Waiting (s : State ι T) (v : Condition) : Prop :=
  ∃ i c, s.phase i = .blocked c ∧ c.waitsOn = v

/-- The thread will still serve one waiter of `v`: it acts on an element or a place itself, or
notifies somebody. -/
def Phase.serves (v : Condition) : Phase T → ℕ
  | .entering c | .testing c | .woken c | .acting c => if c.waitsOn = v then 1 else 0
  | .notifying o => if o.notifies = v then 1 else 0
  | .idle | .blocked _ | .leaving _ => 0

variable [Fintype ι]

/-- Nobody waits for an element or a place that no other thread cares for. -/
def State.Served (capacity : ℕ) (s : State ι T) (v : Condition) : Prop :=
  s.Waiting v → v.room capacity s.queue ≤ total (Phase.serves v) s.phase

section Moves

variable {v : Condition} {i : ι} {p : Phase T}

omit [Fintype ι] in
theorem State.Waiting.of_move (h : s'.Waiting v) (hphase : s'.phase = Function.update s.phase i p)
    (hp : ∀ c, p = .blocked c → c.waitsOn ≠ v) : s.Waiting v := by
  obtain ⟨j, c, hj, hc⟩ := h
  rw [hphase] at hj
  by_cases hji : j = i
  · subst hji
    rw [Function.update_self] at hj
    exact absurd hc (hp c hj)
  · rw [Function.update_of_ne hji] at hj
    exact ⟨j, c, hj, hc⟩

/-- A thread moves: it may serve less only as far as there are less elements or places. -/
theorem State.Served.move (h : s.Served capacity v)
    (hphase : s'.phase = Function.update s.phase i p)
    (hp : ∀ c, p = .blocked c → c.waitsOn ≠ v)
    (hroom : v.room capacity s'.queue + (s.phase i).serves v ≤
      v.room capacity s.queue + p.serves v) : s'.Served capacity v := by
  intro hw
  have hold := h (hw.of_move hphase hp)
  have htotal := total_update (w := Phase.serves v) (f := s.phase) i p
  rw [hphase]
  omega

end Moves

theorem State.Served.step {v : Condition} (h : s.Served capacity v) (hready : s.Ready capacity)
    (hs : Step capacity s a s') : s'.Served capacity v := by
  cases hs with
  | call c hi => exact h.move rfl (by simp) (by simp [hi, Phase.serves, State.goto])
  | lock hi free => exact h.move rfl (by simp) (by simp [hi, Phase.serves, State.goto])
  | testTrue hi ready => exact h.move rfl (by simp) (by simp [hi, Phase.serves, State.goto])
  | @testFalse i c hi unready =>
    by_cases hv : c.waitsOn = v
    · -- the predicate was false: there is nothing to be had
      intro _
      have hroom : ¬ 0 < c.waitsOn.room capacity s.queue := by
        rw [← ready_iff, unready]
        simp
      rw [hv] at hroom
      show v.room capacity s.queue ≤ _
      omega
    · refine h.move rfl ?_ (by simp [hi, Phase.serves, State.goto, hv])
      rintro c' hc'
      cases hc'
      exact hv
  | @push i value hadToWait hi =>
    have hroom := hready i _ hi
    refine h.move rfl (by simp) ?_
    cases v
    · simp only [Call.waitsOn, Condition.room] at hroom
      simp [hi, Phase.serves, Call.waitsOn, Outcome.notifies, Condition.room]
      omega
    · simp [hi, Phase.serves, Call.waitsOn, Outcome.notifies, Condition.room]
  | @pop i value rest hi front =>
    refine h.move rfl (by simp) ?_
    cases v
    · simp [hi, front, Phase.serves, Call.waitsOn, Outcome.notifies, Condition.room]
      omega
    · simp [hi, front, Phase.serves, Call.waitsOn, Outcome.notifies, Condition.room]
  | @notifyOne i j o c hi hj waits =>
    intro hw
    have hmid : (s.goto i (.leaving o)).Waiting v := hw.of_move rfl (by simp)
    have hold := h (hmid.of_move rfl (by simp))
    have hj' := blocked_goto hi hj (.leaving o)
    -- the duty of the notifier passes to the thread it wakes
    have hleft := total_update (w := Phase.serves v) (f := s.phase) i (.leaving o)
    have hwoken := total_update (w := Phase.serves v) (f := (s.goto i (.leaving o)).phase) j
      (.woken c)
    rw [hj'] at hwoken
    rw [hi] at hleft
    simp only [Phase.serves, waits] at hleft hwoken
    show v.room capacity s.queue ≤
      total (Phase.serves v) (Function.update (s.goto i (.leaving o)).phase j (.woken c))
    change _ = total _ (Function.update s.phase i (.leaving o)) + _ at hwoken
    omega
  | @notifyNone i o hi nobody =>
    by_cases hv : o.notifies = v
    · rintro hw
      obtain ⟨j, c, hj, hc⟩ := hw.of_move (s := s) (i := i) rfl (by simp)
      exact absurd (hc.trans hv.symm) (nobody j c hj)
    · exact h.move rfl (by simp) (by simp [hi, Phase.serves, State.goto, hv])
  | unlock hi => exact h.move rfl (by simp) (by simp [hi, Phase.serves, State.goto])
  | relock hi free => exact h.move rfl (by simp) (by simp [hi, Phase.serves, State.goto])
  | wakeUp hi => exact h.move rfl (by simp) (by simp [hi, Phase.serves, State.goto])

/-! ### Values -/

/-- The values a call is given. -/
def Call.values : Call T → List T
  | .push value _ => [value]
  | .pop => []

/-- The values a call brings back. -/
def Outcome.values : Outcome T → List T
  | .pushed => []
  | .popped value => [value]

/-- The values given to the current call and not yet in the queue. -/
def Phase.pending : Phase T → List T
  | .entering c | .testing c | .blocked c | .woken c | .acting c => c.values
  | .idle | .notifying _ | .leaving _ => []

/-- The values taken out by the current call and not yet returned. -/
def Phase.inHand : Phase T → List T
  | .notifying o | .leaving o => o.values
  | .idle | .entering _ | .testing _ | .blocked _ | .woken _ | .acting _ => []

/-- Every value thread `i` gave to `push_wait` was pushed once, in the order of its calls, or is
still with it; every value it popped was returned once or is still with it. -/
structure State.Accounted (s : State ι T) (i : ι) : Prop where
  given : (ofThread i s.called).flatMap Call.values = ofThread i s.pushed ++ (s.phase i).pending
  taken : ofThread i s.popped = (ofThread i s.returned).flatMap Outcome.values ++ (s.phase i).inHand

omit [Fintype ι] in
/-- Thread `i` moves and appends to the histories; `hgiven` and `htaken` say where the values went. -/
theorem State.Accounted.move (h : ∀ j, s.Accounted j) {i : ι} {p : Phase T}
    (called : List (Call T)) (returned : List (Outcome T)) (pushed popped : List T)
    (hphase : s'.phase = Function.update s.phase i p)
    (hgiven : (s.phase i).pending ++ called.flatMap Call.values = pushed ++ p.pending)
    (htaken : (s.phase i).inHand ++ popped = returned.flatMap Outcome.values ++ p.inHand)
    (hcalled : s'.called = s.called ++ called.map (Prod.mk i) := by simp [State.goto])
    (hreturned : s'.returned = s.returned ++ returned.map (Prod.mk i) := by simp [State.goto])
    (hpushed : s'.pushed = s.pushed ++ pushed.map (Prod.mk i) := by simp [State.goto])
    (hpopped : s'.popped = s.popped ++ popped.map (Prod.mk i) := by simp [State.goto])
    (j : ι) : s'.Accounted j := by
  by_cases hj : j = i
  · subst hj
    constructor
    · rw [hcalled, hpushed, hphase, Function.update_self, ofThread_append, ofThread_append,
        ofThread_self, ofThread_self, List.flatMap_append, (h j).given, List.append_assoc,
        List.append_assoc, hgiven]
    · rw [hpopped, hreturned, hphase, Function.update_self, ofThread_append, ofThread_append,
        ofThread_self, ofThread_self, List.flatMap_append, (h j).taken, List.append_assoc,
        List.append_assoc, htaken]
  · have hne : i ≠ j := Ne.symm hj
    constructor
    · rw [hcalled, hpushed, hphase, Function.update_of_ne hj, ofThread_append, ofThread_append,
        ofThread_of_ne hne, ofThread_of_ne hne, List.append_nil, List.append_nil]
      exact (h j).given
    · rw [hpopped, hreturned, hphase, Function.update_of_ne hj, ofThread_append, ofThread_append,
        ofThread_of_ne hne, ofThread_of_ne hne, List.append_nil, List.append_nil]
      exact (h j).taken

omit [Fintype ι] in
theorem State.Accounted.step (h : ∀ j, s.Accounted j) (hs : Step capacity s a s') :
    ∀ j, s'.Accounted j := by
  cases hs with
  | call c hi =>
    exact Accounted.move h [c] [] [] [] rfl (by simp [hi, Phase.pending])
      (by simp [hi, Phase.inHand])
  | lock hi free =>
    exact Accounted.move h [] [] [] [] rfl (by simp [hi, Phase.pending]) (by simp [hi, Phase.inHand])
  | testTrue hi ready =>
    exact Accounted.move h [] [] [] [] rfl (by simp [hi, Phase.pending]) (by simp [hi, Phase.inHand])
  | testFalse hi unready =>
    exact Accounted.move h [] [] [] [] rfl (by simp [hi, Phase.pending]) (by simp [hi, Phase.inHand])
  | @push i value hadToWait hi =>
    exact Accounted.move h [] [] [value] [] rfl (by simp [hi, Phase.pending, Call.values])
      (by simp [hi, Phase.inHand, Outcome.values])
  | @pop i value rest hi front =>
    exact Accounted.move h [] [] [] [value] rfl (by simp [hi, Phase.pending, Call.values])
      (by simp [hi, Phase.inHand, Outcome.values])
  | @notifyOne i j o c hi hj waits =>
    have hmid : ∀ k, (s.goto i (.leaving o)).Accounted k :=
      Accounted.move h [] [] [] [] rfl (by simp [hi, Phase.pending]) (by simp [hi, Phase.inHand])
    have hj' := blocked_goto hi hj (.leaving o)
    exact Accounted.move hmid [] [] [] [] rfl (by simp [hj', Phase.pending])
      (by simp [hj', Phase.inHand])
  | notifyNone hi nobody =>
    exact Accounted.move h [] [] [] [] rfl (by simp [hi, Phase.pending]) (by simp [hi, Phase.inHand])
  | @unlock i o hi =>
    exact Accounted.move h [] [o] [] [] rfl (by simp [hi, Phase.pending])
      (by simp [hi, Phase.inHand])
  | relock hi free =>
    exact Accounted.move h [] [] [] [] rfl (by simp [hi, Phase.pending]) (by simp [hi, Phase.inHand])
  | wakeUp hi =>
    exact Accounted.move h [] [] [] [] rfl (by simp [hi, Phase.pending]) (by simp [hi, Phase.inHand])

/-! ### Every run -/

/-- The invariant of the blocking queue. -/
structure Inv (capacity : ℕ) (s : State ι T) : Prop where
  exclusive : s.Exclusive
  ready : s.Ready capacity
  served : ∀ v, s.Served capacity v
  accounted : ∀ i, s.Accounted i

theorem inv_reachable (h : (blockingQueue ι T capacity).Reachable s) : Inv capacity s := by
  refine h.induct (I := Inv capacity) ?_ ?_
  · rintro _ rfl
    refine ⟨fun i => by simp [Phase.inMutex], fun i c hi => ?_, ?_, fun i => ⟨rfl, rfl⟩⟩
    · cases hi
    · rintro v ⟨i, c, hi, -⟩
      cases hi
  · intro s a s' hi hs
    exact ⟨hi.exclusive.step hs, hi.ready.step hi.exclusive hs,
      fun v => (hi.served v).step hi.ready hs, State.Accounted.step hi.accounted hs⟩

/-- The abstract queue a state stands for. -/
def State.fifo (s : State ι T) : Fifo T where
  contents := s.queue
  pushed := s.pushed.map Prod.snd
  popped := s.popped.map Prod.snd

/-- **The blocking queue refines the bounded queue.** -/
theorem simulation (ι T : Type) [DecidableEq ι] [Fintype ι] (capacity : ℕ) :
    System.Simulation (blockingQueue ι T capacity) (Fifo.system T capacity) (Inv capacity)
      State.fifo where
  init := by
    rintro _ rfl
    rfl
  step := by
    intro s a s' h hs
    cases hs with
    | @push i value hadToWait hi =>
      right
      have hroom := h.ready i _ hi
      simp only [Call.waitsOn, Condition.room] at hroom
      refine ⟨.push value, ?_⟩
      have hlength : s.fifo.contents.length < capacity := by
        show s.queue.length < capacity
        omega
      have hpush := Fifo.Step.push s.fifo value hlength
      simpa [State.fifo, Fifo.system, State.goto] using hpush
    | @pop i value rest hi front =>
      right
      refine ⟨.pop value, ?_⟩
      have hpop : Fifo.Step capacity s.fifo (.pop value) _ := .pop s.fifo value rest front
      simpa [State.fifo, Fifo.system, State.goto] using hpop
    | _ => exact Or.inl rfl

/-- What holds of every reachable state of the blocking queue. -/
structure State.BoundedFifo (capacity : ℕ) (s : State ι T) : Prop where
  /-- The state is one of the abstract queue with `capacity` places. -/
  fifo : (Fifo.system T capacity).Reachable s.fifo
  bounded : s.queue.length ≤ capacity
  /-- Values come out in the order they went in; what has not come out is in the queue. -/
  inOrder : s.pushed.map Prod.snd = s.popped.map Prod.snd ++ s.queue
  /-- Every value given to a call went in once, every value that came out was returned once. -/
  accounted : ∀ i, s.Accounted i
  /-- `pop_wait` never takes the front of an empty deque. -/
  front : ∀ i, s.phase i = .acting .pop → s.queue ≠ []

/-- Thread `i` is blocked and not notified, and no other thread will take another step of its own
accord: each is out of its calls, or blocked and not notified. -/
def State.Stuck (s : State ι T) (i : ι) (c : Call T) : Prop :=
  s.phase i = .blocked c ∧ ∀ j ≠ i, s.phase j = .idle ∨ ∃ c', s.phase j = .blocked c'

/-- **The blocking queue is a bounded FIFO without lost wake-ups**, for any number of threads in any
interleaving. -/
theorem blockingQueue_boundedFifo (h : (blockingQueue ι T capacity).Reachable s) :
    s.BoundedFifo capacity ∧
      (∀ i, s.Stuck i .pop → s.queue = []) ∧
      (∀ i value hadToWait, s.Stuck i (.push value hadToWait) → s.queue.length = capacity) := by
  have hi := inv_reachable h
  have hfifo := (simulation ι T capacity).reachable (fun _ => inv_reachable) h
  have hspec := Fifo.reachable_spec hfifo
  have hroom : ∀ i c, s.Stuck i c → c.waitsOn.room capacity s.queue = 0 := by
    rintro i c ⟨hblocked, hrest⟩
    have hserved := hi.served c.waitsOn ⟨i, c, hblocked, rfl⟩
    have hnobody : total (Phase.serves c.waitsOn) s.phase = 0 := by
      rw [total_eq_zero_iff]
      intro j
      by_cases hj : j = i
      · rw [hj, hblocked]
        rfl
      · rcases hrest j hj with hidle | ⟨c', hc'⟩
        · rw [hidle]
          rfl
        · rw [hc']
          rfl
    omega
  refine ⟨⟨hfifo, hspec.2, hspec.1, hi.accounted, fun i hacting => ?_⟩, fun i hstuck => ?_,
    fun i value hadToWait hstuck => ?_⟩
  · have hpos := hi.ready i _ hacting
    exact List.length_pos_iff.1 hpos
  · exact List.length_eq_zero_iff.1 (hroom i _ hstuck)
  · have hfull := hroom i _ hstuck
    have hlen := hspec.2
    simp only [Call.waitsOn, Condition.room] at hfull
    simp only [State.fifo] at hlen
    omega

/-- With one place, a second push blocks behind the first one. -/
theorem blockingQueue_boundedFifo_full :
    ∃ s : State (Fin 2) ℕ, s.Stuck 1 (.push 8 true) ∧ s.hadToWait 1 = some true ∧
      s.BoundedFifo 1 ∧ s.queue.length = 1 := by
  have h0 : (blockingQueue (Fin 2) ℕ 1).Reachable {} := .init rfl
  have h1 := h0.step (Step.call (i := 0) (.push 7 false) rfl)
  have h2 := h1.step (Step.lock (i := 0) rfl rfl)
  have h3 := h2.step (Step.testTrue (i := 0) rfl rfl)
  have h4 := h3.step (Step.push (i := 0) rfl)
  have h5 := h4.step (Step.notifyNone (i := 0) (o := .pushed) rfl (by
    intro j c hj
    fin_cases j <;> cases hj))
  have h6 := h5.step (Step.unlock (i := 0) rfl)
  have h7 := h6.step (Step.call (i := 1) (.push 8 true) rfl)
  have h8 := h7.step (Step.lock (i := 1) rfl rfl)
  have h9 := h8.step (Step.testFalse (i := 1) rfl rfl)
  refine ⟨_, ⟨rfl, fun j hj => ?_⟩, rfl, (blockingQueue_boundedFifo h9).1,
    (blockingQueue_boundedFifo h9).2.2 1 8 true ⟨rfl, fun j hj => ?_⟩⟩ <;>
  · fin_cases j
    · exact Or.inl rfl
    · exact absurd rfl hj

end Hft.Concurrency.Blocking
