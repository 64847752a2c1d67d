import HftArb.Bench.Ends
import HftArb.Bench.NormalPipeline
import HftArb.Concurrency.BlockingFifo

/-!
# The pipeline of blocking queues

`waitLaws` shows that `push_wait` and `pop_wait` act on a bounded first-in first-out queue, from the
refinement of the blocking queue.  `waitProgress` rests on its wake-ups: a thread that is blocked
although it could go on has a thread that is about to notify it (`State.Served`), so the pipeline
does not depend on spurious wake-ups.
-/

namespace Hft.Concurrency.Blocking

open Transition Threads

variable {ι T : Type} [DecidableEq ι] {capacity : ℕ} {s s' : State ι T} {a : Action ι T}

/-- The call a thread is in, as long as it has not changed the queue. -/
def Phase.call : Phase T → Option (Call T)
  | .entering c | .testing c | .blocked c | .woken c | .acting c => some c
  | .idle | .notifying _ | .leaving _ => none

/-- The thread has changed the queue and has not returned. -/
def Phase.changed : Phase T → Bool
  | .notifying _ | .leaving _ => true
  | _ => false

/-- The thread is in a call and waits for nobody to wake it. -/
def Phase.awake : Phase T → Bool
  | .idle | .blocked _ => false
  | _ => true

/-- A step of one thread leaves the others where they are, except that it may wake one. -/
theorem Step.frame (hs : Step capacity s a s') {j : ι} (hj : j ≠ a.thread) :
    s'.phase j = s.phase j ∨ ∃ c, s.phase j = .blocked c ∧ s'.phase j = .woken c := by
  cases hs with
  | @notifyOne i k o c hi hk waits =>
    rcases eq_or_ne j k with rfl | hjk
    · exact Or.inr ⟨c, hk, Function.update_self ..⟩
    · left
      exact (Function.update_of_ne hjk _ _).trans (Function.update_of_ne hj _ _)
  | call c hi => exact Or.inl (Function.update_of_ne hj _ _)
  | lock hi free => exact Or.inl (Function.update_of_ne hj _ _)
  | testTrue hi ready => exact Or.inl (Function.update_of_ne hj _ _)
  | testFalse hi unready => exact Or.inl (Function.update_of_ne hj _ _)
  | push hi => exact Or.inl (Function.update_of_ne hj _ _)
  | pop hi front => exact Or.inl (Function.update_of_ne hj _ _)
  | notifyNone hi nobody => exact Or.inl (Function.update_of_ne hj _ _)
  | unlock hi => exact Or.inl (Function.update_of_ne hj _ _)
  | relock hi free => exact Or.inl (Function.update_of_ne hj _ _)
  | wakeUp hi => exact Or.inl (Function.update_of_ne hj _ _)

/-- A step that neither begins a call, changes the queue nor returns keeps the thread in its call. -/
theorem Step.stays (hs : Step capacity s a s') (hcall : ∀ c, a ≠ .call a.thread c)
    (hact : a ≠ .act a.thread) (hunlock : a ≠ .unlock a.thread) :
    (s'.phase a.thread).call = (s.phase a.thread).call ∧
      (s'.phase a.thread).changed = (s.phase a.thread).changed ∧ s'.fifo = s.fifo := by
  cases hs with
  | call c hi => exact absurd rfl (hcall c)
  | push hi => exact absurd rfl hact
  | pop hi front => exact absurd rfl hact
  | unlock hi => exact absurd rfl hunlock
  | @notifyOne i j o c hi hj waits =>
    have hij : i ≠ j := by
      rintro rfl
      rw [hi] at hj
      cases hj
    simp [State.goto, Action.thread, Function.update_of_ne hij, hi, Phase.call, Phase.changed,
      State.fifo]
  | lock hi free => simp [State.goto, Action.thread, hi, Phase.call, Phase.changed, State.fifo]
  | testTrue hi ready => simp [State.goto, Action.thread, hi, Phase.call, Phase.changed, State.fifo]
  | testFalse hi unready =>
    simp [State.goto, Action.thread, hi, Phase.call, Phase.changed, State.fifo]
  | notifyNone hi nobody =>
    simp [State.goto, Action.thread, hi, Phase.call, Phase.changed, State.fifo]
  | relock hi free => simp [State.goto, Action.thread, hi, Phase.call, Phase.changed, State.fifo]
  | wakeUp hi => simp [State.goto, Action.thread, hi, Phase.call, Phase.changed, State.fifo]

/-! ### Going on -/

/-- How far a thread is from the end of its call. -/
def Phase.left : Phase T → ℕ
  | .idle => 0
  | .entering _ => 20
  | .woken _ => 19
  | .testing _ => 18
  | .acting _ => 17
  | .notifying _ => 14
  | .blocked _ => 10
  | .leaving _ => 1

/-- A step of a thread that goes on with its call. -/
def Action.Inside (i : ι) : Action ι T → Prop
  | .call _ _ | .wakeUp _ => False
  | .lock j | .test j | .act j | .notify j _ | .unlock j | .relock j => j = i

omit [DecidableEq ι] in
theorem Action.Inside.thread {i : ι} (h : a.Inside i) : a.thread = i := by
  cases a with
  | call j c => exact h.elim
  | wakeUp j => exact h.elim
  | lock j => exact h
  | test j => exact h
  | act j => exact h
  | notify j woken => exact h
  | unlock j => exact h
  | relock j => exact h

/-- Every such step brings the threads closer to the ends of their calls, also the one that wakes
another thread. -/
theorem Step.left_lt [Fintype ι] {i : ι} (hs : Step capacity s a s') (ha : a.Inside i) :
    total Phase.left s'.phase < total Phase.left s.phase := by
  have move : ∀ {j : ι} {p : Phase T}, s'.phase = Function.update s.phase j p →
      p.left < (s.phase j).left → total Phase.left s'.phase < total Phase.left s.phase := by
    intro j p hphase hlt
    have htotal := total_update (w := Phase.left) (f := s.phase) j p
    rw [hphase]
    omega
  cases hs with
  | call c hi => exact ha.elim
  | wakeUp hi => exact ha.elim
  | lock hi free => exact move rfl (by simp [hi, Phase.left])
  | testTrue hi ready => exact move rfl (by simp [hi, Phase.left])
  | testFalse hi unready => exact move rfl (by simp [hi, Phase.left])
  | push hi => exact move rfl (by simp [hi, Phase.left])
  | pop hi front => exact move rfl (by simp [hi, Phase.left])
  | notifyNone hi nobody => exact move rfl (by simp [hi, Phase.left])
  | unlock hi => exact move rfl (by simp [hi, Phase.left])
  | relock hi free => exact move rfl (by simp [hi, Phase.left])
  | @notifyOne i j o c hi hj waits =>
    have hleft := total_update (w := Phase.left) (f := s.phase) i (.leaving o)
    have hwoken := total_update (w := Phase.left) (f := (s.goto i (.leaving o)).phase) j (.woken c)
    rw [blocked_goto hi hj] at hwoken
    rw [hi] at hleft
    simp only [Phase.left, State.goto] at hleft hwoken
    simp only [State.goto]
    omega

/-- The thread in the mutex can go on. -/
theorem exists_step_inMutex (hready : s.Ready capacity) {i : ι}
    (hi : (s.phase i).inMutex = true) : ∃ a s', Step capacity s a s' ∧ a.Inside i := by
  cases hp : s.phase i with
  | testing c =>
    cases hc : c.ready capacity s.queue with
    | true => exact ⟨_, _, .testTrue hp hc, rfl⟩
    | false => exact ⟨_, _, .testFalse hp hc, rfl⟩
  | acting c =>
    have hroom := hready i c hp
    cases c with
    | push value hadToWait => exact ⟨_, _, .push hp, rfl⟩
    | pop =>
      cases hq : s.queue with
      | nil =>
        rw [hq] at hroom
        exact absurd hroom (by simp [Call.waitsOn, Condition.room])
      | cons value rest => exact ⟨_, _, .pop hp hq, rfl⟩
  | notifying o =>
    by_cases hwaiter : ∃ j c, s.phase j = .blocked c ∧ c.waitsOn = o.notifies
    · obtain ⟨j, c, hj, hc⟩ := hwaiter
      exact ⟨_, _, .notifyOne hp hj hc, rfl⟩
    · exact ⟨_, _, .notifyNone hp fun j c hj hc => hwaiter ⟨j, c, hj, hc⟩, rfl⟩
  | leaving o => exact ⟨_, _, .unlock hp, rfl⟩
  | idle => rw [hp] at hi; cases hi
  | entering c => rw [hp] at hi; cases hi
  | blocked c => rw [hp] at hi; cases hi
  | woken c => rw [hp] at hi; cases hi

/-- If some thread is awake, it can go on, or the one in the mutex can. -/
theorem exists_step_awake [Fintype ι] (hinv : Inv capacity s) {i : ι}
    (hi : (s.phase i).awake = true) :
    ∃ j a s', Step capacity s a s' ∧ a.Inside j ∧ (s.phase j).awake = true := by
  have hmutex : ∀ j, (s.phase j).inMutex = true → (s.phase j).awake = true := by
    intro j hj
    cases hp : s.phase j <;> simp_all [Phase.inMutex, Phase.awake]
  cases howner : s.owner with
  | some j =>
    have hj := (hinv.exclusive j).1 howner
    obtain ⟨a, s', hs, ha⟩ := exists_step_inMutex hinv.ready hj
    exact ⟨j, a, s', hs, ha, hmutex j hj⟩
  | none =>
    have hout : (s.phase i).inMutex = false := by
      have hiff := hinv.exclusive i
      rw [howner] at hiff
      simpa using hiff
    cases hp : s.phase i with
    | entering c => exact ⟨i, _, _, .lock hp howner, rfl, hi⟩
    | woken c => exact ⟨i, _, _, .relock hp howner, rfl, hi⟩
    | idle => rw [hp] at hi; cases hi
    | blocked c => rw [hp] at hi; cases hi
    | testing c => rw [hp] at hout; cases hout
    | acting c => rw [hp] at hout; cases hout
    | notifying o => rw [hp] at hout; cases hout
    | leaving o => rw [hp] at hout; cases hout

/-- A thread that is blocked although it could go on is not the last one awake. -/
theorem exists_awake [Fintype ι] (hinv : Inv capacity s) {i : ι} {c : Call T}
    (hi : s.phase i = .blocked c) (hroom : 0 < c.waitsOn.room capacity s.queue) :
    ∃ j, (s.phase j).awake = true := by
  by_contra hnone
  have hserved := hinv.served c.waitsOn ⟨i, c, hi, rfl⟩
  have hzero : total (Phase.serves c.waitsOn) s.phase = 0 := by
    rw [total_eq_zero_iff]
    intro j
    have hasleep : ¬ (s.phase j).awake = true := fun hj => hnone ⟨j, hj⟩
    cases hp : s.phase j <;> simp_all [Phase.awake, Phase.serves]
  omega

theorem blockingQueue_fifo [Fintype ι] (h : (blockingQueue ι T capacity).Reachable s) :
    s.pushed.map Prod.snd = s.popped.map Prod.snd ++ s.queue ∧ s.queue.length ≤ capacity :=
  Fifo.reachable_spec ((simulation ι T capacity).reachable (fun _ => inv_reachable) h)

end Hft.Concurrency.Blocking

namespace Hft.Bench

open Function Transition Transition.System Concurrency

variable {capacity : ℕ} {e e' : Endpoint} {q : WaitQueue} {event : PipelineEvent} {pc : WaitPc}

/-! ### Where a thread is -/

/-- What holds at an end of the queue whose thread is at `pc`. -/
structure WaitOk (e : Endpoint) (q : WaitQueue) (event : PipelineEvent) (pc : WaitPc) : Prop where
  before : pc = .inside false → (q.queue.phase e).call = some (waitCall event e)
  behind : pc = .inside true → (q.queue.phase e).changed = true
  idle : (∀ did, pc ≠ .inside did) → q.queue.phase e = .idle
  unobserved : pc ≠ .observing → q.stats.phase e = .idle

/-- The end of a thread that is outside the lambda is as at its beginning. -/
def waitOk (e : Endpoint) (q : WaitQueue) : Option (PipelineEvent × WaitPc) → Prop
  | none => WaitOk e q {} .calling
  | some (event, pc) => WaitOk e q event pc

/-- The operation has taken effect. -/
def WaitPc.did : WaitPc → Bool
  | .calling => false
  | .inside did => did
  | .waited | .sizing | .observing => true

/-- Queue and statistics are in states they can get into, and no occupancy was ever seen that the
queue cannot have. -/
structure WaitInv (capacity : ℕ) (q : WaitQueue) : Prop where
  queue : (Blocking.blockingQueue Endpoint PipelineEvent capacity).Reachable q.queue
  stats : (QueueStats.queueStats Endpoint).Reachable q.stats
  occupancy : ∀ n ∈ q.stats.observed, n ≤ capacity

theorem waitOk_none : waitOk e q none ↔ WaitOk e q event .calling := by
  constructor <;> rintro ⟨-, -, hidle, hunobserved⟩
  · exact ⟨by simp, by simp, hidle, hunobserved⟩
  · exact ⟨by simp, by simp, hidle, hunobserved⟩

/-- A step of the other end's thread. -/
theorem WaitOk.of_frame (h : WaitOk e q event pc) {q' : WaitQueue}
    (hphase : q'.queue.phase e = q.queue.phase e ∨
      ∃ c, q.queue.phase e = .blocked c ∧ q'.queue.phase e = .woken c)
    (hstats : q'.stats.phase e = q.stats.phase e) : WaitOk e q' event pc := by
  obtain ⟨hcall, hchanged, hidle⟩ : (q'.queue.phase e).call = (q.queue.phase e).call ∧
      (q'.queue.phase e).changed = (q.queue.phase e).changed ∧
      (q.queue.phase e = .idle → q'.queue.phase e = .idle) := by
    rcases hphase with heq | ⟨c, hblocked, hwoken⟩
    · rw [heq]
      exact ⟨rfl, rfl, id⟩
    · rw [hblocked, hwoken]
      exact ⟨rfl, rfl, fun hidle => by cases hidle⟩
  exact ⟨fun hpc => hcall.trans (h.before hpc), fun hpc => hchanged.trans (h.behind hpc),
    fun hpc => hidle (h.idle hpc), fun hpc => hstats.trans (h.unobserved hpc)⟩

/-- The other end of the queue does not notice. -/
theorem waitOk_other {l : WaitLabel} {r : WaitQueue × PipelineEvent × WaitPc} (hne : e' ≠ e)
    (hs : WaitStep capacity e l (q, event, pc) r) {p : Option (PipelineEvent × WaitPc)}
    (h : waitOk e' q p) : waitOk e' r.1 p := by
  obtain ⟨event₀, pc₀, h, hback⟩ : ∃ event₀ pc₀, WaitOk e' q event₀ pc₀ ∧
      (WaitOk e' r.1 event₀ pc₀ → waitOk e' r.1 p) := by
    cases p with
    | none => exact ⟨_, _, h, id⟩
    | some p => exact ⟨p.1, p.2, h, id⟩
  refine hback ?_
  cases hs with
  | call hs => exact h.of_frame (hs.frame hne) rfl
  | work ha hact hunlock hin hs => exact h.of_frame (hs.frame (ha ▸ hne)) rfl
  | act hs hevent => exact h.of_frame (hs.frame hne) rfl
  | ret hs => exact h.of_frame (hs.frame hne) rfl
  | countFull hs => exact h.of_frame (Or.inl rfl) (hs.frame hne)
  | size free hs => exact h.of_frame (Or.inl rfl) (hs.frame hne)
  | observe ha hs => exact h.of_frame (Or.inl rfl) (hs.frame (ha.thread ▸ hne))

/-! ### The thread's own steps -/

section Steps

variable {a : Blocking.Action Endpoint PipelineEvent} {r : Blocking.State Endpoint PipelineEvent}
  {did : Bool}

theorem after_ne (e : Endpoint) (hadToWait : Option Bool) :
    (∀ did, WaitPc.after e hadToWait ≠ .inside did) ∧ WaitPc.after e hadToWait ≠ .observing ∧
      (WaitPc.after e hadToWait).did = true := by
  cases e with
  | producer => unfold WaitPc.after; dsimp only; split_ifs <;> simp [WaitPc.did]
  | consumer => simp [WaitPc.after, WaitPc.did]

/-- A thread in the queue that has not changed it is in the call it made. -/
theorem WaitOk.did_eq (h : WaitOk e q event (.inside did)) :
    did = true ↔ (q.queue.phase e).changed = true := by
  cases did with
  | true => simpa using h.behind rfl
  | false =>
    have hcall := h.before rfl
    cases hp : q.queue.phase e <;> simp_all [Blocking.Phase.call, Blocking.Phase.changed]

/-- Before it changes the queue a thread is in the call it made. -/
theorem WaitOk.acting {c : Blocking.Call PipelineEvent} (h : WaitOk e q event (.inside did))
    (hp : q.queue.phase e = .acting c) : did = false ∧ c = waitCall event e := by
  have hdid : did = false := by
    have hiff := h.did_eq
    rw [hp] at hiff
    simpa [Blocking.Phase.changed] using hiff
  subst hdid
  have hcall := h.before rfl
  rw [hp] at hcall
  exact ⟨rfl, Option.some.inj hcall⟩

theorem waitOk_step {l : WaitLabel} {r : WaitQueue × PipelineEvent × WaitPc}
    (h : WaitOk e q event pc) (hs : WaitStep capacity e l (q, event, pc) r) :
    WaitOk e r.1 r.2.1 r.2.2 := by
  cases hs with
  | call hs =>
    refine ⟨fun _ => ?_, by simp, by simp, fun _ => h.unobserved (by simp)⟩
    cases hs
    simp [Blocking.State.goto, Blocking.Phase.call]
  | @work _ _ did a r ha hact hunlock hin hs =>
    subst ha
    have hcall : ∀ c, a ≠ .call a.thread c := by
      intro c heq
      rw [heq] at hs
      cases hs with
      | call c hi => exact hin hi
    obtain ⟨hsame, hchanged, -⟩ := hs.stays hcall hact hunlock
    refine ⟨fun hpc => ?_, fun hpc => ?_, by simp, fun _ => h.unobserved (by simp)⟩
    · exact hsame.trans (h.before hpc)
    · exact hchanged.trans (h.behind hpc)
  | act hs hevent =>
    refine ⟨by simp, fun _ => ?_, by simp, fun _ => h.unobserved (by simp)⟩
    cases hs <;> simp [Blocking.State.goto, Blocking.Phase.changed]
  | @ret _ _ did r hs =>
    obtain ⟨hinside, hobserving, -⟩ := after_ne e (r.hadToWait e)
    refine ⟨fun hpc => absurd hpc (hinside false), fun hpc => absurd hpc (hinside true), fun _ => ?_,
      fun _ => h.unobserved (by simp)⟩
    cases hs
    simp [Blocking.State.goto]
  | countFull hs =>
    refine ⟨by simp, by simp, fun _ => h.idle (by simp), fun _ => ?_⟩
    have hidle := h.unobserved (by simp)
    cases hs
    exact hidle
  | size free hs => exact ⟨by simp, by simp, fun _ => h.idle (by simp), by simp⟩
  | observe ha hs => exact ⟨by simp, by simp, fun _ => h.idle (by simp), by simp⟩

theorem waitInv_step {l : WaitLabel} {r : WaitQueue × PipelineEvent × WaitPc}
    (hinv : WaitInv capacity q) (hs : WaitStep capacity e l (q, event, pc) r) :
    WaitInv capacity r.1 := by
  have hqueue : ∀ {a r}, Blocking.Step capacity q.queue a r →
      WaitInv capacity { q with queue := r } := fun hs =>
    ⟨hinv.queue.step hs, hinv.stats, hinv.occupancy⟩
  have hstats : ∀ {a t}, QueueStats.Step q.stats a t → (∀ n ∈ t.observed, n ≤ capacity) →
      WaitInv capacity { q with stats := t } := fun hs hn => ⟨hinv.queue, hinv.stats.step hs, hn⟩
  cases hs with
  | call hs => exact hqueue hs
  | work ha hact hunlock hin hs => exact hqueue hs
  | act hs hevent => exact hqueue hs
  | ret hs => exact hqueue hs
  | countFull hs =>
    refine hstats hs ?_
    cases hs
    exact hinv.occupancy
  | size free hs =>
    refine hstats hs ?_
    cases hs
    intro n hn
    rcases List.mem_append.1 hn with hold | hnew
    · exact hinv.occupancy n hold
    · rw [List.mem_singleton.1 hnew]
      exact (Blocking.blockingQueue_fifo hinv.queue).2
  | observe ha hs =>
    refine hstats hs ?_
    cases hs with
    | countFull => exact ha.elim
    | call => exact ha.elim
    | _ => exact hinv.occupancy

/-- The event at an end of the queue goes into it, or comes out of it, exactly when the operation
takes effect. -/
theorem wait_effect {l : WaitLabel} {r : WaitQueue × PipelineEvent × WaitPc}
    (hinv : WaitInv capacity q) (h : WaitOk e q event pc)
    (hs : WaitStep capacity e l (q, event, pc) r) :
    (r.1.queue.fifo = q.queue.fifo ∧ r.2.2.did = pc.did ∧ r.2.1 = event) ∨
    (pc.did = false ∧ r.2.2.did = true ∧
      Acts capacity q.queue.fifo r.1.queue.fifo event r.2.1 e) := by
  have hreach := Blocking.inv_reachable hinv.queue
  cases hs with
  | call hs =>
    left
    cases hs
    exact ⟨rfl, rfl, rfl⟩
  | @work _ _ did a r ha hact hunlock hin hs =>
    subst ha
    have hcall : ∀ c, a ≠ .call a.thread c := by
      intro c heq
      rw [heq] at hs
      cases hs with
      | call c hi => exact hin hi
    exact Or.inl ⟨(hs.stays hcall hact hunlock).2.2, rfl, rfl⟩
  | @act _ _ event' did r hs hevent =>
    right
    rcases (Blocking.simulation Endpoint PipelineEvent capacity).step q.queue _ r hreach hs with
      heq | ⟨b, hb⟩
    · exfalso
      cases hs <;> simp [Blocking.State.fifo, Blocking.State.goto] at heq
    · cases hs with
      | @push i value hadToWait hi =>
        obtain ⟨rfl, hc⟩ := h.acting hi
        cases e with
        | producer =>
          cases hc
          cases hevent
          refine ⟨rfl, rfl, rfl, ?_⟩
          have hpush : b = .push event := hb.eq_push (by simp [Blocking.State.fifo])
          rwa [hpush] at hb
        | consumer => cases hc
      | @pop i value rest hi front =>
        obtain ⟨rfl, hc⟩ := h.acting hi
        cases e with
        | producer => cases hc
        | consumer =>
          simp only [takenBy, List.getLast?_concat, Option.map_some, Option.some.injEq] at hevent
          subst hevent
          refine ⟨rfl, rfl, ?_⟩
          have hpop : b = .pop value := hb.eq_pop (by simp [Blocking.State.fifo])
          rwa [hpop] at hb
  | @ret _ _ did r hs =>
    left
    obtain ⟨-, -, hdid⟩ := after_ne e (r.hadToWait e)
    have hphase := h.did_eq
    cases hs with
    | unlock hi =>
      rw [hi] at hphase
      exact ⟨rfl, hdid.trans (hphase.2 rfl).symm, rfl⟩
  | countFull hs => exact Or.inl ⟨rfl, rfl, rfl⟩
  | size free hs => exact Or.inl ⟨rfl, rfl, rfl⟩
  | observe ha hs => exact Or.inl ⟨rfl, rfl, rfl⟩

end Steps

/-- **`push_wait` and `pop_wait` act on a bounded queue.** -/
def waitLaws (capacity : ℕ) : Laws (wait capacity) capacity where
  fifo := fun q => q.queue.fifo
  inv := WaitInv capacity
  ok := waitOk
  did := WaitPc.did
  fifo_fresh := rfl
  inv_fresh := ⟨.init rfl, .init rfl, by simp [wait]⟩
  ok_fresh := fun e => ⟨by simp, by simp, fun _ => rfl, fun _ => rfl⟩
  ok_enter := fun e q event h => waitOk_none.1 h
  did_enter := rfl
  ok_step := fun e l q event pc r hinv h hs => ⟨waitInv_step hinv hs, waitOk_step h hs⟩
  ok_other := fun e e' l q event pc r p hne _ _ hs h => waitOk_other hne hs h
  effect := fun e l q event pc r hinv h hs => wait_effect hinv h hs
  returns_ok := fun e q event pc h hr => by
    obtain ⟨rfl, hidle⟩ := hr
    exact ⟨rfl, by simp, by simp, fun _ => h.idle (by simp), fun _ => hidle⟩

/-! ### Going on -/

def waitWeight (q : WaitQueue) : ℕ :=
  Threads.total Blocking.Phase.left q.queue.phase + q.stats.busy

def WaitPc.rank : WaitPc → ℕ
  | .calling => 50
  | .inside _ => 20
  | .waited => 12
  | .sizing => 10
  | .observing => 2

/-- Nothing is to depend on spurious wake-ups. -/
def WaitLabel.Voluntary : WaitLabel → Prop
  | .queue (.wakeUp _) => False
  | _ => True

/-- One of the two threads, which are at `p`, can run its lambda a little further. -/
def SomeGoesOn (capacity : ℕ) (q : WaitQueue) (p : Endpoint → Option (PipelineEvent × WaitPc)) :
    Prop :=
  ∃ e event pc r, p e = some (event, pc) ∧
    (wait capacity).Runs WaitLabel.Voluntary e (q, event, pc) r ∧
    waitWeight r.1 + r.2.2.rank < waitWeight q + pc.rank

variable {p : Endpoint → Option (PipelineEvent × WaitPc)}

theorem SomeGoesOn.of_step {l : WaitLabel} {r : WaitQueue × PipelineEvent × WaitPc}
    (hp : p e = some (event, pc)) (hs : WaitStep capacity e l (q, event, pc) r)
    (hl : l.Voluntary) (hlt : waitWeight r.1 + r.2.2.rank < waitWeight q + pc.rank) :
    SomeGoesOn capacity q p :=
  ⟨e, event, pc, r, hp, Relation.ReflTransGen.single ⟨l, hl, hs⟩, hlt⟩

/-- A step in the queue is a step of the lambda of the thread that makes it. -/
theorem someGoesOn_queue (hok : ∀ e, waitOk e q (p e)) {a : Blocking.Action Endpoint PipelineEvent}
    {r : Blocking.State Endpoint PipelineEvent} (hs : Blocking.Step capacity q.queue a r)
    (ha : a.Inside e) (hawake : (q.queue.phase e).awake = true) : SomeGoesOn capacity q p := by
  have hin : q.queue.phase e ≠ .idle := by
    intro hidle
    rw [hidle] at hawake
    cases hawake
  obtain ⟨event, did, hp, h⟩ : ∃ event did, p e = some (event, .inside did) ∧
      WaitOk e q event (.inside did) := by
    have hoke := hok e
    cases hp : p e with
    | none =>
      rw [hp] at hoke
      exact absurd (WaitOk.idle hoke (by simp)) hin
    | some at_ =>
      obtain ⟨event, pc⟩ := at_
      rw [hp] at hoke
      have hoke' : WaitOk e q event pc := hoke
      obtain ⟨did, rfl⟩ : ∃ did, pc = .inside did := by
        by_contra hnot
        exact hin (hoke'.idle fun did heq => hnot ⟨did, heq⟩)
      exact ⟨event, did, rfl, hoke'⟩
  have hthread := ha.thread
  have hlt := hs.left_lt ha
  by_cases hact : a = .act e
  · subst hact
    obtain ⟨event', hevent⟩ : ∃ event', takenBy e event r = some event' := by
      cases e with
      | producer => exact ⟨event, rfl⟩
      | consumer =>
        cases hs with
        | push hi =>
          obtain ⟨-, hc⟩ := h.acting hi
          cases hc
        | @pop _ value rest hi front => exact ⟨value, by simp [takenBy]⟩
    refine .of_step hp (.act hs hevent) trivial ?_
    simp only [waitWeight, WaitPc.rank]
    omega
  · by_cases hunlock : a = .unlock e
    · subst hunlock
      refine .of_step hp (.ret hs) trivial ?_
      have hrank : (WaitPc.after e (r.hadToWait e)).rank ≤ 12 := by
        cases e with
        | producer => unfold WaitPc.after; dsimp only; split_ifs <;> simp [WaitPc.rank]
        | consumer => simp [WaitPc.after, WaitPc.rank]
      have hinside : (WaitPc.inside did).rank = 20 := rfl
      simp only [waitWeight, hinside]
      omega
    · refine .of_step hp (.work hthread hact hunlock hin hs) ?_ ?_
      · cases a with
        | wakeUp j => exact ha.elim
        | _ => trivial
      · simp only [waitWeight, WaitPc.rank]
        omega

theorem someGoesOn_awake (hinv : WaitInv capacity q) (hok : ∀ e, waitOk e q (p e))
    (hawake : (q.queue.phase e).awake = true) : SomeGoesOn capacity q p := by
  obtain ⟨e', a, r, hs, ha, hawake'⟩ :=
    Blocking.exists_step_awake (Blocking.inv_reachable hinv.queue) hawake
  exact someGoesOn_queue hok hs ha hawake'

/-- **The threads of a queue get on without spurious wake-ups.** -/
def waitProgress (capacity : ℕ) : Progress (waitLaws capacity) where
  voluntary := WaitLabel.Voluntary
  weight := waitWeight
  rank := WaitPc.rank
  limit := 60
  rank_lt := fun pc => by cases pc <;> simp [WaitPc.rank]
  progress := fun q p hinv hok e event pc hp hreturns hact => by
    show SomeGoesOn capacity q p
    have h : WaitOk e q event pc := by
      have hoke := hok e
      rwa [hp] at hoke
    have hblocking := Blocking.inv_reachable (WaitInv.queue hinv)
    cases pc with
    | calling =>
      have hidle := h.idle (by simp)
      refine .of_step hp (.call (.call (waitCall event e) hidle)) trivial ?_
      have htotal := Threads.total_update (w := Blocking.Phase.left) (f := q.queue.phase) e
        (.entering (waitCall event e))
      rw [hidle] at htotal
      simp only [Blocking.Phase.left] at htotal
      simp only [waitWeight, WaitPc.rank, Blocking.State.goto]
      omega
    | waited =>
      refine .of_step hp (.countFull (.countFull e (h.unobserved (by simp)))) trivial ?_
      simp [waitWeight, WaitPc.rank, QueueStats.busy]
    | sizing =>
      cases howner : q.queue.owner with
      | none =>
        have hidle := h.unobserved (by simp)
        have hstep := QueueStats.Step.call e q.queue.queue.length hidle
        refine .of_step hp (.size howner hstep) trivial ?_
        have hbusy := QueueStats.busy_call hstep
        simp only [waitWeight, WaitPc.rank, hbusy]
        omega
      | some j =>
        have hj := (hblocking.exclusive j).1 howner
        refine someGoesOn_awake hinv hok (e := j) ?_
        cases hphase : q.queue.phase j <;> simp_all [Blocking.Phase.inMutex, Blocking.Phase.awake]
    | observing =>
      have hbusy : q.stats.phase e ≠ .idle := fun hidle => hreturns ⟨rfl, hidle⟩
      obtain ⟨t, hleads, hphase⟩ := (QueueStats.inv_reachable (WaitInv.stats hinv)).finish e
      refine ⟨e, event, .observing, ({ q with stats := t }, event, .observing), hp, ?_, ?_⟩
      · refine Relation.ReflTransGen.lift (fun t => ({ q with stats := t }, event, WaitPc.observing))
          ?_ _ _ hleads
        rintro t t' ⟨a, ha, hstep⟩
        exact ⟨.stats a, trivial, .observe ha hstep⟩
      · have hlt := QueueStats.busy_finish hbusy hphase
        simp only [waitWeight]
        omega
    | inside did =>
      cases hphase : q.queue.phase e with
      | blocked c =>
        have hiff := h.did_eq
        rw [hphase] at hiff
        have hdid : did = false := by simpa [Blocking.Phase.changed] using hiff
        subst hdid
        have hcall := h.before rfl
        rw [hphase] at hcall
        have hc : c = waitCall event e := Option.some.inj hcall
        subst hc
        have hroom : 0 < (waitCall event e).waitsOn.room capacity q.queue.queue := by
          have hcan := hact.resolve_left (by simp [waitLaws, WaitPc.did])
          cases e with
          | producer =>
            have hlt : q.queue.queue.length < capacity := hcan
            simp only [waitCall, Blocking.Call.waitsOn, Blocking.Condition.room]
            omega
          | consumer => exact List.length_pos_iff.2 hcan
        obtain ⟨j, hj⟩ := Blocking.exists_awake hblocking hphase hroom
        exact someGoesOn_awake hinv hok hj
      | idle =>
        exfalso
        cases did with
        | true =>
          have hchanged := h.behind rfl
          rw [hphase] at hchanged
          cases hchanged
        | false =>
          have hcall := h.before rfl
          rw [hphase] at hcall
          cases hcall
      | _ => exact someGoesOn_awake hinv hok (e := e) (by rw [hphase]; rfl)

end Hft.Bench
