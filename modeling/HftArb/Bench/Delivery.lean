import HftArb.Bench.Pipeline

/-!
# A pipeline over queues that keep their order delivers every event

`Laws` says what is asked of the two lambdas: a run of a lambda acts on a bounded first-in first-out
queue once, and the two ends of a queue do not disturb each other.  Then the pipeline is a
`FifoChain` (`simulation`), and `delivers` reads off what its sink has seen.
-/

namespace Hft.Bench

open Function Transition Concurrency

/-- The operation of an end takes effect: it pushes the event, or pops one into it. -/
def Acts (bound : ℕ) (q q' : Fifo PipelineEvent) (event event' : PipelineEvent) : Endpoint → Prop
  | .producer => event' = event ∧ Fifo.Step bound q (.push event) q'
  | .consumer => Fifo.Step bound q (.pop event') q'

/-- What is asked of the lambdas.  `ok e q p` is what holds at end `e` of a queue when its thread is
at `p` in the lambda, or outside. -/
structure Laws (L : Lambdas) (bound : ℕ) where
  fifo : L.Queue → Fifo PipelineEvent
  inv : L.Queue → Prop
  ok : Endpoint → L.Queue → Option (PipelineEvent × L.Pc) → Prop
  /-- The operation has taken effect. -/
  did : L.Pc → Bool
  fifo_fresh : fifo L.fresh = ⟨[], [], []⟩
  inv_fresh : inv L.fresh
  ok_fresh : ∀ e, ok e L.fresh none
  ok_enter : ∀ e q event, ok e q none → ok e q (some (event, L.enter))
  did_enter : did L.enter = false
  ok_step : ∀ e l q event pc r, inv q → ok e q (some (event, pc)) → L.step e l (q, event, pc) r →
    inv r.1 ∧ ok e r.1 (some r.2)
  ok_other : ∀ e e' l q event pc r p, e' ≠ e → inv q → ok e q (some (event, pc)) →
    L.step e l (q, event, pc) r → ok e' q p → ok e' r.1 p
  /-- A step leaves the contents alone, or it is the one that takes effect. -/
  effect : ∀ e l q event pc r, inv q → ok e q (some (event, pc)) → L.step e l (q, event, pc) r →
    (fifo r.1 = fifo q ∧ did r.2.2 = did pc ∧ r.2.1 = event) ∨
    (did pc = false ∧ did r.2.2 = true ∧ Acts bound (fifo q) (fifo r.1) event r.2.1 e)
  returns_ok : ∀ e q event pc, ok e q (some (event, pc)) → L.returns e q pc →
    did pc = true ∧ ok e q none

namespace Pipeline

variable {L : Lambdas} {bound n : ℕ} {events : BitVec 64} {s s' : Pipeline L}

/-! ### What the threads hold -/

section Holds

variable (W : Laws L bound)

/-- The queues as links of a chain. -/
def chain (s : Pipeline L) : FifoChain PipelineEvent := ⟨fun k => W.fifo (s.queue k), s.made⟩

/-- What thread `j` has made, or popped and worked on. -/
def supply (s : Pipeline L) (j : ℕ) : List PipelineEvent :=
  (s.chain W).supply PipelineEvent.worked j

/-- What thread `j` has pushed, or is done with. -/
def out (n : ℕ) (s : Pipeline L) (j : ℕ) : List PipelineEvent :=
  if j < n then (W.fifo (s.queue j)).pushed else s.sunk

end Holds

def NoStop (l : List PipelineEvent) : Prop := ∀ event ∈ l, event.stop = false

/-- What a thread at `t` holds between `supply` and `out`: at most one event, and none after the
stop event. -/
def Holds (did : L.Pc → Bool) (j : ℕ) (supply out : List PipelineEvent) :
    Thread L.Pc → Prop
  | .next => supply = out ∧ NoStop out
  | .inCall .consumer event pc =>
      supply = (if did pc then out ++ [event.worked j] else out) ∧ NoStop out
  | .inCall .producer event pc =>
      ∃ before, supply = before ++ [event] ∧ out = (if did pc then supply else before) ∧
        NoStop before
  | .finished =>
      supply = out ∧ ∃ before event, out = before ++ [event] ∧ event.stop = true ∧ NoStop before

/-- The invariant of the pipeline. -/
structure Inv (W : Laws L bound) (n : ℕ) (events : BitVec 64) (s : Pipeline L) : Prop where
  inv : ∀ k < n, W.inv (s.queue k)
  ok : ∀ k < n, ∀ e, W.ok e (s.queue k) ((s.thread (user k e)).position e)
  holds : ∀ j ≤ n, Holds W.did j (s.supply W j) (s.out W n j) (s.thread j)
  seq : s.made.length = s.seq
  made : ∀ i event, s.made[i]? = some event → ∃ now, event = eventAt events i now
  first : ∀ event pc, s.thread 0 ≠ .inCall .consumer event pc
  last : ∀ event pc, s.thread n ≠ .inCall .producer event pc
  timed : s.latencies.length = s.processed.length

section Steps

variable {W : Laws L bound}

/-- The threads that use different ends of queues are different, except the two ends of one
worker. -/
theorem user_injective {k k' : ℕ} {e : Endpoint} (h : user k e = user k' e) : k = k' := by
  cases e
  · exact h
  · exact Nat.succ_injective h

/-- A thread's own step does not touch the queues: the others find them as they were. -/
theorem Inv.ok_goto (h : Inv W n events s) {j : ℕ} {t : Thread L.Pc}
    (hj : ∀ k < n, ∀ e, user k e = j → W.ok e (s.queue k) (t.position e)) :
    ∀ k < n, ∀ e, W.ok e (s.queue k) (((s.goto j t).thread (user k e)).position e) := by
  intro k hk e
  by_cases hu : user k e = j
  · rw [hu, goto_thread_self]
    exact hj k hk e hu
  · rw [goto_thread_of_ne s hu]
    exact h.ok k hk e

/-- A thread that is in no lambda, or at the end of one, has left its queues. -/
theorem Inv.ok_left (h : Inv W n events s) {j : ℕ}
    (hr : ∀ k < n, ∀ e event pc, user k e = j → s.thread j = .inCall e event pc →
      L.returns e (s.queue k) pc) :
    ∀ k < n, ∀ e, user k e = j → W.ok e (s.queue k) none := by
  rintro k hk e rfl
  have hok := h.ok k hk e
  cases ht : s.thread (user k e) with
  | inCall e' event pc =>
    by_cases he : e' = e
    · subst he
      rw [ht, Thread.position, if_pos rfl] at hok
      exact (W.returns_ok _ _ _ _ hok (hr k hk _ event pc rfl ht)).2
    · rwa [ht, Thread.position, if_neg he] at hok
  | next => rwa [ht] at hok
  | finished => rwa [ht] at hok

/-- A thread goes on to another lambda, or to none. -/
theorem Inv.ok_local (h : Inv W n events s) {j : ℕ} {t : Thread L.Pc}
    (hr : ∀ k < n, ∀ e event pc, user k e = j → s.thread j = .inCall e event pc →
      L.returns e (s.queue k) pc)
    (ht : ∀ e event pc, t.position e = some (event, pc) → pc = L.enter) :
    ∀ k < n, ∀ e, W.ok e (s.queue k) (((s.goto j t).thread (user k e)).position e) := by
  refine h.ok_goto fun k hk e hu => ?_
  have hleft := h.ok_left hr k hk e hu
  cases hp : t.position e with
  | none => exact hleft
  | some p =>
    obtain ⟨event, pc⟩ := p
    rw [ht e event pc hp]
    exact W.ok_enter e _ event hleft

/-- A thread moves on with what it holds; the other threads hold what they held. -/
theorem Inv.holds_goto (h : Inv W n events s) {j : ℕ} {t : Thread L.Pc} {s' : Pipeline L}
    (hthread : s'.thread = update s.thread j t)
    (hj : j ≤ n → Holds W.did j (s'.supply W j) (s'.out W n j) t)
    (hsupply : ∀ i ≠ j, s'.supply W i = s.supply W i)
    (hout : ∀ i ≤ n, i ≠ j → s'.out W n i = s.out W n i) :
    ∀ i ≤ n, Holds W.did i (s'.supply W i) (s'.out W n i) (s'.thread i) := by
  intro i hi
  rw [hthread]
  rcases eq_or_ne i j with rfl | hij
  · rw [update_self]
    exact hj hi
  · rw [update_of_ne hij, hsupply i hij, hout i hi hij]
    exact h.holds i hi

theorem noStop_append {l : List PipelineEvent} {event : PipelineEvent} :
    NoStop (l ++ [event]) ↔ NoStop l ∧ event.stop = false := by
  simp only [NoStop, List.mem_append, List.mem_singleton, or_imp, forall_and, forall_eq]

@[simp]
theorem worked_stop (j : ℕ) (event : PipelineEvent) : (event.worked j).stop = event.stop := by
  unfold PipelineEvent.worked
  split <;> rfl

/-- What a thread holds when it has passed on an event. -/
theorem holds_after {did : L.Pc → Bool} {j : ℕ} {before : List PipelineEvent}
    {event : PipelineEvent} (hbefore : NoStop before) :
    Holds did j (before ++ [event]) (before ++ [event])
      (if event.stop then .finished else .next : Thread L.Pc) := by
  split_ifs with hstop
  · exact ⟨rfl, before, event, rfl, hstop, hbefore⟩
  · exact ⟨rfl, noStop_append.2 ⟨hbefore, Bool.eq_false_iff.2 hstop⟩⟩

theorem processed_concat (l : List PipelineEvent) (event : PipelineEvent) :
    ((l ++ [event]).filter fun e => !e.stop) =
      if event.stop then l.filter fun e => !e.stop else (l.filter fun e => !e.stop) ++ [event] := by
  rw [List.filter_append]
  split_ifs with hstop <;> simp [hstop]

/-! ### Each step -/

theorem Inv.make (h : Inv W n events s) (now : BitVec 64) (hn : 0 < n) (ht : s.thread 0 = .next) :
    Inv W n events
      { s.goto 0 (.inCall .producer (eventAt events s.seq now) L.enter) with
        seq := s.seq + 1
        made := s.made ++ [eventAt events s.seq now] } := by
  have hheld := h.holds 0 (Nat.zero_le n)
  rw [ht] at hheld
  have hmade : s.made = s.out W n 0 := hheld.1
  refine ⟨h.inv, ?_, ?_, ?_, fun i event hi => ?_, ?_, ?_, h.timed⟩
  · refine h.ok_local (fun k hk e event pc hu hin => ?_) fun e event pc hp => ?_
    · rw [ht] at hin
      cases hin
    · simp only [Thread.position] at hp
      split_ifs at hp
      cases hp
      rfl
  · refine h.holds_goto rfl (fun _ => ⟨s.made, rfl, ?_, ?_⟩) (fun i hi => ?_) fun i _ _ => rfl
    · rw [W.did_enter]
      exact hmade.symm
    · rw [hmade]
      exact hheld.2
    · cases i with
      | zero => exact absurd rfl hi
      | succ i => rfl
  · simp [h.seq]
  · rw [List.getElem?_append] at hi
    split_ifs at hi with hlt
    · exact h.made i event hi
    · obtain ⟨hzero, heq⟩ := List.getElem?_eq_some_iff.1 hi
      have hi' : i = s.seq := by
        have hseq := h.seq
        simp only [List.length_singleton] at hzero
        omega
      refine ⟨now, ?_⟩
      rw [← heq, List.getElem_singleton, hi']
  · intro event pc
    simp
  · intro event pc
    rw [show (_ : Pipeline L).thread n = s.thread n from goto_thread_of_ne s (by omega) _]
    exact h.last event pc

theorem Inv.take (h : Inv W n events s) {k : ℕ} (hk : k < n) (ht : s.thread (k + 1) = .next) :
    Inv W n events (s.goto (k + 1) (.inCall .consumer {} L.enter)) := by
  have hheld := h.holds (k + 1) hk
  rw [ht] at hheld
  refine ⟨h.inv, ?_, ?_, h.seq, h.made, ?_, ?_, h.timed⟩
  · refine h.ok_local (fun k hk e event pc hu hin => ?_) fun e event pc hp => ?_
    · rw [ht] at hin
      cases hin
    · simp only [Thread.position] at hp
      split_ifs at hp
      cases hp
      rfl
  · refine h.holds_goto rfl (fun _ => ⟨?_, hheld.2⟩) (fun i _ => rfl) fun i _ _ => rfl
    rw [W.did_enter]
    exact hheld.1
  · intro event pc
    rw [goto_thread_of_ne s (by omega)]
    exact h.first event pc
  · intro event pc
    rcases eq_or_ne n (k + 1) with rfl | hne
    · simp
    · rw [goto_thread_of_ne s hne]
      exact h.last event pc

theorem Inv.passed (h : Inv W n events s) {k : ℕ} {event : PipelineEvent} {pc : L.Pc} (hk : k < n)
    (ht : s.thread k = .inCall .producer event pc) (hr : L.returns .producer (s.queue k) pc) :
    Inv W n events (s.goto k (if event.stop then .finished else .next)) := by
  have hheld := h.holds k hk.le
  have hok := h.ok k hk .producer
  simp only [user, ht, Thread.position, if_true] at hok
  rw [ht] at hheld
  obtain ⟨before, hsupply, hout, hbefore⟩ := hheld
  rw [(W.returns_ok _ _ _ _ hok hr).1, if_pos rfl, hsupply] at hout
  refine ⟨h.inv, ?_, ?_, h.seq, h.made, ?_, ?_, h.timed⟩
  · refine h.ok_local (fun k' hk' e event' pc' hu hin => ?_) fun e event' pc' hp => ?_
    · rw [ht] at hin
      cases hin
      cases hu
      exact hr
    · split_ifs at hp <;> cases hp
  · refine h.holds_goto rfl (fun _ => ?_) (fun i _ => rfl) fun i _ _ => rfl
    show Holds W.did k (s.supply W k) (s.out W n k) _
    rw [hout, hsupply]
    exact holds_after hbefore
  · intro event' pc'
    rcases eq_or_ne 0 k with rfl | hne
    · rw [goto_thread_self]
      split_ifs <;> simp
    · rw [goto_thread_of_ne s hne]
      exact h.first event' pc'
  · intro event' pc'
    rw [goto_thread_of_ne s (by omega)]
    exact h.last event' pc'

/-- A thread that has popped an event holds it, worked on. -/
theorem Inv.popped (h : Inv W n events s) {k : ℕ} {event : PipelineEvent} {pc : L.Pc} (hk : k < n)
    (ht : s.thread (k + 1) = .inCall .consumer event pc)
    (hr : L.returns .consumer (s.queue k) pc) :
    s.supply W (k + 1) = s.out W n (k + 1) ++ [event.worked (k + 1)] ∧
      NoStop (s.out W n (k + 1)) := by
  have hheld := h.holds (k + 1) hk
  have hok := h.ok k hk .consumer
  simp only [user, ht, Thread.position, if_true] at hok
  rw [ht] at hheld
  obtain ⟨hsupply, hnoStop⟩ := hheld
  rw [(W.returns_ok _ _ _ _ hok hr).1, if_pos rfl] at hsupply
  exact ⟨hsupply, hnoStop⟩

/-- A consumer that leaves its lambda has left both of its queues. -/
theorem Inv.ok_popped (h : Inv W n events s) {k : ℕ} {event : PipelineEvent} {pc : L.Pc}
    {t : Thread L.Pc} (ht : s.thread (k + 1) = .inCall .consumer event pc)
    (hr : L.returns .consumer (s.queue k) pc)
    (henter : ∀ e event pc, t.position e = some (event, pc) → pc = L.enter) :
    ∀ k' < n, ∀ e, W.ok e (s.queue k') (((s.goto (k + 1) t).thread (user k' e)).position e) := by
  refine h.ok_local (fun k' hk' e event' pc' hu hin => ?_) henter
  rw [ht] at hin
  cases hin
  cases hu
  exact hr

theorem Inv.handed (h : Inv W n events s) {k : ℕ} {event : PipelineEvent} {pc : L.Pc}
    (hk : k + 1 < n) (ht : s.thread (k + 1) = .inCall .consumer event pc)
    (hr : L.returns .consumer (s.queue k) pc) :
    Inv W n events (s.goto (k + 1) (.inCall .producer (event.worked (k + 1)) L.enter)) := by
  obtain ⟨hsupply, hnoStop⟩ := h.popped (by omega) ht hr
  refine ⟨h.inv, ?_, ?_, h.seq, h.made, ?_, ?_, h.timed⟩
  · refine h.ok_popped ht hr fun e event' pc' hp => ?_
    simp only [Thread.position] at hp
    split_ifs at hp
    cases hp
    rfl
  · refine h.holds_goto rfl (fun _ => ⟨_, hsupply, ?_, hnoStop⟩) (fun i _ => rfl) fun i _ _ => rfl
    rw [W.did_enter]
    rfl
  · intro event' pc'
    rw [goto_thread_of_ne s (by omega)]
    exact h.first event' pc'
  · intro event' pc'
    rw [goto_thread_of_ne s (by omega)]
    exact h.last event' pc'

theorem Inv.sunk (h : Inv W n events s) {k : ℕ} {event : PipelineEvent} {pc : L.Pc}
    (now : BitVec 64) (hk : k + 1 = n) (ht : s.thread (k + 1) = .inCall .consumer event pc)
    (hr : L.returns .consumer (s.queue k) pc) :
    Inv W n events
      { s.goto (k + 1) (if event.stop then .finished else .next) with
        latencies := if event.stop then s.latencies else s.latencies ++ [now - event.createdNs]
        sunk := s.sunk ++ [event.worked (k + 1)] } := by
  obtain ⟨hsupply, hnoStop⟩ := h.popped (by omega) ht hr
  have hlast : s.out W n (k + 1) = s.sunk := if_neg (by omega)
  rw [hlast] at hsupply hnoStop
  refine ⟨h.inv, ?_, ?_, h.seq, h.made, ?_, ?_, ?_⟩
  · refine h.ok_popped ht hr fun e event' pc' hp => ?_
    split_ifs at hp <;> cases hp
  · refine h.holds_goto rfl (fun _ => ?_) (fun i _ => rfl) fun i hi hne => ?_
    · have hout : ∀ s' : Pipeline L, s'.out W n (k + 1) = s'.sunk := fun _ => if_neg (by omega)
      rw [hout]
      show Holds W.did (k + 1) (s.supply W (k + 1)) _ _
      rw [hsupply, ← worked_stop (k + 1) event]
      exact holds_after hnoStop
    · have hlt : i < n := by omega
      rw [out, out, if_pos hlt, if_pos hlt]
      rfl
  · intro event' pc'
    have hother := goto_thread_of_ne s (show 0 ≠ k + 1 by omega)
      (if event.stop then .finished else .next)
    exact fun heq => h.first event' pc' (hother.symm.trans heq)
  · intro event' pc'
    rw [← hk]
    simp only [goto_thread_self]
    split_ifs <;> simp
  · have htimed := h.timed
    unfold processed at htimed ⊢
    rw [processed_concat, worked_stop]
    split_ifs
    · exact htimed
    · simp [htimed]

/-! ### A step of a lambda -/

section Put

variable {k : ℕ} {q : L.Queue} (j : ℕ) (t : Thread L.Pc)

theorem supply_put_of_ne {i : ℕ} (hi : i ≠ k + 1) :
    ((s.goto j t).put k q).supply W i = s.supply W i := by
  cases i with
  | zero => rfl
  | succ i =>
    have hik : i ≠ k := fun heq => hi (by rw [heq])
    simp only [supply, chain, FifoChain.supply, put, goto, update_of_ne hik]

theorem supply_put_succ : ((s.goto j t).put k q).supply W (k + 1) =
    (W.fifo q).popped.map (PipelineEvent.worked (k + 1)) := by
  simp only [supply, chain, FifoChain.supply, put, update_self]

/-- Unless something is popped the supplies stay. -/
theorem supply_put_of_popped (hpopped : (W.fifo q).popped = (W.fifo (s.queue k)).popped) (i : ℕ) :
    ((s.goto j t).put k q).supply W i = s.supply W i := by
  rcases eq_or_ne i (k + 1) with rfl | hi
  · rw [supply_put_succ, hpopped]
    rfl
  · exact supply_put_of_ne j t hi

/-- Unless something is pushed the threads have passed on what they had. -/
theorem out_put_of_pushed (hpushed : (W.fifo q).pushed = (W.fifo (s.queue k)).pushed) (i : ℕ) :
    ((s.goto j t).put k q).out W n i = s.out W n i := by
  rcases eq_or_ne i k with rfl | hik
  · simp only [out, put, goto, update_self, hpushed]
  · simp only [out, put, goto, update_of_ne hik]

end Put

theorem pushed_of_step {q q' : Fifo PipelineEvent} {event : PipelineEvent}
    (hstep : Fifo.Step bound q (.push event) q') :
    q'.pushed = q.pushed ++ [event] ∧ q'.popped = q.popped := by
  cases hstep
  exact ⟨rfl, rfl⟩

theorem popped_of_step {q q' : Fifo PipelineEvent} {event : PipelineEvent}
    (hstep : Fifo.Step bound q (.pop event) q') :
    q'.pushed = q.pushed ∧ q'.popped = q.popped ++ [event] := by
  cases hstep
  exact ⟨rfl, rfl⟩

/-- The step of a lambda leaves what both ends' threads hold alone, except for its own event. -/
theorem Inv.holds_quiet (h : Inv W n events s) {k : ℕ} {e : Endpoint} {event : PipelineEvent}
    {pc pc' : L.Pc} {queue' : L.Queue} (ht : s.thread (user k e) = .inCall e event pc)
    (hfifo : W.fifo queue' = W.fifo (s.queue k)) (hdid : W.did pc' = W.did pc) :
    ∀ i ≤ n, Holds W.did i
      (((s.goto (user k e) (.inCall e event pc')).put k queue').supply W i)
      (((s.goto (user k e) (.inCall e event pc')).put k queue').out W n i)
      ((s.goto (user k e) (.inCall e event pc')).thread i) := by
  have hsupply := supply_put_of_popped (W := W) (q := queue') (user k e)
    (.inCall e event pc') (congrArg Fifo.popped hfifo)
  have hout := out_put_of_pushed (W := W) (n := n) (q := queue') (user k e)
    (.inCall e event pc') (congrArg Fifo.pushed hfifo)
  refine h.holds_goto rfl (fun hj => ?_) (fun i _ => hsupply i) fun i _ _ => hout i
  have hheld := h.holds (user k e) hj
  rw [ht] at hheld
  rw [hsupply, hout]
  cases e <;> simpa only [Holds, hdid] using hheld

/-- The producing end's operation takes effect: its event goes into the queue. -/
theorem Inv.holds_push (h : Inv W n events s) {k : ℕ} {event : PipelineEvent} {pc pc' : L.Pc}
    {queue' : L.Queue} (hk : k < n) (ht : s.thread k = .inCall .producer event pc)
    (hpc : W.did pc = false) (hpc' : W.did pc' = true)
    (hstep : Fifo.Step bound (W.fifo (s.queue k)) (.push event) (W.fifo queue')) :
    ∀ i ≤ n, Holds W.did i
      (((s.goto k (.inCall .producer event pc')).put k queue').supply W i)
      (((s.goto k (.inCall .producer event pc')).put k queue').out W n i)
      ((s.goto k (.inCall .producer event pc')).thread i) := by
  obtain ⟨hpushed, hpopped⟩ := pushed_of_step hstep
  have hsupply := supply_put_of_popped (W := W) (q := queue') k (.inCall .producer event pc')
    hpopped
  refine h.holds_goto rfl (fun hj => ?_) (fun i _ => hsupply i) fun i hi hik => ?_
  · have hheld := h.holds k hj
    rw [ht] at hheld
    obtain ⟨before, hbefore, hout, hnoStop⟩ := hheld
    rw [hpc, out, if_pos hk] at hout
    refine ⟨before, (hsupply k).trans hbefore, ?_, hnoStop⟩
    rw [hpc', if_pos rfl, hsupply, hbefore, out, if_pos hk]
    simp only [put, update_self, hpushed, hout, Bool.false_eq_true, if_false]
  · simp only [out, put, goto, update_of_ne hik]

/-- The consuming end's operation takes effect: the oldest event comes out. -/
theorem Inv.holds_pop (h : Inv W n events s) {k : ℕ} {event event' : PipelineEvent}
    {pc pc' : L.Pc} {queue' : L.Queue} (ht : s.thread (k + 1) = .inCall .consumer event pc)
    (hpc : W.did pc = false) (hpc' : W.did pc' = true)
    (hstep : Fifo.Step bound (W.fifo (s.queue k)) (.pop event') (W.fifo queue')) :
    ∀ i ≤ n, Holds W.did i
      (((s.goto (k + 1) (.inCall .consumer event' pc')).put k queue').supply W i)
      (((s.goto (k + 1) (.inCall .consumer event' pc')).put k queue').out W n i)
      ((s.goto (k + 1) (.inCall .consumer event' pc')).thread i) := by
  obtain ⟨hpushed, hpopped⟩ := popped_of_step hstep
  have hout := out_put_of_pushed (W := W) (n := n) (q := queue') (k + 1)
    (.inCall .consumer event' pc') hpushed
  refine h.holds_goto rfl (fun hj => ?_) (fun i hi => supply_put_of_ne _ _ hi) fun i _ _ => hout i
  · have hheld := h.holds (k + 1) hj
    rw [ht] at hheld
    obtain ⟨hsupply, hnoStop⟩ := hheld
    rw [hpc] at hsupply
    rw [hout]
    refine ⟨?_, hnoStop⟩
    rw [hpc', if_pos rfl]
    simp only [Bool.false_eq_true, if_false] at hsupply
    rw [← hsupply, supply_put_succ, hpopped, List.map_append]
    rfl

theorem Inv.inCall (h : Inv W n events s) {k : ℕ} {e : Endpoint} {l : L.Label}
    {event event' : PipelineEvent} {pc pc' : L.Pc} {queue' : L.Queue} (hk : k < n)
    (ht : s.thread (user k e) = .inCall e event pc)
    (hs : L.step e l (s.queue k, event, pc) (queue', event', pc')) :
    Inv W n events ((s.goto (user k e) (.inCall e event' pc')).put k queue') := by
  have hinv := h.inv k hk
  have hok := h.ok k hk e
  rw [ht, Thread.position, if_pos rfl] at hok
  have hstep := W.ok_step _ _ _ _ _ _ hinv hok hs
  refine ⟨fun k' hk' => ?_, fun k' hk' e' => ?_, ?_, h.seq, h.made, fun event₀ pc₀ => ?_,
    fun event₀ pc₀ => ?_, h.timed⟩
  · rcases eq_or_ne k' k with rfl | hne
    · simpa [put] using hstep.1
    · simpa [put, goto, update_of_ne hne] using h.inv k' hk'
  · have hother := h.ok k' hk' e'
    rcases eq_or_ne k' k with rfl | hne
    · simp only [put, update_self]
      by_cases he : e' = e
      · subst he
        rw [goto_thread_self, Thread.position, if_pos rfl]
        exact hstep.2
      · have hu : user k' e' ≠ user k' e := by
          cases e <;> cases e' <;> simp_all [user]
        rw [goto_thread_of_ne s hu]
        exact W.ok_other _ _ _ _ _ _ _ _ he hinv hok hs hother
    · simp only [put, update_of_ne hne]
      by_cases hu : user k' e' = user k e
      · -- one worker at two queues: it is in the lambda of this one only
        have he : e ≠ e' := by
          rintro rfl
          exact hne (user_injective hu)
        rw [hu, ht, Thread.position, if_neg he] at hother
        rw [hu, goto_thread_self, Thread.position, if_neg he]
        exact hother
      · rw [goto_thread_of_ne s hu]
        exact hother
  · rcases W.effect _ _ _ _ _ _ hinv hok hs with ⟨hfifo, hdid, hevent⟩ | ⟨hpc, hpc', heffect⟩
    · simp only at hevent
      subst hevent
      exact h.holds_quiet ht hfifo hdid
    · cases e with
      | producer =>
        obtain ⟨hevent, hpush⟩ := heffect
        simp only at hevent
        subst hevent
        exact h.holds_push hk ht hpc hpc' hpush
      | consumer => exact h.holds_pop ht hpc hpc' heffect
  · rcases eq_or_ne 0 (user k e) with hu | hne
    · rw [hu]
      cases e with
      | producer => simp
      | consumer => simp [user] at hu
    · have hother := goto_thread_of_ne s hne (.inCall e event' pc')
      exact fun heq => h.first event₀ pc₀ (hother.symm.trans heq)
  · rcases eq_or_ne n (user k e) with hu | hne
    · rw [hu]
      cases e with
      | producer => simp only [user] at hu; omega
      | consumer => simp
    · have hother := goto_thread_of_ne s hne (.inCall e event' pc')
      exact fun heq => h.last event₀ pc₀ (hother.symm.trans heq)

/-- **Every step preserves the invariant.** -/
theorem inv_step {a : Action L.Label} (h : Inv W n events s) (hs : Step L n events s a s') :
    Inv W n events s' := by
  cases hs with
  | make now hn ht => exact h.make now hn ht
  | take hk ht => exact h.take hk ht
  | inCall hk ht hs => exact h.inCall hk ht hs
  | passed hk ht hr => exact h.passed hk ht hr
  | handed hk ht hr => exact h.handed hk ht hr
  | sunk now hk ht hr => exact h.sunk now hk ht hr

theorem inv_init (W : Laws L bound) (n : ℕ) (events : BitVec 64) :
    Inv W n events ({} : Pipeline L) where
  inv := fun _ _ => W.inv_fresh
  ok := fun _ _ e => W.ok_fresh e
  holds := fun j _ => by
    have hfifo := W.fifo_fresh
    refine ⟨?_, ?_⟩
    · cases j <;> simp [supply, out, chain, FifoChain.supply, hfifo]
    · intro event hevent
      simp [out, hfifo] at hevent
  seq := rfl
  made := fun i event hi => by cases hi
  first := fun _ _ ht => by cases ht
  last := fun _ _ ht => by cases ht
  timed := rfl

theorem inv_reachable (W : Laws L bound) (h : (system L n events).Reachable s) :
    Inv W n events s :=
  h.induct (I := Inv W n events) (by rintro _ rfl; exact inv_init W n events)
    fun _ _ _ hi hs => inv_step hi hs

/-! ### The chain -/

/-- A thread holds at most one event. -/
theorem Holds.length_le {did : L.Pc → Bool} {j : ℕ} {supply out : List PipelineEvent}
    {t : Thread L.Pc} (h : Holds did j supply out t) : supply.length ≤ out.length + 1 := by
  cases t with
  | next => rw [h.1]; omega
  | finished => rw [h.1]; omega
  | inCall e event pc =>
    cases e with
    | producer =>
      obtain ⟨before, hsupply, hout, -⟩ := h
      rw [hout]
      split_ifs
      · omega
      · simp [hsupply]
    | consumer =>
      rw [h.1]
      split_ifs
      · simp
      · omega

theorem Inv.out_begins (h : Inv W n events s) {j : ℕ} (hj : j ≤ n) :
    s.out W n j <+: s.supply W j := by
  have hheld := h.holds j hj
  cases ht : s.thread j with
  | next =>
    rw [ht] at hheld
    rw [hheld.1]
  | finished =>
    rw [ht] at hheld
    rw [hheld.1]
  | inCall e event pc =>
    rw [ht] at hheld
    cases e with
    | producer =>
      obtain ⟨before, hsupply, hout, -⟩ := hheld
      rw [hout]
      split_ifs
      · exact List.prefix_refl _
      · exact hsupply ▸ List.prefix_append _ _
    | consumer =>
      rw [hheld.1]
      split_ifs
      · exact List.prefix_append _ _
      · exact List.prefix_refl _

/-- **The pipeline is a chain of queues.** -/
theorem simulation (W : Laws L bound) (n : ℕ) (events : BitVec 64) :
    System.Simulation (system L n events) (FifoChain.system PipelineEvent.worked n bound)
      (Inv W n events) (chain W) where
  init := by
    rintro _ rfl
    show chain W _ = _
    simp only [chain, W.fifo_fresh]
  step := by
    intro s a s' h hs
    cases hs with
    | make now hn ht =>
      right
      have hheld := h.holds 0 (Nat.zero_le n)
      rw [ht] at hheld
      refine ⟨.make (eventAt events s.seq now), FifoChain.Step.make (s.chain W) _ fun _ => ?_⟩
      have hout : s.supply W 0 = s.out W n 0 := hheld.1
      rw [out, if_pos hn] at hout
      exact (congrArg List.length hout).symm
    | take hk ht => exact Or.inl rfl
    | passed hk ht hr => exact Or.inl rfl
    | handed hk ht hr => exact Or.inl rfl
    | sunk now hk ht hr => exact Or.inl rfl
    | @inCall k e l event event' pc pc' queue' hk ht hs =>
      have hinv := h.inv k hk
      have hok := h.ok k hk e
      rw [ht, Thread.position, if_pos rfl] at hok
      have hchain : chain W ((s.goto (user k e) (.inCall e event' pc')).put k queue') =
          { s.chain W with links := update (s.chain W).links k (W.fifo queue') } := by
        simp only [chain, put, goto, FifoChain.mk.injEq, and_true]
        funext i
        rcases eq_or_ne i k with rfl | hik
        · rw [update_self, update_self]
        · rw [update_of_ne hik, update_of_ne hik]
      rw [hchain]
      rcases W.effect _ _ _ _ _ _ hinv hok hs with ⟨hfifo, -, -⟩ | ⟨hpc, hpc', heffect⟩
      · left
        simp only at hfifo
        rw [hfifo]
        simp only [chain, update_eq_self]
      · right
        cases e with
        | producer =>
          obtain ⟨-, hpush⟩ := heffect
          refine ⟨.push k event, FifoChain.Step.push (s.chain W) k event _ hk ?_ hpush⟩
          have hheld := h.holds k hk.le
          rw [show s.thread k = _ from ht] at hheld
          obtain ⟨before, hsupply, hout, -⟩ := hheld
          rw [hpc, out, if_pos hk] at hout
          show (s.supply W k)[((W.fifo (s.queue k)).pushed).length]? = some event
          rw [hsupply, hout]
          simp
        | consumer =>
          refine ⟨.pop k event', FifoChain.Step.pop (s.chain W) k event' _ hk (fun hk' => ?_)
            heffect⟩
          have hheld := h.holds (k + 1) hk
          rw [show s.thread (k + 1) = _ from ht] at hheld
          obtain ⟨hsupply, -⟩ := hheld
          rw [hpc, out, if_pos hk'] at hsupply
          have hlength := congrArg List.length hsupply
          simp only [supply, FifoChain.supply, List.length_map] at hlength
          exact hlength.symm

/-! ### What the sink has seen -/

/-- What the stages up to `n` make of a payload. -/
def stagePayload (n : ℕ) (value : BitVec 64) : BitVec 64 :=
  (List.range n).foldl (fun value j => doStageWork value (j + 1)) value

theorem through_worked (n : ℕ) (event : PipelineEvent) :
    FifoChain.through PipelineEvent.worked n event =
      if event.stop then event else { event with payload := stagePayload n event.payload } := by
  induction n with
  | zero =>
    split_ifs
    · rfl
    · rfl
  | succ n ih =>
    simp only [FifoChain.through, ih]
    split_ifs with hstop
    · rw [PipelineEvent.worked, if_pos hstop]
    · rw [PipelineEvent.worked, if_neg (by simpa using hstop), stagePayload, stagePayload,
        List.range_succ, List.foldl_append]
      rfl

theorem eventAt_stop (events : BitVec 64) (i : ℕ) (now : BitVec 64) :
    (eventAt events i now).stop = decide (events.toNat ≤ i) := by
  unfold eventAt
  split_ifs with hi
  · exact (decide_eq_false (by omega)).symm
  · exact (decide_eq_true (by omega)).symm

theorem worked_through_stop (n : ℕ) (event : PipelineEvent) :
    (FifoChain.through PipelineEvent.worked n event).stop = event.stop := by
  rw [through_worked]
  split_ifs <;> rfl

/-- What a thread was supplied with is what the producer made first, worked on. -/
theorem Inv.supply_at (h : Inv W n events s)
    (hchain : ∀ k < n, (s.chain W).LinkOk PipelineEvent.worked bound k) {j i : ℕ} (hj : j ≤ n)
    {event : PipelineEvent} (hi : (s.supply W j)[i]? = some event) :
    ∃ now, s.made[i]? = some (eventAt events i now) ∧
      event = FifoChain.through PipelineEvent.worked j (eventAt events i now) := by
  have hmapped : (s.made.map (FifoChain.through PipelineEvent.worked j))[i]? = some event := by
    obtain ⟨rest, hrest⟩ := FifoChain.out_begins hchain j hj
    obtain ⟨hlt, -⟩ := List.getElem?_eq_some_iff.1 hi
    show ((s.chain W).made.map _)[i]? = some event
    rw [← hrest]
    exact (List.getElem?_append_left hlt).trans hi
  rw [List.getElem?_map, Option.map_eq_some_iff] at hmapped
  obtain ⟨original, horiginal, rfl⟩ := hmapped
  obtain ⟨now, rfl⟩ := h.made i original horiginal
  exact ⟨now, horiginal, rfl⟩

theorem Inv.supply_stop (h : Inv W n events s)
    (hchain : ∀ k < n, (s.chain W).LinkOk PipelineEvent.worked bound k) {j : ℕ} (hj : j ≤ n) :
    ∀ i event, (s.supply W j)[i]? = some event → event.stop = decide (events.toNat ≤ i) := by
  intro i event hi
  obtain ⟨now, -, rfl⟩ := h.supply_at hchain hj hi
  rw [worked_through_stop, eventAt_stop]

/-- The sink is done with the first of the events it was supplied with. -/
theorem Inv.sunk_prefix (h : Inv W n events s) : s.sunk <+: s.supply W n := by
  have hout := h.out_begins le_rfl
  rwa [out, if_neg (lt_irrefl n)] at hout

theorem Inv.supply_of_sunk (h : Inv W n events s) {i : ℕ} {event : PipelineEvent}
    (hi : s.sunk[i]? = some event) : (s.supply W n)[i]? = some event := by
  obtain ⟨rest, hrest⟩ := h.sunk_prefix
  obtain ⟨hlt, -⟩ := List.getElem?_eq_some_iff.1 hi
  rw [← hrest, List.getElem?_append_left hlt, hi]

/-- A list whose events are stop events from number `m` on. -/
theorem filter_eq_take {l : List PipelineEvent} {m : ℕ}
    (hl : ∀ i event, l[i]? = some event → event.stop = decide (m ≤ i)) :
    (l.filter fun e => !e.stop) = l.take m := by
  conv_lhs => rw [← List.take_append_drop m l, List.filter_append]
  have htake : (l.take m).filter (fun e => !e.stop) = l.take m := by
    refine List.filter_eq_self.2 fun event hevent => ?_
    obtain ⟨i, hi⟩ := List.mem_iff_getElem?.1 hevent
    rw [List.getElem?_take] at hi
    split_ifs at hi with hlt
    rw [hl i event hi, decide_eq_false (by omega)]
    rfl
  have hdrop : (l.drop m).filter (fun e => !e.stop) = [] := by
    refine List.filter_eq_nil_iff.2 fun event hevent => ?_
    obtain ⟨i, hi⟩ := List.mem_iff_getElem?.1 hevent
    rw [List.getElem?_drop] at hi
    rw [hl (m + i) event hi, decide_eq_true (by omega)]
    simp
  rw [htake, hdrop, List.append_nil]

/-- Before the stop event there are at most `m` events. -/
theorem length_le_of_noStop {l before : List PipelineEvent} {m : ℕ}
    (hl : ∀ i event, l[i]? = some event → event.stop = decide (m ≤ i)) (hbefore : before <+: l)
    (hnoStop : NoStop before) : before.length ≤ m := by
  by_contra hlt
  have hm : m < before.length := by omega
  obtain ⟨rest, rfl⟩ := hbefore
  have hstop := hl m before[m] (by rw [List.getElem?_append_left hm, List.getElem?_eq_getElem hm])
  rw [hnoStop _ (List.getElem_mem hm), decide_eq_true le_rfl] at hstop
  cases hstop

/-- A thread that has finished has passed on all events: `m`, and the stop event. -/
theorem length_of_finished {l : List PipelineEvent} {m : ℕ}
    (hl : ∀ i event, l[i]? = some event → event.stop = decide (m ≤ i))
    (hfinished : ∃ before event, l = before ++ [event] ∧ event.stop = true ∧ NoStop before) :
    l.length = m + 1 := by
  obtain ⟨before, event, rfl, hstop, hnoStop⟩ := hfinished
  have hle := length_le_of_noStop hl (List.prefix_append _ _) hnoStop
  have hge := hl before.length event (by simp)
  rw [hstop] at hge
  have hm := of_decide_eq_true hge.symm
  rw [List.length_append, List.length_singleton]
  omega

/-- What a thread has been supplied with ends with the stop event, at the latest. -/
theorem Inv.supply_length_le (h : Inv W n events s) {j : ℕ} (hj : j ≤ n)
    (hl : ∀ i event, (s.supply W j)[i]? = some event →
      event.stop = decide (events.toNat ≤ i)) :
    (s.supply W j).length ≤ events.toNat + 1 := by
  have hheld := h.holds j hj
  cases ht : s.thread j with
  | next =>
    rw [ht] at hheld
    have hle := length_le_of_noStop hl (List.prefix_refl _) (hheld.1 ▸ hheld.2)
    omega
  | finished =>
    rw [ht] at hheld
    exact (length_of_finished hl (hheld.1 ▸ hheld.2)).le
  | inCall e event pc =>
    rw [ht] at hheld
    cases e with
    | producer =>
      obtain ⟨before, hsupply, -, hnoStop⟩ := hheld
      have hle := length_le_of_noStop hl (hsupply ▸ List.prefix_append _ _) hnoStop
      rw [hsupply, List.length_append, List.length_singleton]
      omega
    | consumer =>
      have hle := length_le_of_noStop hl (h.out_begins hj) hheld.2
      have hlength := congrArg List.length hheld.1
      split_ifs at hlength
      · rw [List.length_append, List.length_singleton] at hlength
        omega
      · omega

/-- What holds of the pipeline at any moment. -/
structure Delivered (W : Laws L bound) (n : ℕ) (events : BitVec 64) (s : Pipeline L) : Prop where
  /-- The sink processes the producer's events in the order of their numbers, each once and with
  the work of all stages done. -/
  inOrder : ∀ i event, s.processed[i]? = some event → i < events.toNat ∧
    ∃ now, s.made[i]? = some (eventAt events i now) ∧
      event = ⟨BitVec.ofNat 64 i, now, stagePayload n (BitVec.ofNat 64 i * 17), false⟩
  /-- One latency for each. -/
  timed : s.latencies.length = s.processed.length
  /-- The producer is ahead by what fits into the queues and the threads' hands. -/
  backlog : s.made.length ≤ s.processed.length + 2 + n * (bound + 1)
  /-- When the sink is out of its loop it has processed every event, and the queues are empty. -/
  complete : s.thread n = .finished → s.processed.length = events.toNat ∧
    ∀ k < n, (W.fifo (s.queue k)).contents = []

/-- **No event is lost, repeated or overtaken**, whatever the interleaving. -/
theorem delivered (W : Laws L bound) (h : (system L n events).Reachable s) :
    s.Delivered W n events := by
  have hi := inv_reachable W h
  have hlinks := FifoChain.reachable_spec
    ((simulation W n events).reachable (fun _ => inv_reachable W) h)
  have hsunk : ∀ i event, s.sunk[i]? = some event → event.stop = decide (events.toNat ≤ i) :=
    fun i event hevent => hi.supply_stop hlinks le_rfl i event (hi.supply_of_sunk hevent)
  have hprocessed : s.processed = s.sunk.take events.toNat := filter_eq_take hsunk
  have hout : s.out W n n = s.sunk := if_neg (lt_irrefl n)
  have hall : s.made.length ≤ events.toNat + 1 :=
    hi.supply_length_le (Nat.zero_le n) (hi.supply_stop hlinks (Nat.zero_le n))
  have hsupplyLe : (s.supply W n).length ≤ s.made.length := by
    have hbegins := (FifoChain.out_begins hlinks n le_rfl).length_le
    rwa [List.length_map] at hbegins
  refine ⟨fun i event hevent => ?_, hi.timed, ?_, fun hfinished => ?_⟩
  · rw [hprocessed, List.getElem?_take] at hevent
    split_ifs at hevent with hlt
    obtain ⟨now, hmadeAt, rfl⟩ := hi.supply_at hlinks le_rfl (hi.supply_of_sunk hevent)
    refine ⟨hlt, now, hmadeAt, ?_⟩
    rw [through_worked, eventAt, if_pos hlt]
    rfl
  · have hmadeLe : s.made.length ≤ (s.supply W n).length + n * (bound + 1) :=
      FifoChain.made_le hlinks n le_rfl
    have hheld := (hi.holds n le_rfl).length_le
    rw [hout] at hheld
    rw [hprocessed, List.length_take]
    have hsunkLe := hi.sunk_prefix.length_le
    omega
  · have hheld := hi.holds n le_rfl
    rw [hfinished, hout] at hheld
    have hlength := length_of_finished hsunk hheld.2
    refine ⟨by rw [hprocessed, List.length_take, hlength]; omega, fun k hk => ?_⟩
    have hdrained : ((s.chain W).supply PipelineEvent.worked n).length = s.made.length := by
      have hlast : (s.supply W n).length = events.toNat + 1 := by rw [hheld.1, hlength]
      exact le_antisymm hsupplyLe (hall.trans hlast.ge)
    exact (FifoChain.drained hlinks hdrained k hk).1

end Steps

end Pipeline

end Hft.Bench
