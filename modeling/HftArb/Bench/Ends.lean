import HftArb.Bench.Delivery

/-!
# The pipeline can always be run to its end

`Progress` says what is asked of the lambdas: when the thread at an end could have its operation
done, or has it done, one of the two threads of the queue can go on by itself.  Then some thread of
the pipeline can always go on (`exists_active`), and a measure of the work that is left decreases
(`completes`).
-/

namespace Hft.Bench

open Function Transition Transition.System Concurrency

/-- The operation of an end can be done. -/
def canAct (bound : ℕ) (q : Fifo PipelineEvent) : Endpoint → Prop
  | .producer => q.contents.length < bound
  | .consumer => q.contents ≠ []

/-- The thread at an end runs its lambda by itself for a while. -/
def Lambdas.Runs (L : Lambdas) (voluntary : L.Label → Prop) (e : Endpoint) :
    L.Queue × PipelineEvent × L.Pc → L.Queue × PipelineEvent × L.Pc → Prop :=
  Relation.ReflTransGen fun r r' => ∃ l, voluntary l ∧ L.step e l r r'

/-- What is asked of the lambdas for the pipeline to end.  The steps whose label is not `voluntary`
may happen, but nothing is to depend on them. -/
structure Progress {L : Lambdas} {bound : ℕ} (W : Laws L bound) where
  voluntary : L.Label → Prop
  weight : L.Queue → ℕ
  rank : L.Pc → ℕ
  limit : ℕ
  rank_lt : ∀ pc, rank pc + 1 < limit
  progress : ∀ (q : L.Queue) (p : Endpoint → Option (PipelineEvent × L.Pc)), W.inv q →
    (∀ e, W.ok e q (p e)) → ∀ e event pc, p e = some (event, pc) → ¬ L.returns e q pc →
    (W.did pc = true ∨ canAct bound (W.fifo q) e) →
    ∃ e' event' pc' r, p e' = some (event', pc') ∧ L.Runs voluntary e' (q, event', pc') r ∧
      weight r.1 + rank r.2.2 < weight q + rank pc'

namespace Pipeline

variable {L : Lambdas} {bound n : ℕ} {events : BitVec 64} {s s' : Pipeline L} {W : Laws L bound}

/-- A step that does not depend on what nobody promises. -/
def Action.Voluntary (voluntary : L.Label → Prop) : Action L.Label → Prop
  | .inCall _ _ l => voluntary l
  | _ => True

/-! ### Some thread can go on -/

/-- A thread that can go on by itself, or with the help of the other end's thread. -/
inductive Active (W : Laws L bound) (n : ℕ) (s : Pipeline L) : Prop
  | next (j : ℕ) (hj : j ≤ n) (ht : s.thread j = .next)
  | inCall (k : ℕ) (hk : k < n) (e : Endpoint) (event : PipelineEvent) (pc : L.Pc)
      (ht : s.thread (user k e) = .inCall e event pc)
      (hact : W.did pc = true ∨ canAct bound (W.fifo (s.queue k)) e)

/-- What is left if no thread can go on. -/
theorem stuck_cases (h : Inv W n events s) (hstuck : ¬ Active W n s) {j : ℕ} (hj : j ≤ n) :
    s.thread j = .finished ∨
    (∃ event pc, j < n ∧ s.thread j = .inCall .producer event pc ∧ W.did pc = false ∧
      ¬ canAct bound (W.fifo (s.queue j)) .producer) ∨
    (∃ k event pc, j = k + 1 ∧ s.thread j = .inCall .consumer event pc ∧ W.did pc = false ∧
      (W.fifo (s.queue k)).contents = []) := by
  cases ht : s.thread j with
  | next => exact absurd (.next j hj ht) hstuck
  | finished => exact Or.inl rfl
  | inCall e event pc =>
    right
    cases e with
    | producer =>
      have hjn : j < n := by
        rcases Nat.lt_or_eq_of_le hj with hlt | rfl
        · exact hlt
        · exact absurd ht (h.last event pc)
      have hnot := fun hact => hstuck (.inCall j hjn .producer event pc ht hact)
      exact Or.inl ⟨event, pc, hjn, rfl, by simpa using fun hd => hnot (Or.inl hd),
        fun hc => hnot (Or.inr hc)⟩
    | consumer =>
      cases j with
      | zero => exact absurd ht (h.first event pc)
      | succ k =>
        have hnot := fun hact => hstuck (.inCall k hj .consumer event pc ht hact)
        refine Or.inr ⟨k, event, pc, rfl, rfl, by simpa using fun hd => hnot (Or.inl hd), ?_⟩
        by_contra hne
        exact hnot (Or.inr hne)

/-- Once the sink is out of its loop the other threads are, or have only to return. -/
theorem joined_of_stuck (h : Inv W n events s)
    (hchain : ∀ k < n, (s.chain W).LinkOk PipelineEvent.worked bound k)
    (hstuck : ¬ Active W n s) (hsink : s.thread n = .finished) : s.Joined n := by
  have hstop := fun j hj => h.supply_stop hchain (j := j) hj
  have hheld := h.holds n le_rfl
  rw [hsink] at hheld
  have hlength := length_of_finished (hstop n le_rfl) (hheld.1 ▸ hheld.2)
  have hmade : s.made.length ≤ events.toNat + 1 :=
    h.supply_length_le (Nat.zero_le n) (hstop 0 (Nat.zero_le n))
  have hsupplyLe : (s.supply W n).length ≤ s.made.length := by
    have hbegins := (FifoChain.out_begins hchain n le_rfl).length_le
    rwa [List.length_map] at hbegins
  have hlast : (s.supply W n).length = s.made.length := le_antisymm hsupplyLe (hmade.trans hlength.ge)
  have hdrained : ∀ k < n, (W.fifo (s.queue k)).contents = [] ∧
      (W.fifo (s.queue k)).popped.length = s.made.length ∧
      (W.fifo (s.queue k)).pushed.length = s.made.length := FifoChain.drained hchain hlast
  intro j hj
  rcases stuck_cases h hstuck hj with hfinished | ⟨event, pc, hjn, ht, hpc, -⟩ |
    ⟨k, event, pc, rfl, ht, hpc, -⟩
  · exact hfinished
  · -- it has pushed everything, the stop event included, so it is not before a push
    exfalso
    have hheldj := h.holds j hj
    rw [ht] at hheldj
    obtain ⟨before, hsupply, hout, hnoStop⟩ := hheldj
    rw [hpc, out, if_pos hjn] at hout
    have hle := length_le_of_noStop (hstop j hj) (hsupply ▸ List.prefix_append _ _) hnoStop
    have hpushed := (hdrained j hjn).2.2
    have hpushed' : (W.fifo (s.queue j)).pushed.length = before.length := by
      rw [hout]
      rfl
    omega
  · exfalso
    have hheldj := h.holds (k + 1) hj
    rw [ht] at hheldj
    obtain ⟨hsupply, hnoStop⟩ := hheldj
    rw [hpc] at hsupply
    have hle := length_le_of_noStop (hstop (k + 1) hj) (h.out_begins hj) hnoStop
    have hpopped := (hdrained k (by omega)).2.1
    have hlengths := congrArg List.length hsupply
    simp only [supply, chain, FifoChain.supply, List.length_map, Bool.false_eq_true,
      if_false] at hlengths
    omega

/-- **Some thread can go on until all have finished.**  Otherwise the sink would wait for its queue,
which is empty, so the thread before it would wait for its own, and so on down to the producer, which
waits for nothing. -/
theorem exists_active (h : Inv W n events s)
    (hchain : ∀ k < n, (s.chain W).LinkOk PipelineEvent.worked bound k) (hbound : 0 < bound)
    (hjoined : ¬ s.Joined n) : Active W n s := by
  by_contra hstuck
  have hempty : ∀ d, ∀ j, j + d = n → ∃ k event pc, j = k + 1 ∧
      s.thread j = .inCall .consumer event pc ∧ W.did pc = false ∧
      (W.fifo (s.queue k)).contents = [] := by
    intro d
    induction d with
    | zero =>
      intro j hj
      have hjn : j = n := by omega
      subst hjn
      rcases stuck_cases h hstuck le_rfl with hfinished | ⟨event, pc, hlt, -⟩ | hwaits
      · exact absurd (joined_of_stuck h hchain hstuck hfinished) hjoined
      · exact absurd hlt (lt_irrefl j)
      · exact hwaits
    | succ d ih =>
      intro j hj
      obtain ⟨k, event, pc, hjk, ht, hpc, hcontents⟩ := ih (j + 1) (by omega)
      cases hjk
      rcases stuck_cases h hstuck (show j ≤ n by omega) with hfinished |
        ⟨event', pc', hlt, -, -, hroom⟩ | hwaits
      · -- everything it pushed was popped, so the stop event has come out
        exfalso
        have hheld := h.holds j (by omega)
        rw [hfinished] at hheld
        obtain ⟨-, before, last, hout, hstop, -⟩ := hheld
        rw [out, if_pos (by omega : j < n)] at hout
        have hfifo := (hchain j (by omega)).fifo
        simp only [chain] at hfifo
        rw [hcontents, List.append_nil, hout] at hfifo
        have hnext := h.holds (j + 1) (by omega)
        rw [ht] at hnext
        obtain ⟨hsupply, hnoStop⟩ := hnext
        rw [hpc] at hsupply
        have hmem : last.worked (j + 1) ∈ s.out W n (j + 1) := by
          have hin : last.worked (j + 1) ∈ s.supply W (j + 1) := by
            simp only [supply, chain, FifoChain.supply, ← hfifo]
            exact List.mem_map_of_mem (List.mem_append_right _ (List.mem_singleton_self last))
          rw [hsupply] at hin
          exact hin
        have hfalse := hnoStop _ hmem
        rw [worked_stop, hstop] at hfalse
        cases hfalse
      · exfalso
        apply hroom
        rw [canAct, hcontents]
        exact hbound
      · exact hwaits
  obtain ⟨k, event, pc, hk, -⟩ := hempty n 0 (by omega)
  cases hk

/-! ### The measure -/

section Measure

variable (P : Progress W)

/-- What a thread at `t` that was supplied with `m` events still has to do: `left` counts the events
it has not begun with. -/
def threadMeasure (m left : ℕ) : Thread L.Pc → ℕ
  | .next => 2 * P.limit * (m - left)
  | .inCall .consumer _ pc =>
      2 * P.limit * (if W.did pc then m - left else m - (left + 1)) + P.limit + 1 + P.rank pc
  | .inCall .producer _ pc => 2 * P.limit * (m - left) + 1 + P.rank pc
  | .finished => 0

/-- What the pipeline still has to do. -/
def measure (n : ℕ) (events : BitVec 64) (s : Pipeline L) : ℕ :=
  (∑ j ∈ Finset.range (n + 1),
    threadMeasure P (events.toNat + 1) (s.supply W j).length (s.thread j)) +
  ∑ k ∈ Finset.range n, P.weight (s.queue k)

variable {P}

/-- One term of a sum changes. -/
theorem sum_change {m j : ℕ} {f g : ℕ → ℕ} (hj : j < m) (h : ∀ i < m, i ≠ j → g i = f i) :
    ∑ i ∈ Finset.range m, g i + f j = ∑ i ∈ Finset.range m, f i + g j := by
  have hmem : j ∈ Finset.range m := Finset.mem_range.2 hj
  rw [← Finset.add_sum_erase _ g hmem, ← Finset.add_sum_erase _ f hmem]
  have hrest : ∑ i ∈ (Finset.range m).erase j, g i = ∑ i ∈ (Finset.range m).erase j, f i := by
    refine Finset.sum_congr rfl fun i hi => ?_
    obtain ⟨hne, hlt⟩ := Finset.mem_erase.1 hi
    exact h i (Finset.mem_range.1 hlt) hne
  omega

/-- A thread goes on between two lambdas: the measure changes by its own part. -/
theorem measure_goto {j : ℕ} {t : Thread L.Pc} (hj : j ≤ n) (hthread : s'.thread = update s.thread j t)
    (hqueue : s'.queue = s.queue) (hsupply : ∀ i ≠ j, s'.supply W i = s.supply W i)
    (hlt : threadMeasure P (events.toNat + 1) (s'.supply W j).length t <
      threadMeasure P (events.toNat + 1) (s.supply W j).length (s.thread j)) :
    measure P n events s' < measure P n events s := by
  have hchange := sum_change (m := n + 1) (j := j)
    (f := fun j => threadMeasure P (events.toNat + 1) (s.supply W j).length (s.thread j))
    (g := fun j => threadMeasure P (events.toNat + 1) (s'.supply W j).length (s'.thread j))
    (by omega) fun i _ hij => by rw [hsupply i hij, hthread, update_of_ne hij]
  simp only [measure, hqueue]
  simp only [hthread, update_self] at hchange ⊢
  omega

/-- A step of a lambda changes the measure as it changes the queue's weight and its own rank. -/
theorem measure_inCall (h : Inv W n events s) {k : ℕ} {e : Endpoint} {l : L.Label}
    {event event' : PipelineEvent} {pc pc' : L.Pc} {queue' : L.Queue} (hk : k < n)
    (ht : s.thread (user k e) = .inCall e event pc)
    (hs : L.step e l (s.queue k, event, pc) (queue', event', pc')) :
    measure P n events ((s.goto (user k e) (.inCall e event' pc')).put k queue') +
        (P.weight (s.queue k) + P.rank pc) =
      measure P n events s + (P.weight queue' + P.rank pc') := by
  have hok := h.ok k hk e
  rw [ht, Thread.position, if_pos rfl] at hok
  have hj : user k e < n + 1 := by cases e <;> simp only [user] <;> omega
  have heffect := W.effect _ _ _ _ _ _ (h.inv k hk) hok hs
  -- what the thread has to do, but for its rank, stays
  have hown : threadMeasure P (events.toNat + 1)
        (((s.goto (user k e) (.inCall e event' pc')).put k queue').supply W (user k e)).length
        (.inCall e event' pc') + P.rank pc =
      threadMeasure P (events.toNat + 1) (s.supply W (user k e)).length (.inCall e event pc) +
        P.rank pc' := by
    rcases heffect with ⟨hfifo, hdid, -⟩ | ⟨hpc, hpc', heffect⟩
    · rw [supply_put_of_popped _ _ (congrArg Fifo.popped hfifo)]
      simp only at hdid
      cases e <;> simp only [threadMeasure, hdid] <;> omega
    · cases e with
      | producer =>
        rw [supply_put_of_popped _ _ (pushed_of_step heffect.2).2]
        simp only [threadMeasure]
        omega
      | consumer =>
        have hpopped := (popped_of_step heffect).2
        have hlength : (((s.goto (k + 1) (.inCall .consumer event' pc')).put k queue').supply W
            (k + 1)).length = (s.supply W (k + 1)).length + 1 := by
          rw [supply_put_succ, hpopped, List.length_map, List.length_append]
          simp only [supply, chain, FifoChain.supply, List.length_map, List.length_singleton]
        simp only at hpc'
        simp only [user, threadMeasure, hlength, hpc, hpc', if_true, Bool.false_eq_true, if_false]
        omega
  have hothers : ∀ i ≠ user k e,
      ((s.goto (user k e) (.inCall e event' pc')).put k queue').supply W i = s.supply W i := by
    intro i hi
    rcases heffect with ⟨hfifo, -, -⟩ | ⟨-, -, heffect⟩
    · exact supply_put_of_popped _ _ (congrArg Fifo.popped hfifo) i
    · cases e with
      | producer => exact supply_put_of_popped _ _ (pushed_of_step heffect.2).2 i
      | consumer => exact supply_put_of_ne _ _ hi
  have hthreads := sum_change (m := n + 1) (j := user k e)
    (f := fun j => threadMeasure P (events.toNat + 1) (s.supply W j).length (s.thread j))
    (g := fun j => threadMeasure P (events.toNat + 1)
      (((s.goto (user k e) (.inCall e event' pc')).put k queue').supply W j).length
      ((s.goto (user k e) (.inCall e event' pc')).thread j))
    hj fun i _ hi => by rw [hothers i hi, goto_thread_of_ne s hi]
  have hqueues := sum_change (m := n) (j := k) (f := fun k => P.weight (s.queue k))
    (g := fun i => P.weight (update s.queue k queue' i)) hk fun i _ hi => by rw [update_of_ne hi]
  simp only [goto_thread_self, ht, update_self] at hthreads hqueues
  simp only [measure, put_thread]
  simp only [put, goto] at hthreads hown ⊢
  omega

/-- A thread that runs its lambda by itself. -/
theorem leads_inCall (h : (system L n events).Reachable s) {k : ℕ} {e : Endpoint}
    {event : PipelineEvent} {pc : L.Pc} (hk : k < n)
    (ht : s.thread (user k e) = .inCall e event pc)
    {r : L.Queue × PipelineEvent × L.Pc} (hruns : L.Runs P.voluntary e (s.queue k, event, pc) r) :
    ∃ s', (system L n events).Leads (Action.Voluntary P.voluntary) s s' ∧
      s'.queue k = r.1 ∧ s'.thread (user k e) = .inCall e r.2.1 r.2.2 ∧
      measure P n events s' + (P.weight (s.queue k) + P.rank pc) =
        measure P n events s + (P.weight r.1 + P.rank r.2.2) := by
  induction hruns with
  | refl => exact ⟨s, .refl s, rfl, ht, rfl⟩
  | @tail r r' _ hlast ih =>
    obtain ⟨t, hleads, hqueue, hthread, hmeasure⟩ := ih
    obtain ⟨l, hl, hstep⟩ := hlast
    have hinv := inv_reachable W (hleads.reachable h)
    have hstep' : L.step e l (t.queue k, r.2.1, r.2.2) (r'.1, r'.2.1, r'.2.2) := by
      rw [hqueue]
      exact hstep
    refine ⟨_, hleads.trans (.single (Step.inCall hk hthread hstep') hl), ?_, ?_, ?_⟩
    · simp [put]
    · simp
    · have hnext := measure_inCall (P := P) hinv hk hthread hstep'
      rw [hqueue] at hnext
      omega

end Measure

/-! ### The end -/

/-- As long as not all threads have finished, the pipeline can do some of the work that is left. -/
theorem progress (P : Progress W) (hbound : 0 < bound) (hn : 0 < n)
    (h : (system L n events).Reachable s) (hjoined : ¬ s.Joined n) :
    ∃ s', (system L n events).Leads (Action.Voluntary P.voluntary) s s' ∧
      measure P n events s' < measure P n events s := by
  have hinv := inv_reachable W h
  have hchain := FifoChain.reachable_spec
    ((simulation W n events).reachable (fun _ => inv_reachable W) h)
  have henter := P.rank_lt L.enter
  rcases exists_active hinv hchain hbound hjoined with ⟨j, hj, ht⟩ | ⟨k, hk, e, event, pc, ht, hact⟩
  · -- before its next event: there is one, as the stop event has not come
    have hheld := hinv.holds j hj
    rw [ht] at hheld
    have hleft := length_le_of_noStop (hinv.supply_stop hchain hj) (List.prefix_refl _)
      (hheld.1 ▸ hheld.2)
    have hdouble : 2 * P.limit * (events.toNat + 1 - ((s.supply W j).length + 1)) + 2 * P.limit =
        2 * P.limit * (events.toNat + 1 - (s.supply W j).length) := by
      rw [← Nat.mul_succ]
      congr 1
      omega
    cases j with
    | zero =>
      refine ⟨_, .single (Step.make 0 hn ht) trivial, measure_goto (j := 0) hj rfl rfl ?_ ?_⟩
      · intro i hi
        cases i with
        | zero => exact absurd rfl hi
        | succ i => rfl
      · rw [ht]
        simp only [threadMeasure, supply, chain, FifoChain.supply, List.length_append,
          List.length_singleton] at hdouble ⊢
        omega
    | succ k =>
      refine ⟨_, .single (Step.take hj ht) trivial, measure_goto (j := k + 1) hj rfl rfl
        (fun i _ => rfl) ?_⟩
      rw [ht]
      show threadMeasure P _ (s.supply W (k + 1)).length _ < _
      simp only [threadMeasure, W.did_enter, Bool.false_eq_true, if_false]
      omega
  · by_cases hreturns : L.returns e (s.queue k) pc
    · -- the lambda is at its end
      have hok := hinv.ok k hk e
      rw [ht, Thread.position, if_pos rfl] at hok
      have hdid := (W.returns_ok _ _ _ _ hok hreturns).1
      have hlimit := P.rank_lt pc
      cases e with
      | producer =>
        refine ⟨_, .single (Step.passed hk ht hreturns) trivial, measure_goto (j := k) hk.le rfl rfl
          (fun i _ => rfl) ?_⟩
        rw [show s.thread k = _ from ht]
        show threadMeasure P _ (s.supply W k).length _ < _
        split_ifs <;> simp only [threadMeasure] <;> omega
      | consumer =>
        have htc : s.thread (k + 1) = .inCall .consumer event pc := ht
        rcases Nat.lt_or_eq_of_le (Nat.succ_le_of_lt hk) with hlt | heq
        · refine ⟨_, .single (Step.handed hlt htc hreturns) trivial,
            measure_goto (j := k + 1) hk rfl rfl (fun i _ => rfl) ?_⟩
          rw [htc]
          show threadMeasure P _ (s.supply W (k + 1)).length _ < _
          simp only [threadMeasure, hdid, if_true]
          omega
        · refine ⟨_, .single (Step.sunk 0 heq htc hreturns) trivial,
            measure_goto (j := k + 1) hk rfl rfl (fun i _ => rfl) ?_⟩
          rw [htc]
          show threadMeasure P _ (s.supply W (k + 1)).length _ < _
          simp only [threadMeasure, hdid, if_true]
          split_ifs <;> dsimp only <;> omega
    · obtain ⟨e', event', pc', r, hp, hruns, hlt⟩ := P.progress (s.queue k)
        (fun e => (s.thread (user k e)).position e) (hinv.inv k hk) (hinv.ok k hk) e event pc
        (by simp only [ht, Thread.position, if_true]) hreturns hact
      have ht' : s.thread (user k e') = .inCall e' event' pc' := by
        cases hthread : s.thread (user k e') with
        | inCall e₀ event₀ pc₀ =>
          simp only [hthread, Thread.position] at hp
          split_ifs at hp with he
          cases hp
          rw [he]
        | next => simp [hthread, Thread.position] at hp
        | finished => simp [hthread, Thread.position] at hp
      obtain ⟨s', hleads, -, -, hmeasure⟩ := leads_inCall (P := P) h hk ht' hruns
      exact ⟨s', hleads, by omega⟩

/-- **The pipeline can always be run to its end**: from every state it can get into, its threads can
go on so that all of them finish. -/
theorem completes (P : Progress W) (hbound : 0 < bound) (hn : 0 < n)
    (h : (system L n events).Reachable s) :
    ∃ s', (system L n events).Leads (Action.Voluntary P.voluntary) s s' ∧ s'.Joined n := by
  obtain ⟨s', hleads, -, hjoined⟩ := Leads.complete
    (I := (system L n events).Reachable) (μ := measure P n events)
    (fun s hs hnot => by
      obtain ⟨s', hleads, hlt⟩ := progress P hbound hn hs hnot
      exact ⟨s', hleads, hleads.reachable hs, hlt⟩) h
  exact ⟨s', hleads, hjoined⟩

end Pipeline

end Hft.Bench
