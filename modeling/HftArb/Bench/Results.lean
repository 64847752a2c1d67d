import HftArb.Bench.Counters
import HftArb.Bench.Percentiles

/-!
# The two runs of the benchmark and their results

`finalize_result` is modelled with the results that follow from the latencies and from the queues'
counters.  The wall clock and the processor time are measured, and so are the two rates that depend
on them; they are left out.
-/

namespace Hft.Bench

open Function Transition Transition.System Concurrency

/-- `BenchmarkResult`, and the sums that its averages are quotients of. -/
structure BenchmarkResult where
  eventsProcessed : BitVec 64 := 0
  latencySum : BitVec 64 := 0
  averageLatencyNs : ℚ := 0
  p50LatencyNs : ℕ := 0
  p99LatencyNs : ℕ := 0
  p999LatencyNs : ℕ := 0
  maxLatencyNs : BitVec 64 := 0
  occupancySum : BitVec 64 := 0
  occupancySamples : BitVec 64 := 0
  averageQueueOccupancy : ℚ := 0
  maxQueueOccupancy : ℕ := 0
  fullEvents : BitVec 64 := 0
  droppedEvents : BitVec 64 := 0

/-- The results that follow from the latencies. -/
def latencyResult (events : BitVec 64) (latencies : List (BitVec 64)) : BenchmarkResult :=
  let sum := latencies.foldl (· + ·) 0
  let values := latencies.map BitVec.toNat
  { eventsProcessed := events
    latencySum := sum
    averageLatencyNs := average sum.toNat latencies.length
    p50LatencyNs := percentile values (toDouble 50)
    p99LatencyNs := percentile values (toDouble 99)
    p999LatencyNs := percentile values (toDouble (999 / 10))
    maxLatencyNs := latencies.foldl (fun m l => if m < l then l else m) 0 }

/-- A turn of the loop over the queues. -/
def BenchmarkResult.addQueue (r : BenchmarkResult) (q : QueueStats Endpoint) : BenchmarkResult :=
  { r with
    occupancySum := r.occupancySum + q.occupancySum
    occupancySamples := r.occupancySamples + q.occupancySamples
    maxQueueOccupancy := max r.maxQueueOccupancy q.maxValue
    fullEvents := r.fullEvents + q.fullEvents
    droppedEvents := r.droppedEvents + q.droppedEvents }

/-- `finalize_result`. -/
def finalizeResult (events : BitVec 64) (latencies : List (BitVec 64))
    (stats : List (QueueStats Endpoint)) : BenchmarkResult :=
  let r := stats.foldl BenchmarkResult.addQueue (latencyResult events latencies)
  { r with averageQueueOccupancy := average r.occupancySum.toNat r.occupancySamples.toNat }

/-- The sums of exact counters are exact, and the maximum of the maxima is the maximum. -/
theorem finalizeResult_exact (events : BitVec 64) (latencies : List (BitVec 64))
    (stats : List (QueueStats Endpoint))
    (hexact : ∀ q ∈ stats, (QueueStats.queueStats Endpoint).Reachable q ∧ ∀ i, q.phase i = .idle) :
    let r := finalizeResult events latencies stats
    r.eventsProcessed = events ∧
      r.occupancySamples = BitVec.ofNat 64 (stats.map fun q => q.observed.length).sum ∧
      r.occupancySum = BitVec.ofNat 64 (stats.map fun q => q.observed.sum).sum ∧
      r.fullEvents = BitVec.ofNat 64 (stats.map fun q => q.refused).sum ∧ r.droppedEvents = 0 ∧
      IsGreatest {x | x = 0 ∨ ∃ q ∈ stats, x ∈ q.observed} r.maxQueueOccupancy := by
  -- for the loop over the queues, from its last turn
  induction stats using List.reverseRecOn with
  | nil =>
    refine ⟨rfl, rfl, rfl, rfl, rfl, Or.inl rfl, ?_⟩
    rintro x (rfl | ⟨q, hq, -⟩)
    · exact le_rfl
    · cases hq
  | append_singleton stats q ih =>
    obtain ⟨hevents, hsamples, hsum, hfull, hdropped, hmax⟩ :=
      ih fun q hq => hexact q (List.mem_append_left _ hq)
    obtain ⟨hreach, hidle⟩ := hexact q (List.mem_append_right _ (List.mem_singleton_self q))
    obtain ⟨hsamplesQ, hsumQ, hmaxQ, hfullQ, hdroppedQ⟩ := QueueStats.counters_exact hreach hidle
    simp only [finalizeResult, List.foldl_append, List.foldl_cons, List.foldl_nil,
      BenchmarkResult.addQueue] at *
    simp only [List.map_append, List.map_cons, List.map_nil, List.sum_append, List.sum_singleton]
    refine ⟨hevents, ?_, ?_, ?_, ?_, ?_, ?_⟩
    · rw [hsamples, hsamplesQ, ← BitVec.ofNat_add]
    · rw [hsum, hsumQ, ← BitVec.ofNat_add]
    · rw [hfull, hfullQ, ← BitVec.ofNat_add]
    · rw [hdropped, hdroppedQ]
      rfl
    · rcases max_choice _ q.maxValue with hleft | hright
      · rw [hleft]
        exact hmax.1.imp_right fun ⟨q', hq', hx⟩ => ⟨q', List.mem_append_left _ hq', hx⟩
      · rw [hright]
        exact hmaxQ.1.imp_right fun hx =>
          ⟨q, List.mem_append_right _ (List.mem_singleton_self q), hx⟩
    · rintro x (rfl | ⟨q', hq', hx⟩)
      · exact Nat.zero_le _
      · rcases List.mem_append.1 hq' with hold | hnew
        · exact (hmax.2 (Or.inr ⟨q', hold, hx⟩)).trans (le_max_left _ _)
        · rw [List.mem_singleton.1 hnew] at hx
          exact (hmaxQ.2 (Or.inr hx)).trans (le_max_right _ _)

/-- The loop over the queues leaves the results of the latencies alone. -/
theorem foldl_addQueue (r : BenchmarkResult) (stats : List (QueueStats Endpoint)) :
    ∃ occupancySum occupancySamples maxQueueOccupancy fullEvents droppedEvents,
      stats.foldl BenchmarkResult.addQueue r =
        { r with occupancySum, occupancySamples, maxQueueOccupancy, fullEvents, droppedEvents } := by
  induction stats generalizing r with
  | nil => exact ⟨_, _, _, _, _, rfl⟩
  | cons q stats ih =>
    obtain ⟨occupancySum, occupancySamples, maxQueueOccupancy, fullEvents, droppedEvents, h⟩ :=
      ih (r.addQueue q)
    exact ⟨_, _, _, _, _, h⟩

/-! ### The latencies -/

/-- An accumulated sum that does not overflow. -/
theorem toNat_foldl_add {latencies : List (BitVec 64)} (acc : BitVec 64)
    (h : acc.toNat + (latencies.map BitVec.toNat).sum < 2 ^ 64) :
    (latencies.foldl (· + ·) acc).toNat = acc.toNat + (latencies.map BitVec.toNat).sum := by
  induction latencies generalizing acc with
  | nil => rfl
  | cons l latencies ih =>
    rw [List.map_cons, List.sum_cons] at h ⊢
    have hadd : (acc + l).toNat = acc.toNat + l.toNat := by
      rw [BitVec.toNat_add, Nat.mod_eq_of_lt (by omega)]
    rw [List.foldl_cons, ih _ (by omega), hadd, Nat.add_assoc]

theorem isGreatest_foldl (latencies : List (BitVec 64)) (acc : BitVec 64) :
    IsGreatest {ns | ns = acc.toNat ∨ ns ∈ latencies.map BitVec.toNat}
      (latencies.foldl (fun m l => if m < l then l else m) acc).toNat := by
  induction latencies generalizing acc with
  | nil => simp [IsGreatest, upperBounds]
  | cons l latencies ih =>
    rw [List.foldl_cons, List.map_cons]
    obtain ⟨hmem, hle⟩ := ih (if acc < l then l else acc)
    have hmax : (if acc < l then l else acc).toNat = max acc.toNat l.toNat := by
      split_ifs with hlt
      · exact (max_eq_right (BitVec.lt_def.1 hlt).le).symm
      · exact (max_eq_left (not_lt.1 fun h => hlt (BitVec.lt_def.2 h))).symm
    rw [Set.mem_ofPred_eq, hmax] at hmem
    have hbound : max acc.toNat l.toNat ≤ _ := hle (Or.inl hmax.symm)
    refine ⟨?_, ?_⟩
    · rcases hmem with heq | hin
      · rcases max_choice acc.toNat l.toNat with hleft | hright
        · exact Or.inl (heq.trans hleft)
        · exact Or.inr (List.mem_cons.2 (Or.inl (heq.trans hright)))
      · exact Or.inr (List.mem_cons_of_mem _ hin)
    · rintro ns (rfl | hns)
      · exact (le_max_left _ _).trans hbound
      · rcases List.mem_cons.1 hns with rfl | hin
        · exact (le_max_right _ _).trans hbound
        · exact hle (Or.inr hin)

/-- What `finalize_result` says of the latencies `ns`.  The ranks are rounded up at a half. -/
structure BenchmarkResult.Summarizes (r : BenchmarkResult) (ns : List ℕ) : Prop where
  p50 : IsRank ns (((ns.length - 1) + 1) / 2) r.p50LatencyNs
  p99 : IsRank ns ((99 * (ns.length - 1) + 50) / 100) r.p99LatencyNs
  p999 : IsRank ns ((999 * (ns.length - 1) + 500) / 1000) r.p999LatencyNs
  max : IsGreatest {x | x ∈ ns} r.maxLatencyNs.toNat
  average : |r.averageLatencyNs - ns.sum / ns.length| ≤ (ns.sum : ℚ) / ns.length / 2 ^ 51

/-- **The latencies are summarized exactly**, up to the last rounding of their average, although
ranks and averages are computed in doubles; and the percentiles are in order. -/
theorem finalizeResult_latencies (events : BitVec 64) {latencies : List (BitVec 64)}
    (stats : List (QueueStats Endpoint)) (hne : latencies ≠ []) (hlen : latencies.length ≤ 2 ^ 41)
    (hsum : (latencies.map BitVec.toNat).sum < 2 ^ 64) :
    let r := finalizeResult events latencies stats
    r.Summarizes (latencies.map BitVec.toNat) ∧ r.p50LatencyNs ≤ r.p99LatencyNs ∧
      r.p99LatencyNs ≤ r.p999LatencyNs ∧ r.p999LatencyNs ≤ r.maxLatencyNs.toNat := by
  intro r
  set ns := latencies.map BitVec.toNat with hns
  have hneNs : ns ≠ [] := by simpa [hns] using hne
  have hlenNs : ns.length ≤ 2 ^ 41 := by rwa [hns, List.length_map]
  obtain ⟨_, _, _, _, _, hloop⟩ := foldl_addQueue (latencyResult events latencies) stats
  have hsummary : r.Summarizes ns := by
    simp only [r, finalizeResult, hloop]
    constructor
    · have h := isRank_percentile standsFor_p50 two_pos (by norm_num) (by norm_num) hneNs hlenNs
      rwa [show 2 * 1 * (ns.length - 1) + 2 = 2 * ((ns.length - 1) + 1) by ring,
        Nat.mul_div_mul_left _ _ two_pos] at h
    · have h := isRank_percentile standsFor_p99 (by norm_num) (by norm_num) (by norm_num) hneNs hlenNs
      rwa [show 2 * 99 * (ns.length - 1) + 100 = 2 * (99 * (ns.length - 1) + 50) by ring,
        Nat.mul_div_mul_left _ _ two_pos] at h
    · have h := isRank_percentile standsFor_p999 (by norm_num) (by norm_num) (by norm_num) hneNs hlenNs
      rwa [show 2 * 999 * (ns.length - 1) + 1000 = 2 * (999 * (ns.length - 1) + 500) by ring,
        Nat.mul_div_mul_left _ _ two_pos] at h
    · obtain ⟨hmem, hle⟩ := isGreatest_foldl latencies 0
      -- the initial 0 is not above a latency
      obtain ⟨x, hx⟩ := List.exists_mem_of_ne_nil _ hneNs
      refine ⟨hmem.elim (fun h => ?_) id, fun y hy => hle (Or.inr hy)⟩
      have hzero : x ≤ 0 := (hle (Or.inr hx)).trans h.le
      rw [Nat.le_zero.1 hzero] at hx
      exact (h ▸ hx)
    · have htotal := @toNat_foldl_add latencies 0 (by simpa using hsum)
      have htotal : (latencies.foldl (· + ·) 0).toNat = ns.sum := by simpa using htotal
      have hlength : latencies.length = ns.length := by rw [hns, List.length_map]
      simp only [latencyResult, htotal, hlength]
      exact abs_average_sub_le (List.length_pos_iff.2 hneNs) (by omega)
  exact ⟨hsummary, hsummary.p50.le hsummary.p99 (by omega), hsummary.p99.le hsummary.p999 (by omega),
    hsummary.max.2 hsummary.p999.mem⟩

theorem finalizeResult_latencies_three :
    (finalizeResult 3 [40, 10, 30] []).Summarizes [40, 10, 30] :=
  (finalizeResult_latencies 3 [] (by decide) (by decide) (by decide)).1

/-- A sum of terms that are a constant and a rest. -/
theorem sum_range_map {n constant : ℕ} {f g : ℕ → ℕ} (h : ∀ k ∈ List.range n, f k = constant + g k) :
    ((List.range n).map f).sum = n * constant + ((List.range n).map g).sum := by
  rw [List.map_congr_left h, List.sum_map_add, List.map_const', List.sum_replicate,
    List.length_range, smul_eq_mul]

/-- `kQueuesInPipeline`. -/
def kQueuesInPipeline : ℕ := 1

/-- `kSpscRawCapacity`. -/
def kSpscRawCapacity : Capacity := ⟨13, by decide, by decide⟩

namespace Pipeline

section Joined

variable {L : Lambdas} {bound n : ℕ} {events : BitVec 64} {s : Pipeline L}

/-- When all threads are joined every queue has passed on all events and the stop event. -/
theorem passed_of_joined (W : Laws L bound) (h : (system L n events).Reachable s)
    (hjoined : s.Joined n) {k : ℕ} (hk : k < n) :
    (W.fifo (s.queue k)).pushed.length = events.toNat + 1 ∧
      (W.fifo (s.queue k)).popped.length = events.toNat + 1 := by
  have hi := inv_reachable W h
  have hlinks := FifoChain.reachable_spec
    ((simulation W n events).reachable (fun _ => inv_reachable W) h)
  have hlength : ∀ j ≤ n, (s.supply W j).length = events.toNat + 1 := by
    intro j hj
    have hheld := hi.holds j hj
    rw [hjoined j hj] at hheld
    exact length_of_finished (hi.supply_stop hlinks hj) (hheld.1 ▸ hheld.2)
  have hmade : s.made.length = events.toNat + 1 := hlength 0 (Nat.zero_le n)
  have hdrained : ((s.chain W).supply PipelineEvent.worked n).length = s.made.length :=
    (hlength n le_rfl).trans hmade.symm
  obtain ⟨-, hpopped, hpushed⟩ := FifoChain.drained hlinks hdrained k hk
  exact ⟨hpushed.trans hmade, hpopped.trans hmade⟩

/-- A thread that is joined is in no lambda. -/
theorem ok_of_joined (W : Laws L bound) (h : (system L n events).Reachable s)
    (hjoined : s.Joined n) {k : ℕ} (hk : k < n) (e : Endpoint) : W.ok e (s.queue k) none := by
  have hok := (inv_reachable W h).ok k hk e
  have hthread : s.thread (user k e) = .finished := by
    cases e with
    | producer => exact hjoined k hk.le
    | consumer => exact hjoined (k + 1) hk
  rwa [hthread] at hok

end Joined

end Pipeline

/-! ### `run_spsc_pipeline` -/

section Spsc

variable {c : Capacity} {n : ℕ} {events : BitVec 64} {s : Pipeline (spin c)}

/-- The statistics of the queues. -/
def spscStats (n : ℕ) (s : Pipeline (spin c)) : List (QueueStats Endpoint) :=
  (List.range n).map fun k => SpinQueue.stats (s.queue k)

/-- **Every event arrives.**  Whatever the interleaving of the threads' atomic accesses, the sink of
`run_spsc_pipeline` processes the producer's events in order, each once and with the work of every
stage done, the producer is never further ahead than the queues and the threads can hold, and when
the sink stops nothing is missing. -/
theorem spsc_pipeline_delivers (h : (Pipeline.system (spin c) n events).Reachable s) :
    s.Delivered (spinLaws c) n events := Pipeline.delivered (spinLaws c) h

/-- A run of the benchmark that has been joined. -/
theorem exists_spsc_joined (events : BitVec 64) :
    ∃ s : Pipeline (spin kSpscRawCapacity),
      (Pipeline.system (spin kSpscRawCapacity) kQueuesInPipeline events).Reachable s ∧
        s.Joined kQueuesInPipeline := by
  have hroom : 0 < kSpscRawCapacity.size - 1 := Nat.sub_pos_of_lt kSpscRawCapacity.two_le_size
  obtain ⟨s, hleads, hjoined⟩ :=
    Pipeline.completes (spinProgress kSpscRawCapacity) hroom one_pos (.init rfl)
  exact ⟨s, hleads.reachable (.init rfl), hjoined⟩

theorem spsc_pipeline_delivers_run : ∃ s : Pipeline (spin kSpscRawCapacity),
    s.Joined 1 ∧ s.Delivered (spinLaws kSpscRawCapacity) 1 500000 := by
  obtain ⟨s, hreach, hjoined⟩ := exists_spsc_joined 500000
  exact ⟨s, hjoined, spsc_pipeline_delivers hreach⟩

/-- **No reachable state is stuck.**  However `run_spsc_pipeline` has run so far, its threads can go
on so that all of them are joined. -/
theorem spsc_pipeline_ends (hn : 0 < n) (h : (Pipeline.system (spin c) n events).Reachable s) :
    ∃ s', (Pipeline.system (spin c) n events).Leads (fun _ => True) s s' ∧ s'.Joined n := by
  have hroom : 0 < c.size - 1 := Nat.sub_pos_of_lt c.two_le_size
  obtain ⟨s', hleads, hjoined⟩ := Pipeline.completes (spinProgress c) hroom hn h
  exact ⟨s', hleads.lift (f := id) fun _ _ _ _ hs => .single hs trivial, hjoined⟩

theorem spsc_pipeline_ends_start : ∃ s' : Pipeline (spin kSpscRawCapacity),
    (Pipeline.system (spin kSpscRawCapacity) 1 500000).Leads (fun _ => True) {} s' ∧ s'.Joined 1 :=
  spsc_pipeline_ends one_pos (.init rfl)

/-- **The counters of a run.**  When the threads are joined, every push, every pop and every refused
push has been observed once, nothing was dropped, and the greatest occupancy is one that was seen
and that the buffer can hold. -/
theorem spsc_pipeline_counters (h : (Pipeline.system (spin c) n events).Reachable s)
    (hjoined : s.Joined n) :
    let r := finalizeResult events s.latencies (spscStats n s)
    r.eventsProcessed = BitVec.ofNat 64 s.processed.length ∧
      r.occupancySamples = BitVec.ofNat 64 (n * (2 * (events.toNat + 1))) + r.fullEvents ∧
      r.droppedEvents = 0 ∧
      IsGreatest {x | x = 0 ∨ ∃ q ∈ spscStats n s, x ∈ q.observed} r.maxQueueOccupancy ∧
      r.maxQueueOccupancy ≤ c.size - 1 := by
  have hinv : ∀ k < n, SpinInv (s.queue k) := (Pipeline.inv_reachable (spinLaws c) h).inv
  have hidle : ∀ k < n, ∀ e, (SpinQueue.stats (s.queue k)).phase e = .idle := fun k hk e =>
    SpinOk.unobserved (Pipeline.ok_of_joined (spinLaws c) h hjoined hk e) (by simp)
  obtain ⟨hevents, hsamples, -, hfull, hdropped, hmax⟩ :=
    finalizeResult_exact events s.latencies (spscStats n s) fun q hq => by
      obtain ⟨k, hk, rfl⟩ := List.mem_map.1 hq
      exact ⟨(hinv k (List.mem_range.1 hk)).stats, hidle k (List.mem_range.1 hk)⟩
  have hdelivered := Pipeline.delivered (spinLaws c) h
  refine ⟨?_, ?_, hdropped, hmax, ?_⟩
  · rw [hevents, (hdelivered.complete (hjoined n le_rfl)).1, BitVec.ofNat_toNat, BitVec.setWidth_eq]
  · have hobserved : ∀ k ∈ List.range n, (SpinQueue.stats (s.queue k)).observed.length =
        2 * (events.toNat + 1) + (SpinQueue.stats (s.queue k)).refused := by
      intro k hk
      have hk := List.mem_range.1 hk
      obtain ⟨hpushed, hpopped⟩ := Pipeline.passed_of_joined (spinLaws c) h hjoined hk
      have hzero := (spinObserved c).amount_eq (spinObserved_exact c) h hjoined hk
      simp only [spinObserved, operations, hpushed, hpopped] at hzero
      omega
    rw [hsamples, hfull, ← BitVec.ofNat_add, spscStats, List.map_map, List.map_map]
    exact congrArg (BitVec.ofNat 64) (sum_range_map hobserved)
  · rcases hmax.1 with hzero | ⟨q, hq, hx⟩
    · rw [hzero]
      exact Nat.zero_le _
    · obtain ⟨k, hk, rfl⟩ := List.mem_map.1 hq
      exact (hinv k (List.mem_range.1 hk)).occupancy _ hx

theorem spsc_pipeline_counters_run : ∃ s : Pipeline (spin kSpscRawCapacity),
    s.Joined 1 ∧ (finalizeResult 500000 s.latencies (spscStats 1 s)).droppedEvents = 0 := by
  obtain ⟨s, hreach, hjoined⟩ := exists_spsc_joined 500000
  exact ⟨s, hjoined, (spsc_pipeline_counters hreach hjoined).2.2.1⟩

end Spsc

/-! ### `run_normal_queue_pipeline` -/

section Normal

variable {capacity n : ℕ} {events : BitVec 64} {s : Pipeline (wait capacity)}

/-- The statistics of the queues. -/
def waitStats (n : ℕ) (s : Pipeline (wait capacity)) : List (QueueStats Endpoint) :=
  (List.range n).map fun k => WaitQueue.stats (s.queue k)

/-- **Every event arrives** also through the blocking queues. -/
theorem normal_pipeline_delivers (h : (Pipeline.system (wait capacity) n events).Reachable s) :
    s.Delivered (waitLaws capacity) n events := Pipeline.delivered (waitLaws capacity) h

/-- A run of the benchmark that has been joined. -/
theorem exists_normal_joined (events : BitVec 64) : ∃ s : Pipeline (wait 8192),
    (Pipeline.system (wait 8192) kQueuesInPipeline events).Reachable s ∧
      s.Joined kQueuesInPipeline := by
  obtain ⟨s, hleads, hjoined⟩ :=
    Pipeline.completes (waitProgress 8192) (by decide) one_pos (.init rfl)
  exact ⟨s, hleads.reachable (.init rfl), hjoined⟩

theorem normal_pipeline_delivers_run : ∃ s : Pipeline (wait 8192),
    s.Joined 1 ∧ s.Delivered (waitLaws 8192) 1 500000 := by
  obtain ⟨s, hreach, hjoined⟩ := exists_normal_joined 500000
  exact ⟨s, hjoined, normal_pipeline_delivers hreach⟩

/-- Nothing is ever pushed into a queue without room. -/
def nothingPushed {L : Lambdas} (W : Laws L 0) : Tally W where
  amount := fun q => (W.fifo q).pushed.length
  owed := fun _ _ => 0
  amount_fresh := by rw [W.fifo_fresh]; rfl
  owed_enter := fun _ => rfl
  owed_returns := fun _ _ _ _ => rfl
  step := fun e l q event pc r hinv hok hs => by
    have hpushed : (W.fifo r.1).pushed = (W.fifo q).pushed := by
      rcases W.effect e l q event pc r hinv hok hs with ⟨hfifo, -, -⟩ | ⟨-, -, hacts⟩
      · rw [hfifo]
      · cases e with
        | producer => exact absurd (room_of_push hacts.2) (Nat.not_lt_zero _)
        | consumer => exact pushed_of_pop hacts
    simp only [hpushed]
    exact le_rfl

/-- **The blocking pipeline is never stuck, unless it is given no capacity.**  With room for one
event the threads can go on from every reachable state, without spurious wake-ups, so that all of
them are joined; with `--normal-capacity 0` they are never joined. -/
theorem normal_pipeline_ends_iff (hn : 0 < n) :
    (∀ s, (Pipeline.system (wait capacity) n events).Reachable s →
      ∃ s', (Pipeline.system (wait capacity) n events).Leads
        (Pipeline.Action.Voluntary WaitLabel.Voluntary) s s' ∧ s'.Joined n) ↔ 0 < capacity := by
  constructor
  · intro hends
    obtain ⟨s, hleads, hjoined⟩ := hends {} (.init rfl)
    have hreach := hleads.reachable (.init rfl)
    by_contra hzero
    obtain rfl : capacity = 0 := by omega
    have hle := (nothingPushed (waitLaws 0)).amount_le hreach hjoined hn
    have hpushed := (Pipeline.passed_of_joined (waitLaws 0) hreach hjoined hn).1
    simp only [nothingPushed, hpushed] at hle
    omega
  · exact fun hcapacity s h => Pipeline.completes (waitProgress capacity) hcapacity hn h

theorem normal_pipeline_ends_iff_zero :
    ¬ ∀ s, (Pipeline.system (wait 0) 1 500000).Reachable s →
      ∃ s', (Pipeline.system (wait 0) 1 500000).Leads
        (Pipeline.Action.Voluntary WaitLabel.Voluntary) s s' ∧ s'.Joined 1 :=
  fun hends => absurd ((normal_pipeline_ends_iff one_pos).1 hends) (lt_irrefl 0)

/-- **The counters of a run.**  When the threads are joined, every push and every pop has been
observed once, nothing was dropped, no push was counted twice as one that had to wait, and the
greatest occupancy is one that was seen and that the queue can hold. -/
theorem normal_pipeline_counters (h : (Pipeline.system (wait capacity) n events).Reachable s)
    (hjoined : s.Joined n) :
    let r := finalizeResult events s.latencies (waitStats n s)
    r.eventsProcessed = BitVec.ofNat 64 s.processed.length ∧
      r.occupancySamples = BitVec.ofNat 64 (n * (2 * (events.toNat + 1))) ∧
      (∃ full ≤ n * (events.toNat + 1), r.fullEvents = BitVec.ofNat 64 full) ∧
      r.droppedEvents = 0 ∧
      IsGreatest {x | x = 0 ∨ ∃ q ∈ waitStats n s, x ∈ q.observed} r.maxQueueOccupancy ∧
      r.maxQueueOccupancy ≤ capacity := by
  have hinv : ∀ k < n, WaitInv capacity (s.queue k) :=
    (Pipeline.inv_reachable (waitLaws capacity) h).inv
  have hidle : ∀ k < n, ∀ e, (WaitQueue.stats (s.queue k)).phase e = .idle := fun k hk e =>
    WaitOk.unobserved (Pipeline.ok_of_joined (waitLaws capacity) h hjoined hk e) (by simp)
  obtain ⟨hevents, hsamples, -, hfull, hdropped, hmax⟩ :=
    finalizeResult_exact events s.latencies (waitStats n s) fun q hq => by
      obtain ⟨k, hk, rfl⟩ := List.mem_map.1 hq
      exact ⟨(hinv k (List.mem_range.1 hk)).stats, hidle k (List.mem_range.1 hk)⟩
  have hdelivered := Pipeline.delivered (waitLaws capacity) h
  refine ⟨?_, ?_, ⟨_, ?_, hfull⟩, hdropped, hmax, ?_⟩
  · rw [hevents, (hdelivered.complete (hjoined n le_rfl)).1, BitVec.ofNat_toNat, BitVec.setWidth_eq]
  · have hobserved : ∀ k ∈ List.range n, (WaitQueue.stats (s.queue k)).observed.length =
        2 * (events.toNat + 1) + 0 := by
      intro k hk
      have hk := List.mem_range.1 hk
      obtain ⟨hpushed, hpopped⟩ := Pipeline.passed_of_joined (waitLaws capacity) h hjoined hk
      have hzero := (waitObserved capacity).amount_eq (waitObserved_exact capacity) h hjoined hk
      simp only [waitObserved, operations, hpushed, hpopped] at hzero
      omega
    rw [hsamples, waitStats, List.map_map]
    exact congrArg (BitVec.ofNat 64) ((sum_range_map hobserved).trans (by simp))
  · rw [waitStats, List.map_map]
    refine (List.sum_le_card_nsmul _ (events.toNat + 1) fun m hm => ?_).trans (by simp)
    obtain ⟨k, hk, rfl⟩ := List.mem_map.1 hm
    have hk := List.mem_range.1 hk
    have hle := (waitFull capacity).amount_le h hjoined hk
    have hpushed := (Pipeline.passed_of_joined (waitLaws capacity) h hjoined hk).1
    simp only [waitFull, hpushed] at hle
    simp only [Function.comp]
    omega
  · rcases hmax.1 with hzero | ⟨q, hq, hx⟩
    · rw [hzero]
      exact Nat.zero_le _
    · obtain ⟨k, hk, rfl⟩ := List.mem_map.1 hq
      exact (hinv k (List.mem_range.1 hk)).occupancy _ hx

theorem normal_pipeline_counters_run : ∃ s : Pipeline (wait 8192), s.Joined 1 ∧
    (finalizeResult 500000 s.latencies (waitStats 1 s)).occupancySamples = 1000002 := by
  obtain ⟨s, hreach, hjoined⟩ := exists_normal_joined 500000
  exact ⟨s, hjoined, (normal_pipeline_counters hreach hjoined).2.1⟩

end Normal

end Hft.Bench
