import HftArb.Lib.AtomicMax
import HftArb.Lib.Threads

/-!
# `QueueStats`: counters that several threads share

`observe` adds one to `occupancy_samples`, adds the occupancy to `occupancy_sum`, and raises
`max_occupancy` by a loop of weak exchanges; the callers count refused pushes in `full_events`.
Every access is one relaxed atomic step.  A `fetch_add` always acts on the newest value, so the sums
are single 64-bit numbers; the maximum is the variable of `AtomicMax`, with all that relaxed loads
and weak exchanges may do.
-/

namespace Hft.Bench

open Function Transition Transition.System Threads

/-- Where a thread is in `observe`. -/
inductive ObservePhase
  | idle
  /-- Before `occupancy_samples.fetch_add`. -/
  | called (occupancy : ℕ)
  /-- Before `occupancy_sum.fetch_add`. -/
  | sampled (occupancy : ℕ)
  /-- From the load of `max_occupancy` on. -/
  | raising

namespace ObservePhase

/-- A sample is announced and not yet counted. -/
def unsampled : ObservePhase → ℕ
  | .called _ => 1
  | _ => 0

/-- The occupancy that is not yet in the sum. -/
def pending : ObservePhase → Option ℕ
  | .called occupancy | .sampled occupancy => some occupancy
  | _ => none

def unsummed (p : ObservePhase) : ℕ := p.pending.getD 0

/-- Whether the thread is in `observe`. -/
def left : ObservePhase → ℕ
  | .idle => 0
  | _ => 1

end ObservePhase

/-- `QueueStats` with its threads. -/
structure QueueStats (ι : Type) where
  fullEvents : BitVec 64 := 0
  droppedEvents : BitVec 64 := 0
  occupancySamples : BitVec 64 := 0
  occupancySum : BitVec 64 := 0
  maxOccupancy : AtomicMax.State ι ℕ := { history := [0] }
  phase : ι → ObservePhase := fun _ => .idle
  /-- The arguments of all calls of `observe`; no step reads them. -/
  observed : List ℕ := []
  /-- How often `full_events` was counted up; no step reads it. -/
  refused : ℕ := 0

namespace QueueStats

/-- The steps, by the thread that takes them. -/
inductive Action (ι : Type)
  | countFull (i : ι)
  | call (i : ι) (occupancy : ℕ)
  | addSample (i : ι)
  | addSum (i : ι)
  | raise (a : AtomicMax.Action ι ℕ)
  | ret (i : ι)

variable {ι : Type} [DecidableEq ι]

/-- One step of one thread. -/
inductive Step : QueueStats ι → Action ι → QueueStats ι → Prop
  | countFull {s : QueueStats ι} (i : ι) (hi : s.phase i = .idle) :
      Step s (.countFull i)
        { s with fullEvents := s.fullEvents + 1, refused := s.refused + 1 }
  | call {s : QueueStats ι} (i : ι) (occupancy : ℕ) (hi : s.phase i = .idle) :
      Step s (.call i occupancy)
        { s with
          phase := update s.phase i (.called occupancy)
          observed := s.observed ++ [occupancy] }
  | addSample {s : QueueStats ι} {i : ι} {occupancy : ℕ} (hi : s.phase i = .called occupancy) :
      Step s (.addSample i)
        { s with
          occupancySamples := s.occupancySamples + 1
          phase := update s.phase i (.sampled occupancy) }
  | addSum {s : QueueStats ι} {i : ι} {occupancy : ℕ} {m : AtomicMax.State ι ℕ}
      (hi : s.phase i = .sampled occupancy)
      (hm : AtomicMax.Step s.maxOccupancy (.call i occupancy) m) :
      Step s (.addSum i)
        { s with
          occupancySum := s.occupancySum + BitVec.ofNat 64 occupancy
          maxOccupancy := m
          phase := update s.phase i .raising }
  | raise {s : QueueStats ι} {a : AtomicMax.Action ι ℕ} {m : AtomicMax.State ι ℕ}
      (hi : s.phase a.thread = .raising) (hin : s.maxOccupancy.phase a.thread ≠ .idle)
      (hm : AtomicMax.Step s.maxOccupancy a m) :
      Step s (.raise a) { s with maxOccupancy := m }
  | ret {s : QueueStats ι} {i : ι} (hi : s.phase i = .raising)
      (hout : s.maxOccupancy.phase i = .idle) :
      Step s (.ret i) { s with phase := update s.phase i .idle }

/-- The counters, all zero at first. -/
def queueStats (ι : Type) [DecidableEq ι] : System (QueueStats ι) (Action ι) where
  init s := s = {}
  step := Step

/-- The thread that makes a step. -/
def Action.thread : Action ι → ι
  | .countFull i | .call i _ | .addSample i | .addSum i | .ret i => i
  | .raise a => a.thread

/-- A step of thread `i` inside `observe`. -/
def Action.Inside (i : ι) : Action ι → Prop
  | .countFull _ | .call _ _ => False
  | .addSample j | .addSum j | .ret j => j = i
  | .raise a => a.thread = i

omit [DecidableEq ι] in
theorem Action.Inside.thread {i : ι} {a : Action ι} (h : a.Inside i) : a.thread = i := by
  cases a with
  | countFull j => exact h.elim
  | call j occupancy => exact h.elim
  | addSample j => exact h
  | addSum j => exact h
  | raise a => exact h
  | ret j => exact h

/-- A step concerns its own thread only. -/
theorem Step.frame {s s' : QueueStats ι} {a : Action ι} (hs : Step s a s') {i : ι}
    (hi : i ≠ a.thread) : s'.phase i = s.phase i := by
  cases hs with
  | countFull j hj => rfl
  | raise hj hin hm => rfl
  | call j occupancy hj => exact update_of_ne hi _ _
  | addSample hj => exact update_of_ne hi _ _
  | addSum hj hm => exact update_of_ne hi _ _
  | ret hj hout => exact update_of_ne hi _ _

/-! ### What the counters hold -/

/-- Samples and occupancies that were announced have been added, or are with a thread; the maximum
is over the same occupancies. -/
structure Inv [Fintype ι] (s : QueueStats ι) : Prop where
  samples : ∃ k, s.occupancySamples = BitVec.ofNat 64 k ∧
    k + total ObservePhase.unsampled s.phase = s.observed.length
  sum : ∃ k, s.occupancySum = BitVec.ofNat 64 k ∧
    k + total ObservePhase.unsummed s.phase = s.observed.sum
  max : AtomicMax.Inv 0 s.maxOccupancy
  outside : ∀ i, s.phase i ≠ .raising → s.maxOccupancy.phase i = .idle
  offered : ∀ x ∈ s.maxOccupancy.offered, x ∈ s.observed
  pending : ∀ i x, (s.phase i).pending = some x → x ∈ s.observed
  covered : ∀ x ∈ s.observed, x ∈ s.maxOccupancy.offered ∨ ∃ i, (s.phase i).pending = some x
  full : s.fullEvents = BitVec.ofNat 64 s.refused
  dropped : s.droppedEvents = 0

section Steps

variable [Fintype ι] {s s' : QueueStats ι} {i : ι}

omit [Fintype ι] in
/-- What is pending stays so when a thread moves that keeps its own or has it taken. -/
theorem pending_update {f : ι → ObservePhase} {p : ObservePhase} {x : ℕ} {taken : Prop}
    (h : ∃ j, (f j).pending = some x) (hi : (f i).pending = some x → taken ∨ p.pending = some x) :
    taken ∨ ∃ j, (update f i p j).pending = some x := by
  obtain ⟨j, hj⟩ := h
  rcases eq_or_ne j i with rfl | hji
  · refine (hi hj).imp_right fun hp => ⟨j, ?_⟩
    rw [update_self]
    exact hp
  · refine Or.inr ⟨j, ?_⟩
    rw [update_of_ne hji]
    exact hj

/-- A thread that has nothing left to add moves on. -/
theorem Inv.move (h : Inv s) {p : ObservePhase} (hold : (s.phase i).pending = none)
    (hnew : p.pending = none) (hout : p ≠ .raising → s.maxOccupancy.phase i = .idle) :
    Inv { s with phase := update s.phase i p } := by
  have hunsampled : ∀ {q : ObservePhase}, q.pending = none → q.unsampled = 0 := by
    intro q hq
    cases q with
    | called occupancy => cases hq
    | _ => rfl
  obtain ⟨k, hk, hsamples⟩ := h.samples
  obtain ⟨m, hm, hsum⟩ := h.sum
  refine ⟨⟨k, hk, total_update_add hsamples i p 0 0 ?_⟩,
    ⟨m, hm, total_update_add hsum i p 0 0 ?_⟩, h.max, ?_, h.offered, ?_, fun x hx => ?_, h.full,
    h.dropped⟩
  · rw [hunsampled hold, hunsampled hnew]
  · rw [ObservePhase.unsummed, ObservePhase.unsummed, hold, hnew]
    rfl
  · exact (forall_update_iff s.phase fun j q => q ≠ .raising → s.maxOccupancy.phase j = .idle).2
      ⟨hout, fun j _ => h.outside j⟩
  · refine (forall_update_iff s.phase fun _ q => ∀ x, q.pending = some x → x ∈ s.observed).2
      ⟨fun x hx => ?_, fun j _ => h.pending j⟩
    rw [hnew] at hx
    cases hx
  · refine (h.covered x hx).elim Or.inl fun hpending => pending_update hpending fun hi => ?_
    rw [hold] at hi
    cases hi

/-- `observe` is called: one more sample, and its occupancy, are to come. -/
theorem Inv.call (h : Inv s) (hi : s.phase i = .idle) (occupancy : ℕ) :
    Inv { s with
      phase := update s.phase i (.called occupancy)
      observed := s.observed ++ [occupancy] } := by
  obtain ⟨k, hk, hsamples⟩ := h.samples
  obtain ⟨m, hm, hsum⟩ := h.sum
  refine ⟨⟨k, hk, ?_⟩, ⟨m, hm, ?_⟩, h.max, ?_, fun x hx => List.mem_append_left _ (h.offered x hx),
    ?_, fun x hx => ?_, h.full, h.dropped⟩
  · rw [List.length_append]
    refine total_update_add hsamples i (.called occupancy) 0 1 ?_
    rw [hi]
    rfl
  · rw [List.sum_append, List.sum_singleton]
    refine total_update_add hsum i (.called occupancy) 0 occupancy ?_
    rw [hi]
    rfl
  · exact (forall_update_iff s.phase fun j q => q ≠ .raising → s.maxOccupancy.phase j = .idle).2
      ⟨fun _ => h.outside i (by simp [hi]), fun j _ => h.outside j⟩
  · refine (forall_update_iff s.phase fun _ q => ∀ x, q.pending = some x → x ∈ s.observed ++
      [occupancy]).2 ⟨fun x hx => ?_, fun j _ x hx => List.mem_append_left _ (h.pending j x hx)⟩
    cases hx
    exact List.mem_append_right _ (List.mem_singleton_self _)
  · rcases List.mem_append.1 hx with hold | hnew
    · refine (h.covered x hold).elim Or.inl fun hpending => pending_update hpending fun hx => ?_
      rw [hi] at hx
      cases hx
    · cases List.mem_singleton.1 hnew
      exact Or.inr ⟨i, by simp [ObservePhase.pending]⟩

/-- The sample is counted, and the thread keeps the occupancy it has to add. -/
theorem Inv.addSample (h : Inv s) {occupancy : ℕ} (hi : s.phase i = .called occupancy) :
    Inv { s with
      occupancySamples := s.occupancySamples + 1
      phase := update s.phase i (.sampled occupancy) } := by
  obtain ⟨k, hk, hsamples⟩ := h.samples
  obtain ⟨m, hm, hsum⟩ := h.sum
  have hkept : (s.phase i).pending = some occupancy := by rw [hi]; rfl
  refine ⟨⟨k + 1, ?_, total_update_add hsamples i _ 1 0 ?_⟩,
    ⟨m, hm, total_update_add hsum i _ 0 0 ?_⟩, h.max, ?_, h.offered, ?_, fun x hx => ?_, h.full,
    h.dropped⟩
  · dsimp only
    rw [hk, BitVec.ofNat_add]
    rfl
  · rw [hi]
    rfl
  · rw [ObservePhase.unsummed, ObservePhase.unsummed, hkept, Nat.zero_add]
    rfl
  · exact (forall_update_iff s.phase fun j q => q ≠ .raising → s.maxOccupancy.phase j = .idle).2
      ⟨fun _ => h.outside i (by simp [hi]), fun j _ => h.outside j⟩
  · exact (forall_update_iff s.phase fun _ q => ∀ x, q.pending = some x → x ∈ s.observed).2
      ⟨fun x hx => h.pending i x (hkept.trans hx), fun j _ => h.pending j⟩
  · refine (h.covered x hx).elim Or.inl fun hpending => pending_update hpending fun hx => ?_
    exact Or.inr (hkept.symm.trans hx)

/-- The occupancy is added to the sum and offered to the maximum. -/
theorem Inv.addSum (h : Inv s) {occupancy : ℕ} {max : AtomicMax.State ι ℕ}
    (hi : s.phase i = .sampled occupancy)
    (hmax : AtomicMax.Step s.maxOccupancy (.call i occupancy) max) :
    Inv { s with
      occupancySum := s.occupancySum + BitVec.ofNat 64 occupancy
      maxOccupancy := max
      phase := update s.phase i .raising } := by
  obtain ⟨k, hk, hsamples⟩ := h.samples
  obtain ⟨m, hm, hsum⟩ := h.sum
  have hown : (s.phase i).pending = some occupancy := by rw [hi]; rfl
  have hinv := AtomicMax.inv_step h.max hmax
  cases hmax
  refine ⟨⟨k, hk, total_update_add hsamples i _ 0 0 ?_⟩,
    ⟨m + occupancy, ?_, total_update_add hsum i _ occupancy 0 ?_⟩, hinv, fun j hj => ?_,
    fun x hx => ?_, ?_, fun x hx => ?_, h.full, h.dropped⟩
  · rw [hi]
    rfl
  · dsimp only
    rw [hm, BitVec.ofNat_add]
  · rw [hi]
    rfl
  · have hji : j ≠ i := by
      rintro rfl
      exact hj (update_self ..)
    dsimp only at hj ⊢
    rw [update_of_ne hji] at hj ⊢
    exact h.outside j hj
  · rcases List.mem_append.1 hx with hold | hnew
    · exact h.offered x hold
    · cases List.mem_singleton.1 hnew
      exact h.pending i occupancy hown
  · refine (forall_update_iff s.phase fun _ q => ∀ x, q.pending = some x → x ∈ s.observed).2
      ⟨fun x hx => ?_, fun j _ => h.pending j⟩
    cases hx
  · refine (h.covered x hx).elim (fun hold => Or.inl (List.mem_append_left _ hold)) fun hpending =>
      pending_update hpending fun hx => Or.inl ?_
    cases hown.symm.trans hx
    exact List.mem_append_right _ (List.mem_singleton_self _)

/-- A thread goes on in the loop of the maximum. -/
theorem Inv.raise (h : Inv s) {a : AtomicMax.Action ι ℕ} {max : AtomicMax.State ι ℕ}
    (hi : s.phase a.thread = .raising) (hin : s.maxOccupancy.phase a.thread ≠ .idle)
    (hmax : AtomicMax.Step s.maxOccupancy a max) : Inv { s with maxOccupancy := max } := by
  have hothers : ∀ j ≠ a.thread, max.phase j = s.maxOccupancy.phase j := by
    intro j hj
    cases hmax <;> exact update_of_ne hj _ _
  have hoffered : max.offered = s.maxOccupancy.offered := by
    cases hmax with
    | call i x hidle => exact absurd hidle hin
    | _ => rfl
  refine ⟨h.samples, h.sum, AtomicMax.inv_step h.max hmax, fun j hj => ?_, hoffered ▸ h.offered,
    h.pending, hoffered ▸ h.covered, h.full, h.dropped⟩
  have hne : j ≠ a.thread := by
    rintro rfl
    exact hj hi
  rw [hothers j hne]
  exact h.outside j hj

/-- **Every step preserves the invariant.** -/
theorem inv_step {a : Action ι} (h : Inv s) (hs : Step s a s') : Inv s' := by
  cases hs with
  | countFull i hi =>
    refine ⟨h.samples, h.sum, h.max, h.outside, h.offered, h.pending, h.covered, ?_, h.dropped⟩
    dsimp only
    rw [h.full, BitVec.ofNat_add]
    rfl
  | call i occupancy hi => exact h.call hi occupancy
  | addSample hi => exact h.addSample hi
  | addSum hi hmax => exact h.addSum hi hmax
  | raise hi hin hmax => exact h.raise hi hin hmax
  | ret hi hout => exact h.move (by rw [hi]; rfl) rfl fun _ => hout

theorem inv_init : Inv ({} : QueueStats ι) := by
  refine ⟨⟨0, rfl, ?_⟩, ⟨0, rfl, ?_⟩, ?_, fun i _ => rfl, fun x hx => ?_, fun i x hx => ?_,
    fun x hx => ?_, rfl, rfl⟩
  · rw [Nat.zero_add]
    exact total_eq_zero_iff.2 fun i => rfl
  · rw [Nat.zero_add]
    exact total_eq_zero_iff.2 fun i => rfl
  · exact AtomicMax.inv_reachable (.init rfl)
  · cases hx
  · cases hx
  · cases hx

theorem inv_reachable (h : (queueStats ι).Reachable s) : Inv s :=
  h.induct (I := Inv) (by rintro _ rfl; exact inv_init) fun _ _ _ hi hs => inv_step hi hs

/-- The newest value of `max_occupancy`. -/
def maxValue (s : QueueStats ι) : ℕ := s.maxOccupancy.history.getLast?.getD 0

/-- What the counters hold when no thread is inside `observe`. -/
theorem counters_exact (h : (queueStats ι).Reachable s) (hidle : ∀ i, s.phase i = .idle) :
    s.occupancySamples = BitVec.ofNat 64 s.observed.length ∧
      s.occupancySum = BitVec.ofNat 64 s.observed.sum ∧
      IsGreatest {x | x = 0 ∨ x ∈ s.observed} s.maxValue ∧
      s.fullEvents = BitVec.ofNat 64 s.refused ∧ s.droppedEvents = 0 := by
  have hi := inv_reachable h
  obtain ⟨k, hk, hsamples⟩ := hi.samples
  obtain ⟨m, hm, hsum⟩ := hi.sum
  have hones : total ObservePhase.unsampled s.phase = 0 :=
    total_eq_zero_iff.2 fun i => by rw [hidle i]; rfl
  have hoccupancies : total ObservePhase.unsummed s.phase = 0 :=
    total_eq_zero_iff.2 fun i => by rw [hidle i]; rfl
  have hlast : s.maxOccupancy.history.getLast? = some s.maxValue := by
    rw [maxValue, List.getLast?_eq_some_getLast (List.ne_nil_of_mem hi.max.start)]
    rfl
  have hgreatest := hi.max.isGreatest (fun i => hi.outside i (by simp [hidle i])) hlast
  refine ⟨by rw [hk, ← hsamples, hones, Nat.add_zero], by rw [hm, ← hsum, hoccupancies, Nat.add_zero],
    ?_, hi.full, hi.dropped⟩
  refine ⟨hgreatest.1.imp_right (hi.offered _), ?_⟩
  rintro x (rfl | hx)
  · exact Nat.zero_le _
  · rcases hi.covered x hx with hoffered | ⟨i, hpending⟩
    · exact hgreatest.2 (Or.inr hoffered)
    · rw [hidle i] at hpending
      cases hpending

/-- A thread inside `observe` can return alone. -/
theorem Inv.finish (h : Inv s) (i : ι) :
    ∃ s', (queueStats ι).Leads (Action.Inside i) s s' ∧ s'.phase = update s.phase i .idle := by
  -- from the load of the maximum on
  have hraise : ∀ t : QueueStats ι, Inv t → t.phase i = .raising →
      ∃ s', (queueStats ι).Leads (Action.Inside i) t s' ∧ s'.phase = update t.phase i .idle := by
    intro t ht hi
    obtain ⟨m, hleads, hm, -⟩ := ht.max.finish i
    have hlift : (queueStats ι).Leads (Action.Inside i) t { t with maxOccupancy := m } := by
      refine Leads.lift (f := fun m => { t with maxOccupancy := m }) ?_ hleads
      intro m a m' ha hstep
      have hthread := ha.thread
      refine .single (Step.raise ?_ ?_ hstep) hthread
      · rw [hthread]
        exact hi
      · rw [hthread]
        exact ha.phase_ne hstep
    exact ⟨_, hlift.trans (.single (Step.ret hi hm) rfl), rfl⟩
  -- from the addition to the sum on
  have hadd : ∀ (t : QueueStats ι) (occupancy : ℕ), Inv t → t.phase i = .sampled occupancy →
      ∃ s', (queueStats ι).Leads (Action.Inside i) t s' ∧ s'.phase = update t.phase i .idle := by
    intro t occupancy ht hi
    have hstep := Step.addSum hi (AtomicMax.Step.call i occupancy (ht.outside i (by simp [hi])))
    obtain ⟨s', hleads, hs'⟩ := hraise _ (inv_step ht hstep) (update_self ..)
    refine ⟨s', .head hstep rfl hleads, ?_⟩
    rw [hs', update_idem]
  cases hi : s.phase i with
  | idle => exact ⟨s, .refl s, by rw [← hi, update_eq_self]⟩
  | called occupancy =>
    have hstep := Step.addSample hi
    obtain ⟨s', hleads, hs'⟩ := hadd _ occupancy (inv_step h hstep) (update_self ..)
    refine ⟨s', .head hstep rfl hleads, ?_⟩
    rw [hs', update_idem]
  | sampled occupancy => exact hadd s occupancy h hi
  | raising => exact hraise s h hi

/-- **No observation is lost, and none blocks another.**  Whatever the threads and however their
atomic accesses interleave, when none is inside `observe` the counters are those of the observations
made one after the other, modulo `2 ^ 64`, with `max_occupancy` their maximum; and at any moment each
thread can return by its own steps alone. -/
theorem observe_exact (h : (queueStats ι).Reachable s) :
    ((∀ i, s.phase i = .idle) →
      s.occupancySamples = BitVec.ofNat 64 s.observed.length ∧
        s.occupancySum = BitVec.ofNat 64 s.observed.sum ∧
        IsGreatest {x | x = 0 ∨ x ∈ s.observed} s.maxValue ∧
        s.fullEvents = BitVec.ofNat 64 s.refused ∧ s.droppedEvents = 0) ∧
    ∀ i, ∃ s', (queueStats ι).Leads (Action.Inside i) s s' ∧ s'.phase = update s.phase i .idle :=
  ⟨counters_exact h, (inv_reachable h).finish⟩

/-- Two threads observe 5 and 7, and both load the maximum before either has raised it.  The exchange
of the second fails and is made again with the newer value. -/
theorem observe_exact_retried : ∃ s : QueueStats Bool, s.observed = [5, 7] ∧
    s.occupancySamples = 2 ∧ s.occupancySum = 12 ∧ s.maxOccupancy.history = [0, 5, 7] ∧
    IsGreatest {x | x = 0 ∨ x ∈ s.observed} s.maxValue := by
  have hcalls := ((Reachable.init (S := queueStats Bool) rfl).step (Step.call true 5 rfl)).step
    (Step.call false 7 rfl)
  have hsamples := (hcalls.step (Step.addSample (i := true) rfl)).step
    (Step.addSample (i := false) rfl)
  have hsums := (hsamples.step (Step.addSum rfl (AtomicMax.Step.call true 5 rfl))).step
    (Step.addSum rfl (AtomicMax.Step.call false 7 rfl))
  have hloads := (hsums.step (Step.raise rfl (by simp [AtomicMax.Action.thread])
      (AtomicMax.Step.load (i := true) 0 rfl le_rfl rfl))).step
    (Step.raise rfl (by simp [AtomicMax.Action.thread])
      (AtomicMax.Step.load (i := false) 0 rfl le_rfl rfl))
  have hfails := (hloads.step (Step.raise rfl (by simp [AtomicMax.Action.thread])
      (AtomicMax.Step.exchange (i := true) rfl (by decide) rfl))).step
    (Step.raise rfl (by simp [AtomicMax.Action.thread])
      (AtomicMax.Step.fail (i := false) 1 rfl (by decide) (Nat.zero_le 1) rfl))
  have hraised := hfails.step (Step.raise rfl (by simp [AtomicMax.Action.thread])
    (AtomicMax.Step.exchange (i := false) rfl (by decide) rfl))
  have hreturned := (hraised.step (Step.ret (i := true) rfl rfl)).step
    (Step.ret (i := false) rfl rfl)
  obtain ⟨hcount, hsum, hmax, -⟩ := (observe_exact hreturned).1 fun i => by cases i <;> rfl
  exact ⟨_, rfl, hcount, hsum, rfl, hmax⟩

/-- How many threads are in `observe`. -/
def busy (s : QueueStats ι) : ℕ := total ObservePhase.left s.phase

theorem busy_call {occupancy : ℕ} (hs : Step s (.call i occupancy) s') : s'.busy = s.busy + 1 := by
  cases hs with
  | call _ _ hi =>
    have htotal := total_update (w := ObservePhase.left) (f := s.phase) i (.called occupancy)
    rw [hi] at htotal
    exact htotal

theorem busy_finish (hi : s.phase i ≠ .idle) (hs' : s'.phase = update s.phase i .idle) :
    s'.busy < s.busy := by
  have hone : (s.phase i).left = 1 := by
    cases hp : s.phase i
    · exact absurd hp hi
    all_goals rfl
  have htotal := total_update (w := ObservePhase.left) (f := s.phase) i .idle
  rw [hone] at htotal
  simp only [ObservePhase.left] at htotal
  unfold busy
  rw [hs']
  omega

end Steps

end QueueStats

end Hft.Bench
