import HftArb.Bench.Ends
import HftArb.Bench.NormalDelivery
import HftArb.Bench.SpscDelivery

/-!
# What the benchmark's counters hold when its threads are joined

A `Tally` is an account of a queue to which the two threads of the queue owe something as long as
they are in a lambda, and nothing outside.  That every push and every pop is observed once, and that
every push counts one full queue at most, are accounts of this kind.
-/

namespace Hft.Bench

open Function Transition Concurrency

/-- An account of a queue.  A step of a lambda may lower it, together with what its thread owes, but
never raise it. -/
structure Tally {L : Lambdas} {bound : ℕ} (W : Laws L bound) where
  amount : L.Queue → ℤ
  owed : Endpoint → L.Pc → ℤ
  amount_fresh : amount L.fresh = 0
  owed_enter : ∀ e, owed e L.enter = 0
  owed_returns : ∀ e q pc, L.returns e q pc → owed e pc = 0
  step : ∀ e l q event pc r, W.inv q → W.ok e q (some (event, pc)) → L.step e l (q, event, pc) r →
    amount r.1 + owed e r.2.2 ≤ amount q + owed e pc

namespace Tally

open Pipeline

variable {L : Lambdas} {bound n : ℕ} {events : BitVec 64} {s s' : Pipeline L} {W : Laws L bound}
  (T : Tally W)

/-- The steps do not lower the account either. -/
def Exact : Prop :=
  ∀ e l q event pc r, W.inv q → W.ok e q (some (event, pc)) → L.step e l (q, event, pc) r →
    T.amount q + T.owed e pc ≤ T.amount r.1 + T.owed e r.2.2

/-- What a thread at `t` owes at an end. -/
def owes (e : Endpoint) (t : Thread L.Pc) : ℤ := (t.position e).elim 0 fun p => T.owed e p.2

/-- The account of queue `k` with what its threads owe. -/
def balance (s : Pipeline L) (k : ℕ) : ℤ :=
  T.amount (s.queue k) + (T.owes .producer (s.thread k) + T.owes .consumer (s.thread (k + 1)))

theorem owes_inCall (e e' : Endpoint) (event : PipelineEvent) (pc : L.Pc) :
    T.owes e (.inCall e' event pc) = if e' = e then T.owed e pc else 0 := by
  simp only [owes, Thread.position]
  split_ifs <;> rfl

/-- A thread that begins a lambda, or is in none, owes nothing. -/
theorem owes_eq_zero {t : Thread L.Pc} (ht : ∀ e event pc, t = .inCall e event pc →
    T.owed e pc = 0) (e : Endpoint) : T.owes e t = 0 := by
  cases t with
  | next => rfl
  | finished => rfl
  | inCall e' event pc =>
    rw [owes_inCall]
    split_ifs with he
    · subst he
      exact ht _ event pc rfl
    · rfl

/-- A thread that goes on without a debt leaves the balances alone. -/
theorem balance_goto {j : ℕ} {t : Thread L.Pc} (hold : ∀ e, T.owes e (s.thread j) = 0)
    (hnew : ∀ e, T.owes e t = 0) (k : ℕ) : T.balance (s.goto j t) k = T.balance s k := by
  have hthread : ∀ i e, T.owes e ((s.goto j t).thread i) = T.owes e (s.thread i) := by
    intro i e
    rcases eq_or_ne i j with rfl | hij
    · rw [goto_thread_self, hnew, hold]
    · rw [goto_thread_of_ne s hij]
  show T.amount (s.queue k) + _ = _
  rw [hthread, hthread]
  rfl

theorem balance_inCall {k : ℕ} {e : Endpoint} {l : L.Label} {event event' : PipelineEvent}
    {pc pc' : L.Pc} {queue' : L.Queue} (hinv : W.inv (s.queue k))
    (hok : W.ok e (s.queue k) (some (event, pc)))
    (ht : s.thread (user k e) = .inCall e event pc)
    (hs : L.step e l (s.queue k, event, pc) (queue', event', pc')) (i : ℕ) :
    T.balance ((s.goto (user k e) (.inCall e event' pc')).put k queue') i ≤ T.balance s i := by
  have hstep := T.step e l _ event pc _ hinv hok hs
  -- the thread owes at its own end only
  have hthread : ∀ i' e', (i', e') ≠ (k, e) →
      T.owes e' ((s.goto (user k e) (.inCall e event' pc')).thread (user i' e')) =
        T.owes e' (s.thread (user i' e')) := by
    intro i' e' hne
    by_cases hu : user i' e' = user k e
    · have he : e ≠ e' := by
        rintro rfl
        exact hne (by rw [user_injective hu])
      rw [hu, goto_thread_self, ht, owes_inCall, owes_inCall, if_neg he, if_neg he]
    · rw [goto_thread_of_ne s hu]
  have hself : T.owes e ((s.goto (user k e) (.inCall e event' pc')).thread (user k e)) =
      T.owed e pc' := by
    rw [goto_thread_self, owes_inCall, if_pos rfl]
  have hbefore : T.owes e (s.thread (user k e)) = T.owed e pc := by
    rw [ht, owes_inCall, if_pos rfl]
  unfold balance
  rw [put_thread]
  rcases eq_or_ne i k with rfl | hik
  · have hqueue : ((s.goto (user i e) (.inCall e event' pc')).put i queue').queue i = queue' :=
      update_self ..
    rw [hqueue]
    cases e with
    | producer =>
      have hother := hthread i .consumer (by simp)
      simp only [user] at hself hbefore hother ⊢
      rw [hself, hbefore, hother]
      simp only at hstep
      omega
    | consumer =>
      have hother := hthread i .producer (by simp)
      simp only [user] at hself hbefore hother ⊢
      rw [hself, hbefore, hother]
      simp only at hstep
      omega
  · have hqueue : ((s.goto (user k e) (.inCall e event' pc')).put k queue').queue i = s.queue i :=
      update_of_ne hik _ _
    have hproducer : T.owes .producer ((s.goto (user k e) (.inCall e event' pc')).thread i) =
        T.owes .producer (s.thread i) := hthread i .producer (by simp [hik])
    have hconsumer : T.owes .consumer ((s.goto (user k e) (.inCall e event' pc')).thread (i + 1)) =
        T.owes .consumer (s.thread (i + 1)) := hthread i .consumer (by simp [hik])
    rw [hqueue, hproducer, hconsumer]

theorem balance_step {a : Action L.Label} (hi : Inv W n events s) (hs : Step L n events s a s')
    (k : ℕ) : T.balance s' k ≤ T.balance s k := by
  have hnone : ∀ e, T.owes e .next = 0 := fun e => rfl
  have henter : ∀ e' event e, T.owes e (.inCall e' event L.enter) = 0 := fun e' event =>
    T.owes_eq_zero fun _ _ _ heq => by
      cases heq
      exact T.owed_enter _
  have hafter : ∀ (event : PipelineEvent) e,
      T.owes e (if event.stop then .finished else .next : Thread L.Pc) = 0 := by
    intro event e
    split_ifs <;> rfl
  have hleft : ∀ {j e event pc}, s.thread j = .inCall e event pc → (∃ q, L.returns e q pc) →
      ∀ e, T.owes e (s.thread j) = 0 := by
    rintro j e event pc ht ⟨q, hr⟩
    refine T.owes_eq_zero fun _ _ _ heq => ?_
    rw [ht] at heq
    cases heq
    exact T.owed_returns _ q _ hr
  cases hs with
  | make now hn ht => exact (T.balance_goto (by rw [ht]; exact hnone) (henter _ _) k).le
  | take hk ht => exact (T.balance_goto (by rw [ht]; exact hnone) (henter _ _) k).le
  | @inCall k' e l event event' pc pc' queue' hk ht hs =>
    have hok := hi.ok k' hk e
    rw [ht, Thread.position, if_pos rfl] at hok
    exact T.balance_inCall (hi.inv k' hk) hok ht hs k
  | passed hk ht hr => exact (T.balance_goto (hleft ht ⟨_, hr⟩) (hafter _) k).le
  | handed hk ht hr => exact (T.balance_goto (hleft ht ⟨_, hr⟩) (henter _ _) k).le
  | sunk now hk ht hr => exact (T.balance_goto (hleft ht ⟨_, hr⟩) (hafter _) k).le

theorem balance_le (h : (system L n events).Reachable s) (k : ℕ) : T.balance s k ≤ 0 := by
  have hboth : Inv W n events s ∧ ∀ k, T.balance s k ≤ 0 := by
    refine h.induct (I := fun s => Inv W n events s ∧ ∀ k, T.balance s k ≤ 0) ?_ ?_
    · rintro _ rfl
      refine ⟨inv_init W n events, fun k => ?_⟩
      show T.amount L.fresh + (0 + 0) ≤ 0
      rw [T.amount_fresh]
      rfl
    · rintro s a s' ⟨hi, hle⟩ hs
      exact ⟨inv_step hi hs, fun k => (T.balance_step hi hs k).trans (hle k)⟩
  exact hboth.2 k

/-- The opposite account. -/
def neg (hexact : T.Exact) : Tally W where
  amount := fun q => - T.amount q
  owed := fun e pc => - T.owed e pc
  amount_fresh := by rw [T.amount_fresh, neg_zero]
  owed_enter := fun e => by rw [T.owed_enter, neg_zero]
  owed_returns := fun e q pc hr => by rw [T.owed_returns e q pc hr, neg_zero]
  step := fun e l q event pc r hinv hok hs => by
    have hle := hexact e l q event pc r hinv hok hs
    omega

/-- **When the threads are joined nothing is owed.** -/
theorem amount_le (h : (system L n events).Reachable s) (hjoined : s.Joined n) {k : ℕ} (hk : k < n) :
    T.amount (s.queue k) ≤ 0 := by
  have hbalance := T.balance_le h k
  rw [balance, hjoined k hk.le, hjoined (k + 1) hk] at hbalance
  have hnone : ∀ e, T.owes e (.finished : Thread L.Pc) = 0 := fun e => rfl
  rwa [hnone, hnone, add_zero, add_zero] at hbalance

theorem amount_eq (hexact : T.Exact) (h : (system L n events).Reachable s) (hjoined : s.Joined n)
    {k : ℕ} (hk : k < n) : T.amount (s.queue k) = 0 := by
  have hle := T.amount_le h hjoined hk
  have hge := (T.neg hexact).amount_le h hjoined hk
  simp only [neg] at hge
  omega

end Tally

/-! ### Pushes and pops -/

/-- How many operations have taken effect. -/
def operations (q : Fifo PipelineEvent) : ℕ := q.pushed.length + q.popped.length

theorem operations_of_step {bound : ℕ} {q q' : Fifo PipelineEvent} {op : Fifo.Op PipelineEvent}
    (hs : Fifo.Step bound q op q') : operations q' = operations q + 1 := by
  cases hs
  · simp only [operations, List.length_append, List.length_singleton]
    omega
  · simp only [operations, List.length_append, List.length_singleton]
    omega

theorem pushed_of_push {bound : ℕ} {q q' : Fifo PipelineEvent} {event : PipelineEvent}
    (hs : Fifo.Step bound q (.push event) q') : q'.pushed.length = q.pushed.length + 1 := by
  cases hs
  exact List.length_append

theorem room_of_push {bound : ℕ} {q q' : Fifo PipelineEvent} {event : PipelineEvent}
    (hs : Fifo.Step bound q (.push event) q') : q.contents.length < bound := by
  cases hs with
  | push _ room => exact room

theorem pushed_of_pop {bound : ℕ} {q q' : Fifo PipelineEvent} {event : PipelineEvent}
    (hs : Fifo.Step bound q (.pop event) q') : q'.pushed = q.pushed := by
  cases hs
  rfl

/-- An operation that has taken effect is counted once. -/
theorem Laws.operations_step {L : Lambdas} {bound : ℕ} (W : Laws L bound) {e : Endpoint}
    {l : L.Label} {q : L.Queue} {event : PipelineEvent} {pc : L.Pc} {r : L.Queue × PipelineEvent × L.Pc}
    (hinv : W.inv q) (hok : W.ok e q (some (event, pc))) (hs : L.step e l (q, event, pc) r) :
    operations (W.fifo r.1) + (W.did pc).toNat = operations (W.fifo q) + (W.did r.2.2).toNat := by
  rcases W.effect e l q event pc r hinv hok hs with ⟨hfifo, hdid, -⟩ | ⟨hbefore, hdid, hacts⟩
  · rw [hfifo, hdid]
  · rw [hbefore, hdid]
    have hone : operations (W.fifo r.1) = operations (W.fifo q) + 1 := by
      cases e with
      | producer => exact operations_of_step hacts.2
      | consumer => exact operations_of_step hacts
    rw [hone]
    rfl

/-! ### `run_spsc_pipeline` -/

section Spsc

variable {c : Capacity} {e : Endpoint} {q : SpinQueue c} {event : PipelineEvent} {pc : SpinPc}

/-- Whether a thread has yet to make the observation that its last count calls for. -/
def SpinPc.unobserved : SpinPc → ℤ
  | .inside popped => if popped then 1 else 0
  | .sizing _ | .inSize _ => 1
  | .attempting | .refused | .observing _ => 0

theorem spin_observed_step {l : SpinLabel} {r : SpinQueue c × PipelineEvent × SpinPc}
    (hs : SpinStep e l (q, event, pc) r) :
    (r.1.stats.observed.length : ℤ) - r.1.stats.refused + (r.2.2.unobserved - r.2.2.did.toNat) =
      q.stats.observed.length - q.stats.refused + (pc.unobserved - pc.did.toNat) := by
  cases hs with
  | attempt hs => simp [SpinPc.unobserved, SpinPc.did]
  | work ha hmove hin hs hstill => rfl
  | @move _ _ _ popped _ hs hout => cases popped <;> simp [SpinPc.unobserved, SpinPc.did]
  | @ret _ _ _ popped ok _ _ ha hin hs hrests hresult =>
    cases popped <;> cases ok <;> cases e <;>
      simp [SpinPc.unobserved, SpinPc.did, SpinPc.after]
  | countFull hs =>
    cases hs
    simp [SpinPc.unobserved, SpinPc.did]
    omega
  | @size _ _ _ done _ hs => rfl
  | load ha hs => rfl
  | @sized _ _ _ done _ _ hout hanswer hs =>
    cases hs
    cases done <;> simp [SpinPc.unobserved, SpinPc.did]
    all_goals omega
  | observe ha hs =>
    cases hs with
    | countFull => exact ha.elim
    | call => exact ha.elim
    | _ => rfl
  | again hout => simp [SpinPc.unobserved, SpinPc.did]

/-- Every push, every pop and every refusal is followed by one observation. -/
def spinObserved (c : Capacity) : Tally (spinLaws c) where
  amount := fun q => q.stats.observed.length -
    (q.stats.refused + operations ((spinLaws c).fifo q) : ℤ)
  owed := fun _ pc => pc.unobserved
  amount_fresh := rfl
  owed_enter := fun _ => rfl
  owed_returns := fun _ _ _ hr => by rw [hr.1]; rfl
  step := fun e l q event pc r hinv hok hs => by
    have hoperations := (spinLaws c).operations_step hinv hok hs
    have hobserved := spin_observed_step hs
    show _ + SpinPc.unobserved r.2.2 ≤ _ + SpinPc.unobserved pc
    have hdid : (spinLaws c).did = SpinPc.did := rfl
    rw [hdid] at hoperations
    omega

theorem spinObserved_exact (c : Capacity) : (spinObserved c).Exact := by
  intro e l q event pc r hinv hok hs
  have hoperations := (spinLaws c).operations_step hinv hok hs
  have hobserved := spin_observed_step hs
  show (_ : ℤ) - _ + SpinPc.unobserved pc ≤ _ - _ + SpinPc.unobserved r.2.2
  have hdid : (spinLaws c).did = SpinPc.did := rfl
  rw [hdid] at hoperations
  omega

end Spsc

/-! ### `run_normal_queue_pipeline` -/

section Normal

variable {capacity : ℕ} {e : Endpoint} {q : WaitQueue} {event : PipelineEvent} {pc : WaitPc}

/-- Whether a thread has yet to observe its operation. -/
def WaitPc.unobserved : WaitPc → ℤ
  | .inside did => if did then 1 else 0
  | .waited | .sizing => 1
  | .calling | .observing => 0

theorem wait_observed_step {l : WaitLabel} {r : WaitQueue × PipelineEvent × WaitPc}
    (hs : WaitStep capacity e l (q, event, pc) r) :
    (r.1.stats.observed.length : ℤ) + (r.2.2.unobserved - r.2.2.did.toNat) =
      q.stats.observed.length + (pc.unobserved - pc.did.toNat) := by
  cases hs with
  | call hs => rfl
  | work ha hact hunlock hin hs => rfl
  | @act _ _ _ did _ hs hevent => cases did <;> rfl
  | @ret _ _ did r hs =>
    have hafter : (WaitPc.after e (r.hadToWait e)).unobserved = 1 ∧
        (WaitPc.after e (r.hadToWait e)).did = true := by
      cases e with
      | producer => unfold WaitPc.after; dsimp only; split_ifs <;> exact ⟨rfl, rfl⟩
      | consumer => exact ⟨rfl, rfl⟩
    simp only [hafter]
    cases did <;> rfl
  | countFull hs => cases hs; rfl
  | size free hs =>
    cases hs
    simp [WaitPc.unobserved, WaitPc.did]
  | observe ha hs =>
    cases hs with
    | countFull => exact ha.elim
    | call => exact ha.elim
    | _ => rfl

/-- Every push and every pop is followed by one observation. -/
def waitObserved (capacity : ℕ) : Tally (waitLaws capacity) where
  amount := fun q => (q.stats.observed.length : ℤ) - operations ((waitLaws capacity).fifo q)
  owed := fun _ pc => pc.unobserved
  amount_fresh := rfl
  owed_enter := fun _ => rfl
  owed_returns := fun _ _ _ hr => by rw [hr.1]; rfl
  step := fun e l q event pc r hinv hok hs => by
    have hoperations := (waitLaws capacity).operations_step hinv hok hs
    have hobserved := wait_observed_step hs
    show _ + WaitPc.unobserved r.2.2 ≤ _ + WaitPc.unobserved pc
    have hdid : (waitLaws capacity).did = WaitPc.did := rfl
    rw [hdid] at hoperations
    omega

theorem waitObserved_exact (capacity : ℕ) : (waitObserved capacity).Exact := by
  intro e l q event pc r hinv hok hs
  have hoperations := (waitLaws capacity).operations_step hinv hok hs
  have hobserved := wait_observed_step hs
  show (_ : ℤ) - _ + WaitPc.unobserved pc ≤ _ - _ + WaitPc.unobserved r.2.2
  have hdid : (waitLaws capacity).did = WaitPc.did := rfl
  rw [hdid] at hoperations
  omega

/-- Whether the push of a thread may still be counted as one that had to wait. -/
def WaitPc.uncounted (e : Endpoint) : WaitPc → ℤ
  | .inside did => if did ∧ e = .producer then 1 else 0
  | .waited => 1
  | .calling | .sizing | .observing => 0

theorem uncounted_after_le (e : Endpoint) (hadToWait : Option Bool) :
    (WaitPc.after e hadToWait).uncounted e ≤ if e = .producer then 1 else 0 := by
  cases e with
  | producer =>
    show _ ≤ (1 : ℤ)
    unfold WaitPc.after
    dsimp only
    split_ifs <;> decide
  | consumer => exact le_rfl

/-- A step that changes no contents. -/
theorem wait_full_keep {l : WaitLabel} {r : WaitQueue × PipelineEvent × WaitPc}
    (hs : WaitStep capacity e l (q, event, pc) r) (hdid : r.2.2.did = pc.did) :
    (r.1.stats.refused : ℤ) + r.2.2.uncounted e ≤ q.stats.refused + pc.uncounted e := by
  cases hs with
  | call hs => exact le_rfl
  | work ha hact hunlock hin hs => exact le_rfl
  | @act _ _ _ did _ hs hevent =>
    obtain rfl : true = did := hdid
    exact le_rfl
  | @ret _ _ did r hs =>
    have hafter := uncounted_after_le e (r.hadToWait e)
    obtain ⟨-, -, hafterDid⟩ := after_ne e (r.hadToWait e)
    obtain rfl : true = did := hafterDid.symm.trans hdid
    have hinside : WaitPc.uncounted e (.inside true) = if e = .producer then 1 else 0 := by
      simp [WaitPc.uncounted]
    rw [hinside]
    exact add_le_add_right hafter _
  | countFull hs =>
    cases hs
    simp [WaitPc.uncounted]
  | size free hs => cases hs; exact le_rfl
  | observe ha hs =>
    cases hs with
    | countFull => exact ha.elim
    | call => exact ha.elim
    | _ => exact le_rfl

/-- A step by which an operation takes effect. -/
theorem wait_full_act {l : WaitLabel} {r : WaitQueue × PipelineEvent × WaitPc}
    (hs : WaitStep capacity e l (q, event, pc) r) (hbefore : pc.did = false)
    (hdid : r.2.2.did = true) :
    (r.1.stats.refused : ℤ) + r.2.2.uncounted e ≤
      q.stats.refused + pc.uncounted e + if e = .producer then 1 else 0 := by
  cases hs with
  | call hs => cases hdid
  | work ha hact hunlock hin hs => exact absurd (hbefore.symm.trans hdid) (by decide)
  | @act _ _ _ did _ hs hevent =>
    obtain rfl : did = false := hbefore
    simp [WaitPc.uncounted]
  | @ret _ _ did r hs =>
    have hafter := uncounted_after_le e (r.hadToWait e)
    obtain rfl : did = false := hbefore
    have hinside : WaitPc.uncounted e (.inside false) = 0 := by simp [WaitPc.uncounted]
    rw [hinside, add_zero]
    exact add_le_add_right hafter _
  | countFull hs => cases hbefore
  | size free hs => cases hbefore
  | observe ha hs => cases hbefore

/-- A push is counted in `full_events` once at most. -/
def waitFull (capacity : ℕ) : Tally (waitLaws capacity) where
  amount := fun q => (q.stats.refused : ℤ) - ((waitLaws capacity).fifo q).pushed.length
  owed := WaitPc.uncounted
  amount_fresh := rfl
  owed_enter := fun _ => rfl
  owed_returns := fun _ _ _ hr => by rw [hr.1]; rfl
  step := fun e l q event pc r hinv hok hs => by
    show (_ : ℤ) - _ + WaitPc.uncounted e r.2.2 ≤ _ - _ + WaitPc.uncounted e pc
    rcases (waitLaws capacity).effect e l q event pc r hinv hok hs with
      ⟨hfifo, hdid, -⟩ | ⟨hbefore, hdid, hacts⟩
    · have hkeep := wait_full_keep hs hdid
      rw [hfifo]
      omega
    · have hact := wait_full_act hs hbefore hdid
      cases e with
      | producer =>
        obtain ⟨-, hpush⟩ := hacts
        have hpushed := pushed_of_push hpush
        simp only [if_true] at hact
        omega
      | consumer =>
        have hpop : Fifo.Step capacity ((waitLaws capacity).fifo q) (.pop r.2.1)
          ((waitLaws capacity).fifo r.1) := hacts
        rw [pushed_of_pop hpop]
        simp only [reduceCtorEq, if_false] at hact
        omega

end Normal

end Hft.Bench
