import HftArb.Bench.Ends
import HftArb.Bench.SpscPipeline
import HftArb.Concurrency.SpscFifo

/-!
# The pipeline of ring buffers

`spinLaws` shows that `push_spin` and `pop_spin` act on a bounded first-in first-out queue, from the
refinement of the ring buffer, and `spinProgress` that a thread which finds room, or an event, gets
on with its operation as soon as it reads the newest cursor.
-/

namespace Hft.Concurrency

open Transition

variable {c : Capacity} {T : Type} {s s' : SpscState c T} {a : SpscAction T}

/-- The value the current push was called with. -/
def Producer.value : Producer T → Option T
  | .idle => none
  | .entered value _ | .gotHead value _ _ | .hasRoom value _ _ | .constructed value _ => some value

/-- A step of the consumer leaves the producer where it is, and conversely. -/
theorem SpscStep.frame (hs : SpscStep s a s') :
    (a.endpoint = .consumer → s'.producer = s.producer) ∧
      (a.endpoint = .producer → s'.consumer = s.consumer) := by
  cases hs <;> constructor <;> intro ha <;> first | rfl | exact s.moveOut_producer _ | cases ha

/-- What is in the hands of the thread at an end: the event to be pushed, or the one moved out. -/
def SpscState.Working (s : SpscState c T) (value : T) (moved : Bool) : Endpoint → Prop
  | .producer => s.producer.value = some value ∧ moved = false
  | .consumer => s.consumer ≠ .idle ∧ s.consumer.held = if moved then 1 else 0

theorem SpscState.Working.not_rests {value : T} {moved : Bool} {e : Endpoint}
    (h : s.Working value moved e) : ¬ s.Rests e := by
  cases e with
  | producer =>
    intro hrests
    rw [Working, show s.producer = .idle from hrests] at h
    cases h.1
  | consumer => exact h.1

theorem SpscState.Working.of_frame {value : T} {moved : Bool} {e : Endpoint} (hs : SpscStep s a s')
    (ha : a.endpoint ≠ e) (h : s.Working value moved e) : s'.Working value moved e := by
  cases e with
  | producer =>
    have hproducer := hs.frame.1 (by cases hend : a.endpoint <;> simp_all)
    rwa [Working, hproducer]
  | consumer =>
    have hconsumer := hs.frame.2 (by cases hend : a.endpoint <;> simp_all)
    rwa [Working, hconsumer]

end Hft.Concurrency

namespace Hft.Bench

open Function Transition Transition.System Concurrency

variable {c : Capacity} {e e' : Endpoint} {q : SpinQueue c} {event : PipelineEvent} {pc : SpinPc}

/-! ### Where a thread is -/

/-- Where a thread is in `size_approx`, or what it has returned. -/
def Sizing : ObserverPhase → Option (Observer × Answer) → Prop
  | .idle, answer => ∃ occupancy, answer = some (.sizeApprox, .number occupancy)
  | .called observer, _ | .loaded observer _, _ | .both observer _ _, _ => observer = .sizeApprox

/-- What holds at an end of the queue whose thread is at `pc`. -/
structure SpinOk (e : Endpoint) (q : SpinQueue c) (event : PipelineEvent) (pc : SpinPc) : Prop where
  working : ∀ popped, pc = .inside popped → q.ring.buffer.Working event popped e
  rests : (∀ popped, pc ≠ .inside popped) → q.ring.buffer.Rests e
  quiet : (∀ done, pc ≠ .inSize done) → q.ring.phase e = .idle
  sizing : ∀ done, pc = .inSize done → Sizing (q.ring.phase e) (q.ring.answer e)
  unobserved : (∀ done, pc ≠ .observing done) → q.stats.phase e = .idle

/-- The end of a thread that is outside the lambda is as at its beginning. -/
def spinOk (e : Endpoint) (q : SpinQueue c) : Option (PipelineEvent × SpinPc) → Prop
  | none => SpinOk e q {} .attempting
  | some (event, pc) => SpinOk e q event pc

/-- The operation has taken effect. -/
def SpinPc.did : SpinPc → Bool
  | .attempting | .refused => false
  | .inside popped => popped
  | .sizing done | .inSize done | .observing done => done

/-- Buffer and statistics are in states they can get into, and no occupancy was ever seen that the
buffer cannot have. -/
structure SpinInv (q : SpinQueue c) : Prop where
  ring : (observed c PipelineEvent).Reachable q.ring
  stats : (QueueStats.queueStats Endpoint).Reachable q.stats
  occupancy : ∀ n ∈ q.stats.observed, n ≤ c.size - 1

theorem SpinInv.observedInv (h : SpinInv q) : ObservedInv q.ring :=
  h.ring.induct (I := ObservedInv) (by rintro _ rfl; exact observedInv_init)
    fun _ _ _ hi hs => observedInv_step hi hs

/-! ### Frames -/

/-- A step of the other end's thread. -/
theorem SpinOk.of_frame (h : SpinOk e q event pc) {q' : SpinQueue c}
    (hworking : ∀ popped, q.ring.buffer.Working event popped e →
      q'.ring.buffer.Working event popped e)
    (hrests : q.ring.buffer.Rests e → q'.ring.buffer.Rests e)
    (hphase : q'.ring.phase e = q.ring.phase e) (hanswer : q'.ring.answer e = q.ring.answer e)
    (hstats : q'.stats.phase e = q.stats.phase e) : SpinOk e q' event pc where
  working := fun popped hpc => hworking popped (h.working popped hpc)
  rests := fun hpc => hrests (h.rests hpc)
  quiet := fun hpc => hphase.trans (h.quiet hpc)
  sizing := fun done hpc => by rw [hphase, hanswer]; exact h.sizing done hpc
  unobserved := fun hpc => hstats.trans (h.unobserved hpc)

/-- The endpoint of a step on the observed buffer. -/
def endpointOf : ObservedAction PipelineEvent → Endpoint
  | .operate a => a.endpoint
  | .call e _ | .loadFirst e | .loadSecond e | .ret e => e

theorem frame_ring {r : ObservedState c PipelineEvent} {a : ObservedAction PipelineEvent}
    (hs : ObservedStep q.ring a r) (ha : endpointOf a ≠ e) (h : SpinOk e q event pc) :
    SpinOk e { q with ring := r } event pc := by
  cases hs with
  | operate hstep hidle =>
    exact h.of_frame (fun popped => SpscState.Working.of_frame hstep ha)
      (frame_step hstep ha).2 rfl rfl rfl
  | call e' observer hrests hidle =>
    exact h.of_frame (fun _ => id) id (update_of_ne (Ne.symm ha) _ _)
      (update_of_ne (Ne.symm ha) _ _) rfl
  | loadFirst e' hcalled hload =>
    exact h.of_frame (fun _ => id) id (update_of_ne (Ne.symm ha) _ _) rfl rfl
  | loadSecond e' hloaded hload =>
    exact h.of_frame (fun _ => id) id (update_of_ne (Ne.symm ha) _ _) rfl rfl
  | ret e' hboth =>
    exact h.of_frame (fun _ => id) id (update_of_ne (Ne.symm ha) _ _)
      (update_of_ne (Ne.symm ha) _ _) rfl

theorem spinOk_none : spinOk e q none ↔ SpinOk e q event .attempting := by
  constructor <;> rintro ⟨-, hrests, hquiet, -, hunobserved⟩
  · exact ⟨by simp, hrests, hquiet, by simp, hunobserved⟩
  · exact ⟨by simp, hrests, hquiet, by simp, hunobserved⟩

/-- The other end of the queue does not notice. -/
theorem spinOk_other {l : SpinLabel} {r : SpinQueue c × PipelineEvent × SpinPc}
    (hne : e' ≠ e) (hs : SpinStep e l (q, event, pc) r) {p : Option (PipelineEvent × SpinPc)}
    (h : spinOk e' q p) : spinOk e' r.1 p := by
  obtain ⟨event₀, pc₀, h, hback⟩ : ∃ event₀ pc₀, SpinOk e' q event₀ pc₀ ∧
      (SpinOk e' r.1 event₀ pc₀ → spinOk e' r.1 p) := by
    cases p with
    | none => exact ⟨_, _, h, id⟩
    | some p => exact ⟨p.1, p.2, h, id⟩
  refine hback ?_
  have hstats : ∀ t : QueueStats Endpoint, t.phase e' = q.stats.phase e' →
      SpinOk e' { q with stats := t } event₀ pc₀ := fun t ht =>
    h.of_frame (fun _ => id) id rfl rfl ht
  cases hs with
  | attempt hs =>
    refine frame_ring hs ?_ h
    cases e <;> exact Ne.symm hne
  | work ha hmove hin hs hstill => exact frame_ring hs (ne_of_eq_of_ne ha (Ne.symm hne)) h
  | move hs hout => exact frame_ring hs (Ne.symm hne) h
  | ret ha hin hs hrests hresult => exact frame_ring hs (ne_of_eq_of_ne ha (Ne.symm hne)) h
  | countFull hs => exact hstats _ (hs.frame hne)
  | size hs => exact frame_ring hs (Ne.symm hne) h
  | load ha hs =>
    refine frame_ring hs ?_ h
    rcases ha with rfl | rfl | rfl <;> exact Ne.symm hne
  | sized hout hanswer hs => exact hstats _ (hs.frame hne)
  | observe ha hs => exact hstats _ (hs.frame (ha.thread ▸ hne))
  | again hout => exact h

/-! ### The thread's own steps -/

/-- A step of an operation of the thread itself, and the other parts of its end. -/
theorem SpinOk.operate (h : SpinOk e q event pc) {a : SpscAction PipelineEvent}
    {r : ObservedState c PipelineEvent} (hs : ObservedStep q.ring (.operate a) r)
    {event' : PipelineEvent} {pc' : SpinPc} (hpc : ∀ done, pc ≠ .inSize done ∧ pc ≠ .observing done)
    (hpc' : ∀ done, pc' ≠ .inSize done ∧ pc' ≠ .observing done)
    (hworking : ∀ popped, pc' = .inside popped → r.buffer.Working event' popped e)
    (hrests : (∀ popped, pc' ≠ .inside popped) → r.buffer.Rests e) :
    SpinOk e { q with ring := r } event' pc' := by
  have hphase : r.phase e = q.ring.phase e := by
    cases hs
    rfl
  refine ⟨hworking, hrests, fun _ => ?_, fun done hin => absurd hin (hpc' done).1, fun _ => ?_⟩
  · exact hphase.trans (h.quiet fun done => (hpc done).1)
  · exact h.unobserved fun done => (hpc done).2

/-- A step inside an operation that does not move the event out. -/
theorem working_step {s s' : SpscState c PipelineEvent} {a : SpscAction PipelineEvent}
    {popped : Bool} (hs : SpscStep s a s') (ha : a.endpoint = e) (hmove : a ≠ .move)
    (hstill : ¬ s'.Rests e) (h : s.Working event popped e) : s'.Working event popped e := by
  cases hs with
  | callPush value how hp =>
    cases ha
    exact absurd hp h.not_rests
  | loadHead hp =>
    cases ha
    simpa [SpscState.Working, Producer.value, hp] using h
  | loadTailFull => cases ha; exact absurd rfl hstill
  | loadTailRoom version hp =>
    cases ha
    simpa [SpscState.Working, Producer.value, hp] using h
  | construct hp =>
    cases ha
    simpa [SpscState.Working, Producer.value, SpscState.constructAt, hp] using h
  | storeHead => cases ha; exact absurd rfl hstill
  | callPop hc =>
    cases ha
    exact absurd hc h.not_rests
  | loadOwnTail hc =>
    cases ha
    simpa [SpscState.Working, Consumer.held, hc] using h
  | loadHeadEmpty => cases ha; exact absurd rfl hstill
  | loadHeadItem version hc =>
    cases ha
    simpa [SpscState.Working, Consumer.held, hc] using h
  | move => exact absurd rfl hmove
  | destroy hc =>
    cases ha
    simpa [SpscState.Working, Consumer.held, hc] using h
  | storeTail => cases ha; exact absurd rfl hstill

theorem spinOk_step {l : SpinLabel} {r : SpinQueue c × PipelineEvent × SpinPc}
    (h : SpinOk e q event pc) (hs : SpinStep e l (q, event, pc) r) : SpinOk e r.1 r.2.1 r.2.2 := by
  cases hs with
  | attempt hs =>
    refine h.operate hs (by simp) (by simp) (fun popped hpopped => ?_) (by simp)
    cases hpopped
    cases hs with
    | operate hstep hidle =>
      cases e with
      | producer => cases hstep; exact ⟨rfl, rfl⟩
      | consumer => cases hstep; exact ⟨by simp [ObservedState.tick], rfl⟩
  | work ha hmove hin hs hstill =>
    refine h.operate hs (by simp) (by simp) (fun popped hpopped => ?_) (by simp)
    cases hpopped
    cases hs with
    | operate hstep hidle => exact working_step hstep ha hmove hstill (h.working _ rfl)
  | move hs hout =>
    refine h.operate hs (by simp) (by simp) (fun popped hpopped => ?_) (by simp)
    cases hpopped
    cases hs with
    | operate hstep hidle =>
      cases hstep
      exact ⟨by simp [ObservedState.tick], rfl⟩
  | @ret _ _ _ popped ok a r ha hin hs hrests hresult =>
    have hafter : ∀ done popped, SpinPc.after e ok ≠ .inSize done ∧
        SpinPc.after e ok ≠ .observing done ∧ SpinPc.after e ok ≠ .inside popped := by
      cases e <;> cases ok <;> simp [SpinPc.after]
    refine h.operate hs (by simp) (fun done => ⟨(hafter done true).1, (hafter done true).2.1⟩)
      (fun popped hpopped => absurd hpopped (hafter true popped).2.2) fun _ => hrests
  | countFull hs =>
    refine ⟨by simp, fun _ => h.rests (by simp), fun _ => h.quiet (by simp), by simp, fun _ => ?_⟩
    have hidle := h.unobserved (by simp)
    cases hs
    exact hidle
  | size hs =>
    refine ⟨by simp, fun _ => ?_, by simp, fun done hin => ?_, fun _ => h.unobserved (by simp)⟩
    · have hrests := h.rests (by simp)
      cases hs
      exact hrests
    · cases hs
      simp [Sizing]
  | @load _ _ _ done a r ha hs =>
    have hsizing := h.sizing done rfl
    refine ⟨by simp, fun _ => ?_, by simp, fun done' _ => ?_, fun _ => h.unobserved (by simp)⟩
    · have hrests := h.rests (by simp)
      rcases ha with rfl | rfl | rfl <;> cases hs <;> exact hrests
    · rcases ha with rfl | rfl | rfl
      · cases hs with
        | loadFirst _ hcalled hload =>
          rw [hcalled] at hsizing
          simpa [Sizing] using hsizing
      · cases hs with
        | loadSecond _ hloaded hload =>
          rw [hloaded] at hsizing
          simpa [Sizing] using hsizing
      · cases hs with
        | ret _ hboth =>
          rw [hboth] at hsizing
          simp only [Sizing] at hsizing
          simp [Sizing, hsizing, Observer.eval]
  | sized hout hanswer hs =>
    exact ⟨by simp, fun _ => h.rests (by simp), fun _ => hout, by simp, by simp⟩
  | observe ha hs =>
    exact ⟨by simp, fun _ => h.rests (by simp), fun _ => h.quiet (by simp), by simp, by simp⟩
  | again hout =>
    exact ⟨by simp, fun _ => h.rests (by simp), fun _ => h.quiet (by simp), by simp, fun _ => hout⟩

theorem spinInv_step {l : SpinLabel} {r : SpinQueue c × PipelineEvent × SpinPc} (hinv : SpinInv q)
    (hs : SpinStep e l (q, event, pc) r) : SpinInv r.1 := by
  have hring : ∀ {a r}, ObservedStep q.ring a r → SpinInv { q with ring := r } := fun hs =>
    ⟨hinv.ring.step hs, hinv.stats, hinv.occupancy⟩
  have hstats : ∀ {a t}, QueueStats.Step q.stats a t → (∀ n ∈ t.observed, n ≤ c.size - 1) →
      SpinInv { q with stats := t } := fun hs hn => ⟨hinv.ring, hinv.stats.step hs, hn⟩
  cases hs with
  | attempt hs => exact hring hs
  | work ha hmove hin hs hstill => exact hring hs
  | move hs hout => exact hring hs
  | ret ha hin hs hrests hresult => exact hring hs
  | countFull hs =>
    refine hstats hs ?_
    cases hs
    exact hinv.occupancy
  | size hs => exact hring hs
  | load ha hs => exact hring hs
  | sized hout hanswer hs =>
    refine hstats hs ?_
    cases hs
    intro n hn
    rcases List.mem_append.1 hn with hold | hnew
    · exact hinv.occupancy n hold
    · -- the answer was exact for some moment of the call
      obtain ⟨m, -, hle, htruth⟩ := observers_exact hinv.ring hanswer
      cases htruth
      rw [List.mem_singleton.1 hnew]
      exact hle
  | observe ha hs =>
    refine hstats hs ?_
    cases hs with
    | countFull => exact ha.elim
    | call => exact ha.elim
    | _ => exact hinv.occupancy
  | again hout => exact hinv

/-! ### What a step does to the contents -/

section Effect

variable {s s' : SpscState c PipelineEvent} {a : SpscAction PipelineEvent}

/-- Only publishing an element and moving one out change the abstract queue. -/
theorem fifo_step (hs : SpscStep s a s') (hhead : a ≠ .storeHead) (hmove : a ≠ .move) :
    s'.fifo = s.fifo := by
  cases hs with
  | storeHead => exact absurd rfl hhead
  | move => exact absurd rfl hmove
  | _ => rfl

/-- Publishing the head pushes the element the producer works on. -/
theorem fifo_push (hinv : ∃ C, Concurrency.Inv s C) (hs : SpscStep s .storeHead s')
    (hvalue : s.producer.value = some event) :
    Fifo.Step (c.size - 1) s.fifo (.push event) s'.fifo := by
  have hpushed : s'.fifo.pushed = s.fifo.pushed ++ [event] := by
    cases hs with
    | storeHead hp =>
      rw [hp] at hvalue
      cases hvalue
      rfl
  rcases (simulation c PipelineEvent).step s .storeHead s' hinv hs with heq | ⟨b, hb⟩
  · rw [heq] at hpushed
    exact absurd (congrArg List.length hpushed) (by simp)
  · rwa [hb.eq_push hpushed] at hb

/-- Moving an element out pops it. -/
theorem fifo_pop (hinv : ∃ C, Concurrency.Inv s C) (hs : SpscStep s .move s')
    (hout : s'.popped.getLast? = some event) :
    Fifo.Step (c.size - 1) s.fifo (.pop event) s'.fifo := by
  have hpopped : s'.fifo.popped = s.fifo.popped ++ [event] := by
    obtain ⟨C, hC⟩ := hinv
    cases hs with
    | move hc =>
      obtain ⟨-, hlt, hmoved⟩ := inv_move hC hc
      simp only [SpscState.fifo] at hout ⊢
      rw [hmoved, List.getLast?_concat] at hout
      cases hout
      exact hmoved
  rcases (simulation c PipelineEvent).step s .move s' hinv hs with heq | ⟨b, hb⟩
  · rw [heq] at hpopped
    exact absurd (congrArg List.length hpopped) (by simp)
  · rwa [hb.eq_pop hpopped] at hb

end Effect

/-- The event at an end of the queue goes into it, or comes out of it, exactly when the operation
takes effect. -/
theorem spin_effect {l : SpinLabel} {r : SpinQueue c × PipelineEvent × SpinPc} (hinv : SpinInv q)
    (h : SpinOk e q event pc) (hs : SpinStep e l (q, event, pc) r) :
    (r.1.ring.buffer.fifo = q.ring.buffer.fifo ∧ r.2.2.did = pc.did ∧ r.2.1 = event) ∨
    (pc.did = false ∧ r.2.2.did = true ∧
      Acts (c.size - 1) q.ring.buffer.fifo r.1.ring.buffer.fifo event r.2.1 e) := by
  have hbuffer := hinv.observedInv.buffer
  cases hs with
  | attempt hs =>
    left
    cases hs with
    | operate hstep hidle =>
      refine ⟨fifo_step hstep ?_ ?_, rfl, rfl⟩ <;> cases e <;> simp [tryCall]
  | work ha hmove hin hs hstill =>
    left
    cases hs with
    | operate hstep hidle =>
      refine ⟨fifo_step hstep ?_ hmove, rfl, rfl⟩
      rintro rfl
      cases hstep
      cases ha
      exact hstill rfl
  | @move _ _ _ popped r hs hout =>
    cases hs with
    | operate hstep hidle =>
      right
      have hworking := h.working popped rfl
      refine ⟨?_, rfl, fifo_pop hbuffer hstep hout⟩
      cases hstep with
      | move hc =>
        simp only [SpscState.Working, hc, Consumer.held] at hworking
        cases popped <;> simp_all [SpinPc.did]
  | @ret _ _ _ popped ok a r ha hin hs hrests hresult =>
    cases hs with
    | operate hstep hidle =>
      have hworking := h.working popped rfl
      cases hstep with
      | loadTailFull version hp =>
        cases ha
        cases hresult
        exact Or.inl ⟨rfl, hworking.2.symm, rfl⟩
      | storeHead hp =>
        cases ha
        cases hresult
        exact Or.inr ⟨hworking.2, rfl, rfl, fifo_push hbuffer (.storeHead hp) hworking.1⟩
      | loadHeadEmpty version hc =>
        cases ha
        cases hresult
        simp only [SpscState.Working, SpscAction.endpoint, hc, Consumer.held] at hworking
        refine Or.inl ⟨rfl, ?_, rfl⟩
        cases popped <;> simp_all [SpinPc.did, SpinPc.after, SpscAction.endpoint]
      | storeTail hc =>
        cases ha
        cases hresult
        simp only [SpscState.Working, SpscAction.endpoint, hc, Consumer.held] at hworking
        refine Or.inl ⟨rfl, ?_, rfl⟩
        cases popped <;> simp_all [SpinPc.did, SpinPc.after]
      | callPush value how hp => cases ha; exact absurd hp hin
      | callPop hc => cases ha; exact absurd hc hin
      | loadHead => cases ha; cases hrests
      | loadTailRoom => cases ha; cases hrests
      | construct => cases ha; cases hrests
      | loadOwnTail => cases ha; cases hrests
      | loadHeadItem => cases ha; cases hrests
      | move => cases ha; cases hrests
      | destroy => cases ha; cases hrests
  | countFull hs => exact Or.inl ⟨rfl, rfl, rfl⟩
  | size hs =>
    cases hs
    exact Or.inl ⟨rfl, rfl, rfl⟩
  | load ha hs =>
    left
    rcases ha with rfl | rfl | rfl <;> cases hs <;> exact ⟨rfl, rfl, rfl⟩
  | sized hout hanswer hs => exact Or.inl ⟨rfl, rfl, rfl⟩
  | observe ha hs => exact Or.inl ⟨rfl, rfl, rfl⟩
  | again hout => exact Or.inl ⟨rfl, rfl, rfl⟩

/-- **`push_spin` and `pop_spin` act on a bounded queue.** -/
def spinLaws (c : Capacity) : Laws (spin c) (c.size - 1) where
  fifo := fun q => q.ring.buffer.fifo
  inv := SpinInv
  ok := spinOk
  did := SpinPc.did
  fifo_fresh := rfl
  inv_fresh := ⟨.init rfl, .init rfl, by simp [spin]⟩
  ok_fresh := fun e => by
    refine ⟨by simp, fun _ => ?_, fun _ => rfl, by simp, fun _ => rfl⟩
    cases e <;> rfl
  ok_enter := fun e q event h => spinOk_none.1 h
  did_enter := rfl
  ok_step := fun e l q event pc r hinv h hs => ⟨spinInv_step hinv hs, spinOk_step h hs⟩
  ok_other := fun e e' l q event pc r p hne _ _ hs h => spinOk_other hne hs h
  effect := fun e l q event pc r hinv h hs => spin_effect hinv h hs
  returns_ok := fun e q event pc h hr => by
    obtain ⟨rfl, hidle⟩ := hr
    refine ⟨rfl, ?_⟩
    exact ⟨by simp, fun _ => h.rests (by simp), fun _ => h.quiet (by simp), by simp,
      fun _ => hidle⟩

/-! ### Going on -/

/-- How far a thread is from the end of an operation of the buffer. -/
def producerLeft {T : Type} : Producer T → ℕ
  | .idle => 0
  | .entered _ _ => 4
  | .gotHead _ _ _ => 3
  | .hasRoom _ _ _ => 2
  | .constructed _ _ => 1

def consumerLeft : Consumer → ℕ
  | .idle => 0
  | .entered => 5
  | .gotTail _ => 4
  | .hasItem _ => 3
  | .moved _ => 2
  | .destroyed _ => 1

/-- How far it is from the end of `size_approx`. -/
def sizeLeft : ObserverPhase → ℕ
  | .idle => 0
  | .called _ => 3
  | .loaded _ _ => 2
  | .both _ _ _ => 1

def spinWeight (q : SpinQueue c) : ℕ :=
  producerLeft q.ring.buffer.producer + consumerLeft q.ring.buffer.consumer +
    (sizeLeft (q.ring.phase .producer) + sizeLeft (q.ring.phase .consumer)) +
    q.stats.busy

/-- A refused attempt comes before the next one. -/
def SpinPc.rank : SpinPc → ℕ
  | .refused => 42
  | .sizing false => 40
  | .inSize false => 36
  | .observing false => 30
  | .attempting => 24
  | .inside _ => 16
  | .sizing true => 12
  | .inSize true => 8
  | .observing true => 2

/-- The thread at end `e` can run its lambda a little further. -/
def GoesOn (q : SpinQueue c) (e : Endpoint) (event : PipelineEvent) (pc : SpinPc) : Prop :=
  ∃ r, (spin c).Runs (fun _ => True) e (q, event, pc) r ∧
    spinWeight r.1 + r.2.2.rank < spinWeight q + pc.rank

theorem GoesOn.of_step {l : SpinLabel} {r : SpinQueue c × PipelineEvent × SpinPc}
    (hs : SpinStep e l (q, event, pc) r)
    (hlt : spinWeight r.1 + r.2.2.rank < spinWeight q + pc.rank) : GoesOn q e event pc :=
  ⟨r, Relation.ReflTransGen.single ⟨l, trivial, hs⟩, hlt⟩

/-- A step inside an operation that brings the thread closer to its end. -/
theorem GoesOn.of_operate {a : SpscAction PipelineEvent} {s : SpscState c PipelineEvent}
    {popped : Bool} (hs : SpscStep q.ring.buffer a s) (ha : a.endpoint = e) (hmove : a ≠ .move)
    (hin : ¬ q.ring.buffer.Rests e) (hidle : q.ring.phase e = .idle)
    (hlt : producerLeft s.producer + consumerLeft s.consumer <
      producerLeft q.ring.buffer.producer + consumerLeft q.ring.buffer.consumer)
    (hstill : ¬ s.Rests e) : GoesOn q e event (.inside popped) := by
  have hring : ObservedStep q.ring (.operate a) (q.ring.tick s) := .operate hs (ha ▸ hidle)
  refine .of_step (.work ha hmove hin hring hstill) ?_
  simp only [spinWeight, ObservedState.tick, SpinPc.rank]
  omega

theorem getElem?_versions_last (c : Capacity) (n : ℕ) :
    (c.versions n)[n]? = some (c.cursor n) := by
  simp [Capacity.versions]

/-- A consumer that has moved an event out can always release its slot. -/
theorem goesOn_held {popped : Bool} (hheld : q.ring.buffer.consumer.held = 1)
    (hidle : q.ring.phase .consumer = .idle) :
    GoesOn q .consumer event (.inside popped) := by
  have hin : ¬ q.ring.buffer.Rests .consumer := by
    intro hrests
    rw [show q.ring.buffer.consumer = .idle from hrests] at hheld
    cases hheld
  cases hc : q.ring.buffer.consumer with
  | moved tail =>
    refine .of_operate (SpscStep.destroy hc) rfl (by simp) hin hidle ?_ (by simp [SpscState.Rests])
    simp [hc, consumerLeft]
  | destroyed tail =>
    refine .of_step (.ret rfl hin (.operate (SpscStep.storeTail hc) hidle) rfl rfl) ?_
    simp [spinWeight, ObservedState.tick, SpinPc.rank, SpinPc.after, hc, consumerLeft]
    omega
  | idle => rw [hc] at hheld; cases hheld
  | entered => rw [hc] at hheld; cases hheld
  | gotTail tail => rw [hc] at hheld; cases hheld
  | hasItem tail => rw [hc] at hheld; cases hheld

/-- The producer goes on as long as there is room, unless it waits for the consumer to release the
slot of an event that has already come out. -/
theorem goesOn_push (hinv : SpinInv q) (h : SpinOk .producer q event (.inside false))
    (hroom : q.ring.buffer.fifo.contents.length < c.size - 1) :
    GoesOn q .producer event (.inside false) ∨ q.ring.buffer.consumer.held = 1 := by
  obtain ⟨C, hC⟩ := hinv.observedInv.buffer
  have hworking := h.working false rfl
  have hin := hworking.not_rests
  have hidle := h.quiet (by simp)
  have hprod := hC.producer
  cases hp : q.ring.buffer.producer with
  | idle => exact absurd hp hin
  | entered value how =>
    left
    obtain ⟨head, hload⟩ := hC.exists_now .head
    refine .of_operate (SpscStep.loadHead hp hload) rfl (by simp) hin hidle ?_
      (by simp [SpscState.Rests])
    simp [hp, producerLeft]
  | gotHead value how head =>
    rcases Nat.eq_zero_or_pos q.ring.buffer.consumer.held with hheld | hheld
    · left
      rw [SpscState.ProducerOk, hp] at hprod
      have hlength := hC.length_popped
      have hview := hC.headView_ge.trans hC.headView_le
      simp only [SpscState.fifo, List.length_drop] at hroom
      have hload : q.ring.buffer.ring.tail[C]? = some (c.cursor C) := by
        rw [hC.tail]
        exact getElem?_versions_last c C
      have hne : c.increment head ≠ c.cursor C := by
        rw [hprod.1, c.increment_cursor]
        intro heq
        have hcount := (c.cursor_eq_iff (P := q.ring.buffer.pushed.length + 1) (C := C) (by omega)
          (by omega)).1 heq.symm
        omega
      refine .of_operate (SpscStep.loadTailRoom C hp hC.tailView_le hload hne) rfl (by simp) hin
        hidle ?_ (by simp [SpscState.Rests])
      simp [hp, producerLeft]
    · right
      have hle : q.ring.buffer.consumer.held ≤ 1 := by
        cases q.ring.buffer.consumer <;> simp [Consumer.held]
      omega
  | hasRoom value how head =>
    left
    refine .of_operate (SpscStep.construct hp) rfl (by simp) hin hidle ?_ (by simp [SpscState.Rests])
    simp [hp, producerLeft, SpscState.constructAt]
  | constructed value next =>
    left
    refine .of_step (.ret rfl hin (.operate (SpscStep.storeHead hp) hidle) rfl rfl) ?_
    simp [spinWeight, ObservedState.tick, SpinPc.rank, SpinPc.after, hp, producerLeft]
    omega

/-- The consumer goes on as long as there is an event, or it has one. -/
theorem goesOn_pop {popped : Bool} (hinv : SpinInv q) (h : SpinOk .consumer q event (.inside popped))
    (hitem : popped = true ∨ q.ring.buffer.fifo.contents ≠ []) :
    GoesOn q .consumer event (.inside popped) := by
  obtain ⟨C, hC⟩ := hinv.observedInv.buffer
  have hworking := h.working popped rfl
  have hin := hworking.not_rests
  have hidle := h.quiet (by simp)
  have hcons := hC.consumer
  cases hc : q.ring.buffer.consumer with
  | idle => exact absurd hc hin
  | entered =>
    obtain ⟨tail, hload⟩ := hC.exists_now .tail
    refine .of_operate (SpscStep.loadOwnTail hc hload) rfl (by simp) hin hidle ?_
      (by simp [SpscState.Rests])
    simp [hc, consumerLeft]
  | gotTail tail =>
    rw [SpscState.ConsumerOk, hc] at hcons
    simp only [SpscState.Working, hc, Consumer.held] at hworking
    have hpopped : popped = false := by
      cases popped
      · rfl
      · simp at hworking
    have hlength := hC.length_popped
    rw [hc] at hlength
    have hcontents : 0 < q.ring.buffer.fifo.contents.length :=
      List.length_pos_iff.2 (hitem.resolve_left (by simp [hpopped]))
    simp only [SpscState.fifo, List.length_drop, hlength, Consumer.held] at hcontents
    have hview := hC.tailView_le
    have hroom := hC.tailView_ge
    have hload : q.ring.buffer.ring.head[q.ring.buffer.pushed.length]? =
        some (c.cursor q.ring.buffer.pushed.length) := by
      rw [hC.head]
      exact getElem?_versions_last c _
    have hne : tail ≠ c.cursor q.ring.buffer.pushed.length := by
      rw [hcons]
      intro heq
      have hcount := (c.cursor_eq_iff (P := q.ring.buffer.pushed.length) (C := C) (by omega)
        (by omega)).1 heq
      omega
    refine .of_operate (SpscStep.loadHeadItem _ hc hC.headView_le hload hne) rfl (by simp) hin hidle
      ?_ (by simp [SpscState.Rests])
    simp [hc, consumerLeft]
  | hasItem tail =>
    obtain ⟨-, hlt, hmoved⟩ := inv_move hC hc
    have hring : ObservedStep q.ring (.operate .move) _ := .operate (SpscStep.move hc) hidle
    have hout : (q.ring.buffer.moveOut tail).popped.getLast? = some q.ring.buffer.pushed[C] := by
      rw [hmoved, List.getLast?_concat]
    refine .of_step (.move hring hout) ?_
    simp [spinWeight, ObservedState.tick, SpinPc.rank, hc, consumerLeft]
  | moved tail => exact goesOn_held (by rw [hc]; rfl) hidle
  | destroyed tail => exact goesOn_held (by rw [hc]; rfl) hidle

/-- A thread inside `size_approx` gets on with it. -/
theorem goesOn_size {done : Bool} (hinv : SpinInv q) (h : SpinOk e q event (.inSize done)) :
    GoesOn q e event (.inSize done) := by
  obtain ⟨C, hC⟩ := hinv.observedInv.buffer
  have hsizing := h.sizing done rfl
  have hidle := h.unobserved (by simp)
  cases hphase : q.ring.phase e with
  | idle =>
    rw [hphase] at hsizing
    obtain ⟨occupancy, hanswer⟩ := hsizing
    have hcall := QueueStats.Step.call e occupancy hidle
    refine .of_step (.sized hphase hanswer hcall) ?_
    have hbusy := QueueStats.busy_call hcall
    cases done <;> simp only [spinWeight, SpinPc.rank, hbusy] <;> omega
  | called observer =>
    obtain ⟨x, hx⟩ := hC.exists_now observer.first
    refine .of_step (.load (Or.inl rfl) (.loadFirst e hphase hx)) ?_
    cases e <;> simp [spinWeight, sizeLeft, hphase]
  | loaded observer x =>
    obtain ⟨y, hy⟩ := hC.exists_now observer.first.other
    refine .of_step (.load (Or.inr (Or.inl rfl)) (.loadSecond e hphase hy)) ?_
    cases e <;> simp [spinWeight, sizeLeft, hphase]
  | both observer head tail =>
    refine .of_step (.load (Or.inr (Or.inr rfl)) (.ret e hphase)) ?_
    cases e <;> simp [spinWeight, sizeLeft, hphase]

/-- A thread inside `observe` returns from it. -/
theorem goesOn_observe {done : Bool} (hinv : SpinInv q) (hbusy : q.stats.phase e ≠ .idle) :
    GoesOn q e event (.observing done) := by
  obtain ⟨t, hleads, hphase⟩ := (QueueStats.inv_reachable hinv.stats).finish e
  refine ⟨({ q with stats := t }, event, .observing done), ?_, ?_⟩
  · refine Relation.ReflTransGen.lift (fun t => ({ q with stats := t }, event, SpinPc.observing done))
      ?_ _ _ hleads
    rintro t t' ⟨a, ha, hstep⟩
    exact ⟨.stats a, trivial, .observe ha hstep⟩
  · have hlt := QueueStats.busy_finish hbusy hphase
    simp only [spinWeight]
    omega

/-- **A thread that finds room, or an event, gets on**, perhaps after the other one has released a
slot. -/
def spinProgress (c : Capacity) : Progress (spinLaws c) where
  voluntary := fun _ => True
  weight := spinWeight
  rank := SpinPc.rank
  limit := 50
  rank_lt := fun pc => by
    cases pc with
    | attempting => decide
    | refused => decide
    | inside popped => show 16 + 1 < 50; decide
    | sizing done => cases done <;> decide
    | inSize done => cases done <;> decide
    | observing done => cases done <;> decide
  progress := fun q p hinv hok e event pc hp hreturns hact => by
    have h : SpinOk e q event pc := by
      have hoke := hok e
      rwa [hp] at hoke
    have hself : GoesOn q e event pc → ∃ e' event' pc' r, p e' = some (event', pc') ∧
        (spin c).Runs (fun _ => True) e' (q, event', pc') r ∧
        spinWeight r.1 + r.2.2.rank < spinWeight q + pc'.rank := by
      rintro ⟨r, hruns, hlt⟩
      exact ⟨e, event, pc, r, hp, hruns, hlt⟩
    cases pc with
    | attempting =>
      have hrests := h.rests (by simp)
      have hidle := h.quiet (by simp)
      cases e with
      | producer =>
        refine hself (.of_step (.attempt (.operate (SpscStep.callPush event .move hrests) hidle)) ?_)
        simp only [SpscState.Rests] at hrests
        simp [spinWeight, ObservedState.tick, SpinPc.rank, hrests, producerLeft]
        omega
      | consumer =>
        refine hself (.of_step (.attempt (.operate (SpscStep.callPop hrests) hidle)) ?_)
        simp only [SpscState.Rests] at hrests
        simp [spinWeight, ObservedState.tick, SpinPc.rank, hrests, consumerLeft]
        omega
    | refused =>
      refine hself (.of_step (.countFull (.countFull e (h.unobserved (by simp)))) ?_)
      simp [spinWeight, SpinPc.rank, QueueStats.busy]
    | sizing done =>
      have hidle := h.quiet (by simp)
      refine hself (.of_step (.size (.call e .sizeApprox (h.rests (by simp)) hidle)) ?_)
      cases e <;> cases done <;> simp [spinWeight, SpinPc.rank, sizeLeft, hidle] <;> omega
    | inSize done => exact hself (goesOn_size hinv h)
    | observing done =>
      by_cases hidle : q.stats.phase e = .idle
      · cases done with
        | true => exact absurd ⟨rfl, hidle⟩ hreturns
        | false => exact hself (.of_step (.again hidle) (by simp [SpinPc.rank]))
      · exact hself (goesOn_observe hinv hidle)
    | inside popped =>
      cases e with
      | consumer => exact hself (goesOn_pop hinv h hact)
      | producer =>
        have hpopped := (h.working popped rfl).2
        subst hpopped
        rcases goesOn_push hinv h (hact.resolve_left (by simp [spinLaws, SpinPc.did])) with
          hgo | hheld
        · exact hself hgo
        · -- the consumer is about to release the slot
          have hcons := hok .consumer
          have hbusy : ¬ q.ring.buffer.Rests .consumer := by
            intro hrests
            rw [show q.ring.buffer.consumer = .idle from hrests] at hheld
            cases hheld
          cases hpc : p .consumer with
          | none =>
            rw [hpc] at hcons
            exact absurd (SpinOk.rests hcons (by simp)) hbusy
          | some at_ =>
            obtain ⟨event', pc'⟩ := at_
            rw [hpc] at hcons
            have hcons' : SpinOk .consumer q event' pc' := hcons
            obtain ⟨popped, rfl⟩ : ∃ popped, pc' = .inside popped := by
              by_contra hnot
              exact hbusy (hcons'.rests fun popped heq => hnot ⟨popped, heq⟩)
            obtain ⟨r, hruns, hlt⟩ : GoesOn q .consumer event' (.inside popped) :=
              goesOn_held hheld (hcons'.quiet (by simp))
            exact ⟨.consumer, event', .inside popped, r, hpc, hruns, hlt⟩

end Hft.Bench
