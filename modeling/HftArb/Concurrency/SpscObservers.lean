import HftArb.Concurrency.SpscInvariant

/-!
# Observing the ring buffer from its ends

`empty`, `full` and `size_approx` load both cursors, one after the other, while the other thread
goes on.  Called by the producer or by the consumer between its own operations, one of the two is
the caller's own and stands still, so the pair that is read was the pair of cursors at some moment
of the call: the moment the other one was loaded (`ObservedInv.second_load`).  What is computed from
it is exact for the number of elements at that moment (`eval_seen`).
-/

namespace Hft.Concurrency

open Function Transition

/-- The threads that use the buffer. -/
inductive Endpoint
  | producer
  | consumer
  deriving DecidableEq

/-- `head_` or `tail_`. -/
inductive Cursor
  | head
  | tail
  deriving DecidableEq

/-- The cursor that only this thread writes. -/
def Endpoint.own : Endpoint → Cursor
  | .producer => .head
  | .consumer => .tail

def Cursor.other : Cursor → Cursor
  | .head => .tail
  | .tail => .head

/-- The observers.  The two loads of `empty` are operands of `==`, so either may come first. -/
inductive Observer
  | empty (first : Cursor)
  | full
  | sizeApprox

/-- What an observer returns. -/
inductive Answer
  | flag (b : Bool)
  | number (n : ℕ)

namespace Observer

/-- The cursor that is loaded first. -/
def first : Observer → Cursor
  | .empty first => first
  | .full => .head
  | .sizeApprox => .head

/-- The result, computed from the values of head and tail. -/
def eval (c : Capacity) (head tail : SizeT) : Observer → Answer
  | .empty _ => .flag (decide (tail = head))
  | .full => .flag (decide (c.increment head = tail))
  | .sizeApprox => .number ((head - tail) &&& c.mask).toNat

/-- The right answer when the buffer has `n` elements. -/
def truth (c : Capacity) (n : ℕ) : Observer → Answer
  | .empty _ => .flag (decide (n = 0))
  | .full => .flag (decide (n = c.size - 1))
  | .sizeApprox => .number n

/-- Head and tail, from the two values in the order in which they are loaded. -/
def pair (q : Observer) (x y : SizeT) : SizeT × SizeT :=
  match q.first with
  | .head => (x, y)
  | .tail => (y, x)

end Observer

/-- Where a thread is in a call of an observer. -/
inductive ObserverPhase
  | idle
  | called (q : Observer)
  | loaded (q : Observer) (x : SizeT)
  | both (q : Observer) (head tail : SizeT)

variable {c : Capacity} {T : Type}

/-- The values a cursor has held. -/
def Ring.values (r : Ring c T) : Cursor → List SizeT
  | .head => r.head
  | .tail => r.tail

/-- The elements in the buffer: published and not yet released. -/
def Ring.count (r : Ring c T) : ℕ := r.head.length - r.tail.length

/-- The thread is between its operations. -/
def SpscState.Rests (s : SpscState c T) : Endpoint → Prop
  | .producer => s.producer = .idle
  | .consumer => s.consumer = .idle

/-- The thread that makes a step. -/
def SpscAction.endpoint : SpscAction T → Endpoint
  | .callPush _ _ | .loadHead | .loadTail _ | .construct | .storeHead => .producer
  | .callPop | .loadOwnTail | .loadOtherHead _ | .move | .destroy | .storeTail => .consumer

/-- The buffer with two threads that also observe it.  `since` keeps, for each thread, how many
elements there were at every moment since the first load of its current or last call; no step reads
it. -/
structure ObservedState (c : Capacity) (T : Type) where
  buffer : SpscState c T
  phase : Endpoint → ObserverPhase := fun _ => .idle
  answer : Endpoint → Option (Observer × Answer) := fun _ => none
  since : Endpoint → List ℕ := fun _ => []

/-- The call has begun to load. -/
def ObserverPhase.loading : ObserverPhase → Bool
  | .loaded _ _ | .both _ _ _ => true
  | _ => false

/-- The moment after a step of an operation. -/
def ObservedState.tick (s : ObservedState c T) (buffer : SpscState c T) : ObservedState c T :=
  { s with
    buffer := buffer
    since := fun e =>
      if (s.phase e).loading then s.since e ++ [buffer.ring.count] else s.since e }

/-- The steps of the two threads: of their operations, and of their observers. -/
inductive ObservedAction (T : Type)
  | operate (a : SpscAction T)
  | call (e : Endpoint) (q : Observer)
  | loadFirst (e : Endpoint)
  | loadSecond (e : Endpoint)
  | ret (e : Endpoint)

/-- One atomic step.  A load returns the value the cursor has at that moment. -/
inductive ObservedStep : ObservedState c T → ObservedAction T → ObservedState c T → Prop
  | operate {s : ObservedState c T} {a : SpscAction T} {buffer : SpscState c T}
      (hs : SpscStep s.buffer a buffer) (hidle : s.phase a.endpoint = .idle) :
      ObservedStep s (.operate a) (s.tick buffer)
  | call {s : ObservedState c T} (e : Endpoint) (q : Observer) (hrests : s.buffer.Rests e)
      (hidle : s.phase e = .idle) :
      ObservedStep s (.call e q)
        { s with
          phase := update s.phase e (.called q)
          answer := update s.answer e none }
  | loadFirst {s : ObservedState c T} (e : Endpoint) {q : Observer} {x : SizeT}
      (hcalled : s.phase e = .called q)
      (hload : (s.buffer.ring.values q.first).getLast? = some x) :
      ObservedStep s (.loadFirst e)
        { s with
          phase := update s.phase e (.loaded q x)
          since := update s.since e [s.buffer.ring.count] }
  | loadSecond {s : ObservedState c T} (e : Endpoint) {q : Observer} {x y : SizeT}
      (hloaded : s.phase e = .loaded q x)
      (hload : (s.buffer.ring.values q.first.other).getLast? = some y) :
      ObservedStep s (.loadSecond e)
        { s with phase := update s.phase e (.both q (q.pair x y).1 (q.pair x y).2) }
  | ret {s : ObservedState c T} (e : Endpoint) {q : Observer} {head tail : SizeT}
      (hboth : s.phase e = .both q head tail) :
      ObservedStep s (.ret e)
        { s with
          phase := update s.phase e .idle
          answer := update s.answer e (some (q, q.eval c head tail)) }

/-- The buffer with its two threads and their observers. -/
def observed (c : Capacity) (T : Type) : System (ObservedState c T) (ObservedAction T) where
  init s := s = { buffer := .fresh c T }
  step := ObservedStep

/-! ### Pairs of cursors -/

/-- The pair were the cursors at a moment when the number of elements was one of `since`. -/
def Seen (c : Capacity) (since : List ℕ) (p : SizeT × SizeT) : Prop :=
  ∃ P C, p = (c.cursor P, c.cursor C) ∧ C ≤ P ∧ P < C + c.size ∧ P - C ∈ since

theorem Seen.mono {since since' : List ℕ} {p : SizeT × SizeT} (h : Seen c since p)
    (hsub : since ⊆ since') : Seen c since' p := by
  obtain ⟨P, C, hp, hle, hlt, hmem⟩ := h
  exact ⟨P, C, hp, hle, hlt, hsub hmem⟩

namespace Capacity

variable (c) {P C : ℕ}

/-- Cursors less than a turn apart are equal only if their counts are. -/
theorem cursor_eq_iff (hle : C ≤ P) (hlt : P < C + c.size) : c.cursor C = c.cursor P ↔ C = P := by
  constructor
  · intro h
    refine c.slot_inj ⟨le_rfl, by omega⟩ ⟨hle, hlt⟩ (Fin.ext ?_)
    have hmod := congrArg BitVec.toNat h
    rwa [toNat_cursor, toNat_cursor] at hmod
  · rintro rfl
    rfl

/-- The masked difference of two cursors is the difference of their counts. -/
theorem toNat_sub_and_mask (hle : C ≤ P) (hlt : P < C + c.size) :
    ((c.cursor P - c.cursor C) &&& c.mask).toNat = P - C := by
  have hP := c.mod_size_lt P
  have hC := c.mod_size_lt C
  have hsize := c.size_lt
  have hdvd : c.size ∣ 2 ^ 64 := Nat.pow_dvd_pow 2 c.fits.le
  rw [toNat_and_mask, BitVec.toNat_sub, toNat_cursor, toNat_cursor, Nat.mod_mod_of_dvd _ hdvd]
  -- modulo the size, both sides are the difference
  refine Nat.ModEq.eq_of_lt_of_lt (m := c.size) ?_ (Nat.mod_lt _ (by omega)) (by omega)
  refine (Nat.mod_modEq _ _).trans ?_
  refine Nat.ModEq.add_right_cancel' (C % c.size) ?_
  have hcancel : 2 ^ 64 - C % c.size + P % c.size + C % c.size = 2 ^ 64 + P % c.size := by omega
  rw [hcancel]
  calc 2 ^ 64 + P % c.size ≡ 0 + P [MOD c.size] :=
        ((Nat.modEq_zero_iff_dvd.2 hdvd)).add (Nat.mod_modEq _ _)
    _ = (P - C) + C := by omega
    _ ≡ P - C + C % c.size [MOD c.size] := (Nat.ModEq.refl _).add (Nat.mod_modEq _ _).symm

end Capacity

/-- **What is computed from a pair of cursors of one moment is exact.** -/
theorem eval_seen {since : List ℕ} {p : SizeT × SizeT} (h : Seen c since p) (q : Observer) :
    ∃ n ∈ since, n ≤ c.size - 1 ∧ q.eval c p.1 p.2 = q.truth c n := by
  obtain ⟨P, C, rfl, hle, hlt, hmem⟩ := h
  refine ⟨P - C, hmem, by omega, ?_⟩
  have hsize := c.two_le_size
  cases q with
  | empty first =>
    refine congrArg Answer.flag (decide_eq_decide.2 ?_)
    rw [c.cursor_eq_iff hle hlt]
    omega
  | full =>
    refine congrArg Answer.flag (decide_eq_decide.2 ?_)
    rw [c.increment_cursor]
    constructor
    · intro heq
      by_contra hne
      have hcount := (c.cursor_eq_iff (P := P + 1) (C := C) (by omega) (by omega)).1 heq.symm
      omega
    · intro heq
      have hturn : P + 1 = C + c.size := by omega
      unfold Capacity.cursor
      rw [hturn, Nat.add_mod_right]
  | sizeApprox => exact congrArg Answer.number (c.toNat_sub_and_mask hle hlt)

/-! ### The invariant -/

/-- What a thread has read: its own cursor as it still is, or the other's with its own. -/
def ObservedState.PhaseOk (s : ObservedState c T) (e : Endpoint) : Prop :=
  match s.phase e with
  | .idle => True
  | .called _ => s.buffer.Rests e
  | .loaded q x => s.buffer.Rests e ∧ s.buffer.ring.count ∈ s.since e ∧
      ∀ y, (s.buffer.ring.values e.own).getLast? = some y →
        if q.first = e.own then x = y else Seen c (s.since e) (q.pair x y)
  | .both _ head tail => s.buffer.Rests e ∧ Seen c (s.since e) (head, tail)

/-- The answer is right for one of the moments of its call. -/
def ObservedState.AnswerOk (s : ObservedState c T) (e : Endpoint) : Prop :=
  ∀ q a, s.answer e = some (q, a) → ∃ n ∈ s.since e, n ≤ c.size - 1 ∧ a = q.truth c n

/-- The invariant of the observed buffer. -/
structure ObservedInv (s : ObservedState c T) : Prop where
  buffer : ∃ C, Inv s.buffer C
  phase : ∀ e, s.PhaseOk e
  answer : ∀ e, s.AnswerOk e
  pending : ∀ e, s.phase e ≠ .idle → s.answer e = none

section Now

variable {s : SpscState c T} {C : ℕ}

theorem Inv.count_eq (h : Inv s C) : s.ring.count = s.pushed.length - C := by
  unfold Ring.count
  rw [h.head, h.tail]
  simp [Capacity.versions]

/-- The cursors as they are now. -/
theorem Inv.seen_now (h : Inv s C) {since : List ℕ} (hmem : s.ring.count ∈ since)
    {head tail : SizeT} (hhead : s.ring.head.getLast? = some head)
    (htail : s.ring.tail.getLast? = some tail) : Seen c since (head, tail) := by
  rw [h.head, c.getLast?_versions] at hhead
  rw [h.tail, c.getLast?_versions] at htail
  cases hhead
  cases htail
  have hview := h.tailView_le
  have hroom := h.tailView_ge
  have hle := h.headView_ge.trans h.headView_le
  exact ⟨s.pushed.length, C, rfl, hle, by omega, h.count_eq ▸ hmem⟩

theorem Inv.exists_now (h : Inv s C) (k : Cursor) : ∃ x, (s.ring.values k).getLast? = some x := by
  cases k with
  | head => exact ⟨_, h.head ▸ c.getLast?_versions _⟩
  | tail => exact ⟨_, h.tail ▸ c.getLast?_versions _⟩

/-- The two values that an observer loads, if both were loaded now. -/
theorem Inv.seen_pair (h : Inv s C) {since : List ℕ} (hmem : s.ring.count ∈ since) {q : Observer}
    {x y : SizeT} (hx : (s.ring.values q.first).getLast? = some x)
    (hy : (s.ring.values q.first.other).getLast? = some y) : Seen c since (q.pair x y) := by
  unfold Observer.pair
  cases hfirst : q.first with
  | head =>
    rw [hfirst] at hx hy
    exact h.seen_now hmem hx hy
  | tail =>
    rw [hfirst] at hx hy
    exact h.seen_now hmem hy hx

end Now

/-- A step leaves the other thread's cursor alone, and the other thread where it is. -/
theorem frame_step {s s' : SpscState c T} {a : SpscAction T} (hs : SpscStep s a s') {e : Endpoint}
    (hne : a.endpoint ≠ e) :
    s'.ring.values e.own = s.ring.values e.own ∧ (s.Rests e → s'.Rests e) := by
  cases hs with
  | @move tail hc =>
    cases e with
    | producer =>
      have hmove : (s.moveOut tail).ring.head = s.ring.head := by
        unfold SpscState.moveOut
        split <;> rfl
      refine ⟨hmove, fun hrests => ?_⟩
      rw [SpscState.Rests, SpscState.moveOut_producer]
      exact hrests
    | consumer => exact absurd rfl hne
  | _ => cases e <;> first | exact absurd rfl hne | exact ⟨rfl, id⟩

theorem first_other {q : Observer} {e : Endpoint} (h : q.first ≠ e.own) :
    q.first.other = e.own := by
  cases hfirst : q.first <;> cases e <;> simp_all [Endpoint.own, Cursor.other]

/-! ### The steps -/

section Steps

variable {s s' : ObservedState c T} {e : Endpoint}

/-- A step of an observer concerns its own thread only. -/
theorem ObservedInv.of_others (h : ObservedInv s) (hbuffer : s'.buffer = s.buffer)
    (hothers : ∀ e', e' ≠ e → s'.phase e' = s.phase e' ∧ s'.answer e' = s.answer e' ∧
      s'.since e' = s.since e')
    (hphase : s'.PhaseOk e) (hanswer : s'.AnswerOk e)
    (hpending : s'.phase e ≠ .idle → s'.answer e = none) : ObservedInv s' := by
  refine ⟨hbuffer ▸ h.buffer, fun e' => ?_, fun e' => ?_, fun e' => ?_⟩ <;> by_cases he : e' = e
  · exact he ▸ hphase
  · obtain ⟨hp, -, hs⟩ := hothers e' he
    have hold := h.phase e'
    unfold ObservedState.PhaseOk at hold ⊢
    rwa [hp, hbuffer, hs]
  · exact he ▸ hanswer
  · obtain ⟨-, ha, hs⟩ := hothers e' he
    have hold := h.answer e'
    unfold ObservedState.AnswerOk at hold ⊢
    rwa [ha, hs]
  · exact he ▸ hpending
  · obtain ⟨hp, ha, -⟩ := hothers e' he
    rw [hp, ha]
    exact h.pending e'

/-- What a thread has read stays good while the other one makes a step. -/
theorem phaseOk_tick {buffer : SpscState c T} (h : s.PhaseOk e)
    (hvalues : buffer.ring.values e.own = s.buffer.ring.values e.own)
    (hrests : s.buffer.Rests e → buffer.Rests e) : (s.tick buffer).PhaseOk e := by
  unfold ObservedState.PhaseOk at h ⊢
  have hphase : (s.tick buffer).phase e = s.phase e := rfl
  have hsince : (s.tick buffer).since e =
      if (s.phase e).loading then s.since e ++ [buffer.ring.count] else s.since e := rfl
  rw [hphase, hsince]
  cases hp : s.phase e with
  | idle => trivial
  | called q =>
    rw [hp] at h
    exact hrests h
  | loaded q x =>
    rw [hp] at h
    obtain ⟨hrest, -, hown⟩ := h
    dsimp only
    rw [ObserverPhase.loading, if_pos rfl]
    refine ⟨hrests hrest, by simp [ObservedState.tick], fun y hy => ?_⟩
    have hy' : (s.buffer.ring.values e.own).getLast? = some y := hvalues ▸ hy
    have hread := hown y hy'
    split_ifs at hread ⊢
    · exact hread
    · exact hread.mono (List.subset_append_left _ _)
  | both q head tail =>
    rw [hp] at h
    dsimp only
    rw [ObserverPhase.loading, if_pos rfl]
    exact ⟨hrests h.1, h.2.mono (List.subset_append_left _ _)⟩

/-- A step of an operation; its own thread is not observing. -/
theorem ObservedInv.operate (h : ObservedInv s) {a : SpscAction T} {buffer : SpscState c T}
    (hstep : SpscStep s.buffer a buffer) (hidle : s.phase a.endpoint = .idle) :
    ObservedInv (s.tick buffer) := by
  obtain ⟨C, hinv⟩ := h.buffer
  refine ⟨inv_step hinv hstep, fun e => ?_, fun e q a ha => ?_, h.pending⟩
  · by_cases he : a.endpoint = e
    · subst he
      have hphase : (s.tick buffer).phase a.endpoint = .idle := hidle
      rw [ObservedState.PhaseOk, hphase]
      trivial
    · obtain ⟨hvalues, hrests⟩ := frame_step hstep he
      exact phaseOk_tick (h.phase e) hvalues hrests
  · obtain ⟨n, hn, hle, htruth⟩ := h.answer e q a ha
    refine ⟨n, ?_, hle, htruth⟩
    show n ∈ if _ then _ else _
    split_ifs
    · exact List.mem_append_left _ hn
    · exact hn

/-- The first load reads the own cursor as it is, or the other one, which belongs with the own one
of this moment. -/
theorem ObservedInv.first_load (h : ObservedInv s) {q : Observer} {x y : SizeT}
    (hx : (s.buffer.ring.values q.first).getLast? = some x)
    (hy : (s.buffer.ring.values e.own).getLast? = some y) :
    if q.first = e.own then x = y else Seen c [s.buffer.ring.count] (q.pair x y) := by
  obtain ⟨C, hinv⟩ := h.buffer
  split_ifs with hfirst
  · rw [hfirst] at hx
    exact Option.some.inj (hx.symm.trans hy)
  · rw [← first_other hfirst] at hy
    exact hinv.seen_pair (List.mem_singleton_self _) hx hy

/-- After the second load the pair is one of a moment of the call. -/
theorem ObservedInv.second_load (h : ObservedInv s) {q : Observer} {x y : SizeT}
    (hloaded : s.phase e = .loaded q x)
    (hload : (s.buffer.ring.values q.first.other).getLast? = some y) :
    Seen c (s.since e) (q.pair x y) := by
  obtain ⟨C, hinv⟩ := h.buffer
  have hphase := h.phase e
  rw [ObservedState.PhaseOk, hloaded] at hphase
  obtain ⟨-, hcount, hown⟩ := hphase
  by_cases hfirst : q.first = e.own
  · -- the own cursor was loaded first and has stood still: the pair is the one of now
    obtain ⟨z, hz⟩ := hinv.exists_now e.own
    have hxz := hown z hz
    rw [if_pos hfirst] at hxz
    rw [← hxz, ← hfirst] at hz
    exact hinv.seen_pair hcount hz hload
  · -- the own cursor is loaded now and was the same at the first load
    rw [first_other hfirst] at hload
    have hseen := hown y hload
    rwa [if_neg hfirst] at hseen

/-- **Every step preserves the invariant.** -/
theorem observedInv_step {a : ObservedAction T} (h : ObservedInv s) (hs : ObservedStep s a s') :
    ObservedInv s' := by
  cases hs with
  | operate hstep hidle => exact h.operate hstep hidle
  | call e q hrests hidle =>
    refine h.of_others (e := e) rfl (fun e' he => ⟨update_of_ne he _ _, update_of_ne he _ _, rfl⟩)
      ?_ (fun q' a ha => ?_) fun _ => update_self _ _ _
    · rw [ObservedState.PhaseOk]
      dsimp only
      rw [update_self]
      exact hrests
    · dsimp only at ha
      rw [update_self] at ha
      cases ha
  | @loadFirst e q x hcalled hload =>
    have hphase := h.phase e
    have hnone := h.pending e (by simp [hcalled])
    rw [ObservedState.PhaseOk, hcalled] at hphase
    refine h.of_others (e := e) rfl (fun e' he => ⟨update_of_ne he _ _, rfl, update_of_ne he _ _⟩)
      ?_ (fun q' a ha => absurd (hnone.symm.trans ha) (by simp)) fun _ => hnone
    rw [ObservedState.PhaseOk]
    dsimp only
    rw [update_self, update_self]
    exact ⟨hphase, List.mem_singleton_self _, fun y hy => h.first_load hload hy⟩
  | @loadSecond e q x y hloaded hload =>
    have hphase := h.phase e
    have hnone := h.pending e (by simp [hloaded])
    rw [ObservedState.PhaseOk, hloaded] at hphase
    refine h.of_others (e := e) rfl (fun e' he => ⟨update_of_ne he _ _, rfl, rfl⟩) ?_ (h.answer e)
      fun _ => hnone
    rw [ObservedState.PhaseOk]
    dsimp only
    rw [update_self]
    exact ⟨hphase.1, h.second_load hloaded hload⟩
  | @ret e q head tail hboth =>
    have hphase := h.phase e
    rw [ObservedState.PhaseOk, hboth] at hphase
    refine h.of_others (e := e) rfl (fun e' he => ⟨update_of_ne he _ _, update_of_ne he _ _, rfl⟩)
      ?_ (fun q' a ha => ?_) fun hne => absurd (update_self _ _ _) hne
    · rw [ObservedState.PhaseOk]
      dsimp only
      rw [update_self]
      trivial
    · dsimp only at ha
      rw [update_self] at ha
      cases ha
      exact eval_seen hphase.2 q

end Steps

theorem observedInv_init : ObservedInv (c := c) (T := T) { buffer := .fresh c T } where
  buffer := ⟨0, inv_fresh c T⟩
  phase := fun _ => trivial
  answer := fun _ _ _ ha => by cases ha
  pending := fun _ hne => absurd rfl hne

/-- **Observers are exact.**  In every interleaving an observer that a thread calls between its
operations answers for the number of elements the buffer had at some moment between the call's
first load and its return, and there were never more than `Capacity - 1`. -/
theorem observers_exact {s : ObservedState c T} (h : (observed c T).Reachable s) {e : Endpoint}
    {q : Observer} {a : Answer} (ha : s.answer e = some (q, a)) :
    ∃ n ∈ s.since e, n ≤ c.size - 1 ∧ a = q.truth c n :=
  (h.induct (I := ObservedInv) (by rintro _ rfl; exact observedInv_init)
    fun _ _ _ hi hs => observedInv_step hi hs).answer e q a ha

/-- The consumer loads the head, the producer pushes an element, and only then the consumer loads
the tail: it answers that the buffer is empty, as it was at the first load. -/
theorem observers_exact_overtaken :
    ∃ c : Capacity, ∃ s : ObservedState c Bool, s.buffer.ring.count = 1 ∧
      ∃ n ∈ s.since .consumer, n ≤ c.size - 1 ∧
        Answer.flag true = (Observer.empty .head).truth c n := by
  have h0 := System.Reachable.init (S := observed ⟨1, le_rfl, by omega⟩ Bool) rfl
  have h1 := h0.step (.call .consumer (.empty .head) rfl rfl)
  have h2 := h1.step (.loadFirst .consumer rfl rfl)
  have h3 := h2.step (.operate (.callPush true .copy rfl) rfl)
  have h4 := h3.step (.operate (.loadHead rfl rfl) rfl)
  have h5 := h4.step (.operate (.loadTailRoom 0 rfl (Nat.zero_le 0) rfl (by decide)) rfl)
  have h6 := h5.step (.operate (.construct rfl) rfl)
  have h7 := h6.step (.operate (.storeHead rfl) rfl)
  have h8 := h7.step (.loadSecond .consumer rfl rfl)
  have h9 := h8.step (.ret .consumer rfl)
  exact ⟨_, _, rfl, observers_exact (q := .empty .head) (a := .flag true) h9 rfl⟩

end Hft.Concurrency
