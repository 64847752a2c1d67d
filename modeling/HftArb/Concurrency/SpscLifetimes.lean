import HftArb.Concurrency.SpscFifo
import HftArb.Lib.Threads

/-!
# Lifetimes of elements

Every construction and destruction in a slot is logged.  While the two threads run, the log of a
slot is pairs of the two, followed by a construction if the slot is occupied (`balanced_step`).  The
destructor walks from the tail to the head.  Between them lies a part of the ring that is less than
a turn, so the walk ends (`ends_destroyBody`), and it holds exactly the occupied slots
(`mem_remaining_iff`): after it every slot's log is pairs (`lifetimes_balance`).
-/

namespace Hft.Concurrency

open Threads Transition

/-- What happens to an object in a slot. -/
inductive Lifetime
  | constructed
  | destroyed
  deriving DecidableEq

variable {c : Capacity} {T : Type}

/-- The calls of `construct_at` and `destroy_at` in a step. -/
def SpscState.lifetimes (s : SpscState c T) (a : SpscAction T) : List (Fin c.size × Lifetime) :=
  match a, s.producer, s.consumer with
  | .construct, .hasRoom _ _ head, _ => [(c.ptr head, .constructed)]
  | .destroy, _, .moved tail => [(c.ptr tail, .destroyed)]
  | _, _, _ => []

/-- The buffer with a log of what has been constructed and destroyed; no step reads the log. -/
structure LoggedState (c : Capacity) (T : Type) where
  buffer : SpscState c T
  log : List (Fin c.size × Lifetime) := []

/-- One atomic step. -/
inductive LoggedStep : LoggedState c T → SpscAction T → LoggedState c T → Prop
  | mk {s : LoggedState c T} {a : SpscAction T} {buffer : SpscState c T}
      (hs : SpscStep s.buffer a buffer) :
      LoggedStep s a ⟨buffer, s.log ++ s.buffer.lifetimes a⟩

/-- The buffer with its two threads and the log. -/
def logged (c : Capacity) (T : Type) : System (LoggedState c T) (SpscAction T) where
  init s := s = ⟨.fresh c T, []⟩
  step := LoggedStep

/-- `std::destroy_at(ptr(index))` in the destructor. -/
def LoggedState.destroySlot (s : LoggedState c T) (index : SizeT) : LoggedState c T where
  buffer := s.buffer.destroyAt index
  log := s.log ++ [(c.ptr index, .destroyed)]

/-- A turn of the loop of `destroy_remaining`, with the cursor it has got to. -/
def destroyBody (head : SizeT) (s : SizeT × LoggedState c T) :
    ForInStep (SizeT × LoggedState c T) :=
  if s.1 ≠ head then .yield (c.increment s.1, s.2.destroySlot s.1) else .done s

/-! ### The log of a slot -/

/-- What the log says of the object in the slot. -/
def Slot.begun : Slot T → List Lifetime
  | .raw => []
  | _ => [.constructed]

/-- No slot has been misused, and in each slot every object but the present one has been destroyed
before the next was constructed. -/
structure Balanced (s : LoggedState c T) : Prop where
  noFault : s.buffer.faults = []
  slots : ∀ i, ∃ k, ofThread i s.log =
    (List.replicate k [Lifetime.constructed, .destroyed]).flatten ++ (s.buffer.ring.slots i).begun

section Balanced

variable {s : LoggedState c T} {index : SizeT} {value : T}

/-- A step that logs nothing and empties or fills no slot. -/
theorem Balanced.congr {s' : LoggedState c T} (h : Balanced s) (hlog : s'.log = s.log)
    (hfaults : s'.buffer.faults = [])
    (hslots : ∀ i, (s'.buffer.ring.slots i).begun = (s.buffer.ring.slots i).begun) :
    Balanced s' := by
  refine ⟨hfaults, fun i => ?_⟩
  rw [hlog, hslots]
  exact h.slots i

/-- An entry for one slot. -/
theorem ofThread_concat (i j : Fin c.size) (log : List (Fin c.size × Lifetime)) (l : Lifetime) :
    ofThread i (log ++ [(j, l)]) = if j = i then ofThread i log ++ [l] else ofThread i log := by
  rw [ofThread_append]
  split_ifs with hij
  · subst hij
    exact congrArg _ (ofThread_self j [l])
  · have hnone : ofThread i [(j, l)] = [] := ofThread_of_ne hij [l]
    rw [hnone, List.append_nil]

theorem Balanced.construct (h : Balanced s)
    (hraw : s.buffer.ring.slots (c.ptr index) = .raw) :
    Balanced ⟨s.buffer.constructAt index value, s.log ++ [(c.ptr index, .constructed)]⟩ := by
  refine ⟨?_, fun i => ?_⟩
  · rw [SpscState.constructAt, hraw]
    exact h.noFault
  · obtain ⟨k, hk⟩ := h.slots i
    refine ⟨k, ?_⟩
    rw [ofThread_concat, hk, SpscState.constructAt]
    dsimp only
    by_cases hi : c.ptr index = i
    · subst hi
      rw [if_pos rfl, Function.update_self, hraw, Slot.begun, List.append_nil]
      rfl
    · rw [if_neg hi, Function.update_of_ne (Ne.symm hi)]

theorem Balanced.destroy (h : Balanced s) (hocc : s.buffer.ring.slots (c.ptr index) ≠ .raw) :
    Balanced (s.destroySlot index) := by
  refine ⟨?_, fun i => ?_⟩
  · rw [LoggedState.destroySlot, SpscState.destroyAt]
    dsimp only
    split
    · next hraw => exact absurd hraw hocc
    · exact h.noFault
  · obtain ⟨k, hk⟩ := h.slots i
    rw [LoggedState.destroySlot, SpscState.destroyAt, ofThread_concat, hk]
    dsimp only
    by_cases hi : c.ptr index = i
    · subst hi
      have hbegun : (s.buffer.ring.slots (c.ptr index)).begun = [.constructed] := by
        unfold Slot.begun
        split
        · next hraw => exact absurd hraw hocc
        · rfl
      refine ⟨k + 1, ?_⟩
      rw [if_pos rfl, Function.update_self, hbegun, List.replicate_succ', List.flatten_concat,
        List.append_assoc, Slot.begun, List.append_nil]
      rfl
    · refine ⟨k, ?_⟩
      rw [if_neg hi, Function.update_of_ne (Ne.symm hi)]

/-- **Every step keeps the logs balanced.** -/
theorem balanced_step {a : SpscAction T} {s' : LoggedState c T} (h : Balanced s)
    (hinv : ∃ C, Inv s.buffer C) (hs : LoggedStep s a s') : Balanced s' := by
  obtain ⟨C, hi⟩ := hinv
  obtain ⟨hstep⟩ := hs
  obtain ⟨C', hi'⟩ := inv_step hi hstep
  have hfaults := hi'.faults
  cases hstep with
  | @construct value how head hp =>
    have hlog : s.buffer.lifetimes .construct = [(c.ptr head, .constructed)] := by
      unfold SpscState.lifetimes
      rw [hp]
    have hraw : s.buffer.ring.slots (c.ptr head) = .raw := by
      by_contra hocc
      rw [SpscState.constructAt] at hfaults
      dsimp only at hfaults
      split at hfaults
      · exact hocc ‹_›
      · simp at hfaults
    rw [hlog]
    exact (h.construct hraw).congr rfl hfaults fun _ => rfl
  | @destroy tail hc =>
    have hlog : s.buffer.lifetimes .destroy = [(c.ptr tail, .destroyed)] := by
      unfold SpscState.lifetimes
      rw [hc]
    have hocc : s.buffer.ring.slots (c.ptr tail) ≠ .raw := by
      intro hraw
      rw [SpscState.destroyAt, hraw] at hfaults
      simp at hfaults
    rw [hlog]
    exact (h.destroy hocc).congr rfl hfaults fun _ => rfl
  | @move tail hc =>
    obtain ⟨hlt, rfl, hlive⟩ := slot_hasItem hi hc
    refine h.congr (List.append_nil _) hfaults fun i => ?_
    have hmove : (s.buffer.moveOut (c.cursor C)).ring.slots =
        Function.update s.buffer.ring.slots (c.slot C) .movedFrom := by
      simp only [SpscState.moveOut, Capacity.ptr_cursor, hlive]
    dsimp only
    rw [hmove]
    by_cases hC : i = c.slot C
    · subst hC
      rw [Function.update_self, hlive]
      rfl
    · rw [Function.update_of_ne hC]
  | _ => exact h.congr (List.append_nil _) hfaults fun _ => rfl

/-- What holds while the threads run. -/
theorem balanced_reachable (h : (logged c T).Reachable s) :
    Balanced s ∧ ∃ C, Inv s.buffer C := by
  refine h.induct (I := fun s => Balanced s ∧ ∃ C, Inv s.buffer C) ?_ ?_
  · rintro _ rfl
    exact ⟨⟨rfl, fun i => ⟨0, rfl⟩⟩, 0, inv_fresh c T⟩
  · rintro s a s' ⟨hbal, hinv⟩ hs
    refine ⟨balanced_step hbal hinv hs, ?_⟩
    obtain ⟨hstep⟩ := hs
    exact inv_step hinv.choose_spec hstep

end Balanced

/-! ### The destructor -/

section Destructor

variable {s : LoggedState c T} {n k P C : ℕ}

/-- The walk over `k` slots from the one of element number `n`. -/
theorem ends_destroyBody (hk : k < c.size) (s : LoggedState c T) :
    Ends (destroyBody (c.cursor (n + k))) (c.cursor n, s)
      (c.cursor (n + k), ((List.range' n k).map c.cursor).foldl LoggedState.destroySlot s) := by
  induction k generalizing n s with
  | zero =>
    rw [Nat.add_zero]
    exact .done (if_neg (not_not.2 rfl))
  | succ k ih =>
    have hne : c.cursor n ≠ c.cursor (n + (k + 1)) := by
      intro heq
      have hslot : c.slot n = c.slot (n + (k + 1)) := by
        rw [← c.ptr_cursor, heq, c.ptr_cursor]
      have hcount := c.slot_inj (a := n) ⟨le_rfl, by omega⟩ ⟨by omega, by omega⟩ hslot
      omega
    have hturn : destroyBody (c.cursor (n + (k + 1))) (c.cursor n, s) =
        .yield (c.cursor (n + 1), s.destroySlot (c.cursor n)) := by
      rw [destroyBody, if_pos hne, c.increment_cursor]
    have hrest := ih (n := n + 1) (by omega) (s.destroySlot (c.cursor n))
    rw [Nat.add_right_comm, Nat.add_assoc n k 1] at hrest
    exact .step hturn hrest

/-- Destroying distinct occupied slots. -/
theorem balanced_foldl (h : Balanced s) (hocc : ∀ m, n ≤ m → m < n + k →
      s.buffer.ring.slots (c.slot m) ≠ .raw) (hk : k ≤ c.size) :
    let t := ((List.range' n k).map c.cursor).foldl LoggedState.destroySlot s
    Balanced t ∧ t.log = s.log ++ (List.range' n k).map (fun m => (c.slot m, .destroyed)) ∧
      (∀ m, n ≤ m → m < n + k → t.buffer.ring.slots (c.slot m) = .raw) ∧
      ∀ i, (∀ m, n ≤ m → m < n + k → c.slot m ≠ i) →
        t.buffer.ring.slots i = s.buffer.ring.slots i := by
  induction k generalizing n s with
  | zero =>
    refine ⟨h, (List.append_nil _).symm, fun m _ _ => by omega, fun i _ => rfl⟩
  | succ k ih =>
    rw [List.range'_succ, List.map_cons, List.foldl_cons, List.map_cons]
    have hslots : (s.destroySlot (c.cursor n)).buffer.ring.slots =
        Function.update s.buffer.ring.slots (c.slot n) .raw := by
      rw [LoggedState.destroySlot, SpscState.destroyAt, c.ptr_cursor]
    have hfirst : s.buffer.ring.slots (c.ptr (c.cursor n)) ≠ .raw := by
      rw [c.ptr_cursor]
      exact hocc n le_rfl (by omega)
    have hapart : ∀ m, n + 1 ≤ m → m < n + (k + 1) → c.slot m ≠ c.slot n := fun m hm hm' heq =>
      absurd (c.slot_inj (a := n) ⟨by omega, by omega⟩ ⟨le_rfl, by omega⟩ heq) (by omega)
    obtain ⟨hbal, hlog, hraw, hkeep⟩ := ih (n := n + 1) (h.destroy hfirst)
      (fun m hm hm' => by
        rw [hslots, Function.update_of_ne (hapart m hm (by omega))]
        exact hocc m (by omega) (by omega)) (by omega)
    refine ⟨hbal, ?_, fun m hm hm' => ?_, fun i hi => ?_⟩
    · rw [hlog, LoggedState.destroySlot, c.ptr_cursor, List.append_assoc, List.singleton_append]
    · rcases Nat.eq_or_lt_of_le hm with rfl | hlt
      · rw [hkeep _ fun m hm hm' => hapart m hm (by omega), hslots, Function.update_self]
      · exact hraw m hlt (by omega)
    · rw [hkeep i fun m hm hm' => hi m (by omega) (by omega), hslots,
        Function.update_of_ne (hi n le_rfl (by omega)).symm]

/-- Every slot is that of a count in the turn that begins with `C`. -/
theorem exists_slot (C : ℕ) (i : Fin c.size) : ∃ n, C ≤ n ∧ n < C + c.size ∧ c.slot n = i := by
  have hinj : Function.Injective fun j : Fin c.size => c.slot (C + j) := fun j j' h =>
    Fin.ext (Nat.add_left_cancel (c.slot_inj (a := C) ⟨by omega, by omega⟩ ⟨by omega, by omega⟩ h))
  obtain ⟨j, hj⟩ := Finite.surjective_of_injective hinj i
  exact ⟨C + j, by omega, by omega, hj⟩

/-- When both threads have stopped, the slots from the tail to the head are live, the rest raw. -/
theorem slot_stopped (h : Inv s.buffer C) (hp : s.buffer.producer = .idle)
    (hc : s.buffer.consumer = .idle) (hn : C ≤ n) (hlt : n < C + c.size) :
    (n < s.buffer.pushed.length ∧ ∃ value, s.buffer.ring.slots (c.slot n) = .live value) ∨
      s.buffer.pushed.length ≤ n ∧ s.buffer.ring.slots (c.slot n) = .raw := by
  rw [h.slots n hn hlt]
  rcases Nat.lt_or_ge n s.buffer.pushed.length with hlive | hraw
  · exact Or.inl ⟨hlive, _, expected_of_lt hlive (Or.inl (by rw [hc]; rfl))⟩
  · refine Or.inr ⟨hraw, expected_of_ge hraw fun value next hprod => ?_⟩
    rw [hp] at hprod
    cases hprod

/-- The slots from the tail to the head are exactly the live ones. -/
theorem mem_remaining_iff (h : Inv s.buffer C) (hp : s.buffer.producer = .idle)
    (hc : s.buffer.consumer = .idle) (hk : s.buffer.pushed.length = C + k) (hlt : k < c.size)
    {i : Fin c.size} :
    i ∈ (List.range' C k).map c.slot ↔ ∃ value, s.buffer.ring.slots i = .live value := by
  constructor
  · intro hmem
    obtain ⟨m, hm, rfl⟩ := List.mem_map.1 hmem
    rw [List.mem_range'_1] at hm
    rcases slot_stopped h hp hc hm.1 (by omega) with ⟨-, hlive⟩ | ⟨hge, -⟩
    · exact hlive
    · omega
  · rintro ⟨value, hvalue⟩
    obtain ⟨n, hn, hturn, rfl⟩ := exists_slot C i
    rcases slot_stopped h hp hc hn hturn with ⟨hin, -⟩ | ⟨-, hraw⟩
    · exact List.mem_map.2 ⟨n, List.mem_range'_1.2 ⟨hn, by omega⟩, rfl⟩
    · rw [hraw] at hvalue
      cases hvalue

/-- None of them is visited twice. -/
theorem nodup_remaining (hlt : k < c.size) : ((List.range' n k).map c.slot).Nodup := by
  refine List.Nodup.map_on (fun m hm m' hm' heq => ?_) List.nodup_range'
  rw [List.mem_range'_1] at hm hm'
  exact c.slot_inj (a := n) ⟨hm.1, by omega⟩ ⟨hm'.1, by omega⟩ heq

/-- **Lifetimes balance.**  After any interleaving of the two threads, once both have stopped, the
loop of the destructor ends.  It destroys exactly the live slots, each once; no slot has ever been
constructed over an object or destroyed without one, and the log of every slot is pairs of a
construction and a destruction. -/
theorem lifetimes_balance (h : (logged c T).Reachable s) (hp : s.buffer.producer = .idle)
    (hc : s.buffer.consumer = .idle) :
    ∃ (head tail : SizeT) (t : LoggedState c T) (visited : List (Fin c.size)),
      s.buffer.ring.head.getLast? = some head ∧ s.buffer.ring.tail.getLast? = some tail ∧
      Ends (destroyBody head) (tail, s) (head, t) ∧
      t.log = s.log ++ visited.map (fun i => (i, .destroyed)) ∧ visited.Nodup ∧
      (∀ i, i ∈ visited ↔ ∃ value, s.buffer.ring.slots i = .live value) ∧
      t.buffer.faults = [] ∧ ∀ i, t.buffer.ring.slots i = .raw ∧
        ∃ k, ofThread i t.log = (List.replicate k [Lifetime.constructed, .destroyed]).flatten := by
  obtain ⟨hbal, C, hi⟩ := balanced_reachable h
  have hle : C ≤ s.buffer.pushed.length := hi.headView_ge.trans hi.headView_le
  have hview := hi.tailView_le
  have hroom := hi.tailView_ge
  obtain ⟨k, hk⟩ := Nat.exists_eq_add_of_le hle
  have hlt : k < c.size := by omega
  have hmem : ∀ i, i ∈ (List.range' C k).map c.slot ↔
      ∃ value, s.buffer.ring.slots i = .live value := fun _ =>
    mem_remaining_iff hi hp hc hk hlt
  have hlive : ∀ m, C ≤ m → m < C + k → s.buffer.ring.slots (c.slot m) ≠ .raw := by
    intro m hm hm' hraw
    obtain ⟨value, hvalue⟩ := (hmem _).1 (List.mem_map.2 ⟨m, List.mem_range'_1.2 ⟨hm, hm'⟩, rfl⟩)
    cases hraw.symm.trans hvalue
  obtain ⟨hbal', hlog, hraw, hkeep⟩ := balanced_foldl hbal hlive hlt.le
  have hends := ends_destroyBody (n := C) hlt s
  rw [← hk] at hends
  generalize ((List.range' C k).map c.cursor).foldl LoggedState.destroySlot s = t at *
  have hempty : ∀ i, t.buffer.ring.slots i = .raw := by
    intro i
    obtain ⟨n, hn, hturn, rfl⟩ := exists_slot C i
    rcases Nat.lt_or_ge n (C + k) with hin | hout
    · exact hraw n hn hin
    · rw [hkeep _ fun m hm hm' heq =>
        absurd (c.slot_inj (a := C) ⟨hm, by omega⟩ ⟨hn, hturn⟩ heq) (by omega)]
      rcases slot_stopped hi hp hc hn hturn with ⟨hin, -⟩ | ⟨-, hraw⟩
      · omega
      · exact hraw
  refine ⟨_, _, t, (List.range' C k).map c.slot, hi.head ▸ c.getLast?_versions _,
    hi.tail ▸ c.getLast?_versions _, hends, ?_, nodup_remaining hlt, hmem, hbal'.noFault,
    fun i => ⟨hempty i, ?_⟩⟩
  · rw [hlog, List.map_map]
    rfl
  · obtain ⟨k', hk'⟩ := hbal'.slots i
    rw [hempty i, Slot.begun, List.append_nil] at hk'
    exact ⟨k', hk'⟩

/-- A buffer that is destroyed with one element in it. -/
theorem lifetimes_balance_one :
    ∃ (c : Capacity) (s : LoggedState c Bool), s.buffer.pushed = [true] ∧
      ∃ (head tail : SizeT) (t : LoggedState c Bool), Ends (destroyBody head) (tail, s) (head, t) ∧
        t.buffer.faults = [] := by
  have h0 := System.Reachable.init (S := logged ⟨1, le_rfl, by omega⟩ Bool) rfl
  have h1 := h0.step (.mk (.callPush true .copy rfl))
  have h2 := h1.step (.mk (.loadHead rfl rfl))
  have h3 := h2.step (.mk (.loadTailRoom 0 rfl (Nat.zero_le 0) rfl (by decide)))
  have h4 := h3.step (.mk (.construct rfl))
  have h5 := h4.step (.mk (.storeHead rfl))
  obtain ⟨head, tail, t, visited, -, -, hends, -, -, -, hfaults, -⟩ := lifetimes_balance h5 rfl rfl
  exact ⟨_, _, rfl, head, tail, t, hends, hfaults⟩

end Destructor

end Hft.Concurrency
