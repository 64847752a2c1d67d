import HftArb.Lib.Fifo

/-!
# A chain of first-in first-out queues

Stage `0` makes values and pushes them into link `0`; stage `j + 1` takes values out of link `j`,
works on each and pushes it into the next link; the last stage keeps what it has worked on.  A stage
takes a value only when the one before is passed on.

`reachable_spec` says that stages pass on what they are supplied with in order and that at most one
value is in the hands of each.  From it: what the last stage has is a prefix of what was made, worked
on by all stages (`out_begins`), and the maker is ahead by no more than the chain can hold
(`made_le`).  If all that was made has come out then every link is empty (`drained`).
-/

namespace Transition

open Function

variable {T : Type*}

/-- The links of the chain and what its first stage has made. -/
structure FifoChain (T : Type*) where
  links : ℕ → Fifo T
  made : List T

namespace FifoChain

/-- The operations of the stages; `make` is that of the first. -/
inductive Op (T : Type*)
  | make (value : T)
  | push (link : ℕ) (value : T)
  | pop (link : ℕ) (value : T)

variable (work : ℕ → T → T) (n bound : ℕ)

/-- What stage `j` is to push: what it made, or took out and worked on. -/
def supply (s : FifoChain T) : ℕ → List T
  | 0 => s.made
  | j + 1 => (s.links j).popped.map (work (j + 1))

/-- The work of all stages up to `j`. -/
def through : ℕ → T → T
  | 0 => id
  | j + 1 => fun x => work (j + 1) (through j x)

/-- One operation of a chain of `n` links. -/
inductive Step : FifoChain T → Op T → FifoChain T → Prop
  | make (s : FifoChain T) (value : T)
      (free : 0 < n → (s.links 0).pushed.length = s.made.length) :
      Step s (.make value) { s with made := s.made ++ [value] }
  | push (s : FifoChain T) (j : ℕ) (value : T) (q : Fifo T) (hj : j < n)
      (next : (s.supply work j)[(s.links j).pushed.length]? = some value)
      (hq : Fifo.Step bound (s.links j) (.push value) q) :
      Step s (.push j value) { s with links := update s.links j q }
  | pop (s : FifoChain T) (j : ℕ) (value : T) (q : Fifo T) (hj : j < n)
      (free : j + 1 < n → (s.links (j + 1)).pushed.length = (s.links j).popped.length)
      (hq : Fifo.Step bound (s.links j) (.pop value) q) :
      Step s (.pop j value) { s with links := update s.links j q }

/-- The chain of `n` empty links of the given bound. -/
def system : System (FifoChain T) (Op T) where
  init s := s = ⟨fun _ => ⟨[], [], []⟩, []⟩
  step := Step work n bound

variable {work n bound} {s s' : FifoChain T}

/-! ### One link -/

/-- What holds of a link. -/
structure LinkOk (work : ℕ → T → T) (bound : ℕ) (s : FifoChain T) (j : ℕ) : Prop where
  fifo : (s.links j).pushed = (s.links j).popped ++ (s.links j).contents
  bounded : (s.links j).contents.length ≤ bound
  /-- What was pushed is what there was to push, in order. -/
  supplied : (s.links j).pushed <+: s.supply work j
  /-- At most one value is in the hands of the stage. -/
  inHand : (s.supply work j).length ≤ (s.links j).pushed.length + 1

theorem LinkOk.congr {j : ℕ} (h : s.LinkOk work bound j) (hlink : s'.links j = s.links j)
    (hsupply : s'.supply work j = s.supply work j) : s'.LinkOk work bound j := by
  obtain ⟨hfifo, hbounded, hsupplied, hinHand⟩ := h
  exact ⟨hlink ▸ hfifo, hlink ▸ hbounded, by rw [hlink, hsupply]; exact hsupplied,
    by rw [hlink, hsupply]; exact hinHand⟩

/-- The supply of a stage grows by one value, when nothing is in its hands. -/
theorem LinkOk.grow {j : ℕ} {value : T} (h : s.LinkOk work bound j) (hlink : s'.links j = s.links j)
    (hsupply : s'.supply work j = s.supply work j ++ [value])
    (free : (s.links j).pushed.length = (s.supply work j).length) : s'.LinkOk work bound j := by
  obtain ⟨hfifo, hbounded, hsupplied, -⟩ := h
  refine ⟨hlink ▸ hfifo, hlink ▸ hbounded, ?_, ?_⟩
  · rw [hlink, hsupply]
    exact hsupplied.trans (List.prefix_append _ _)
  · rw [hlink, hsupply, List.length_append, free]
    rfl

/-- A list one longer than a prefix of it goes on with its next element. -/
theorem prefix_concat {l l' : List T} {x : T} (h : l <+: l') (hx : l'[l.length]? = some x) :
    l ++ [x] <+: l' := by
  obtain ⟨t, rfl⟩ := h
  rw [List.getElem?_append_right le_rfl, Nat.sub_self] at hx
  cases t with
  | nil => cases hx
  | cons y t =>
    cases hx
    exact ⟨t, by simp⟩

theorem supply_update_self (j : ℕ) (q : Fifo T) (i : ℕ) (hi : i ≠ j + 1) :
    ({ s with links := update s.links j q } : FifoChain T).supply work i = s.supply work i := by
  cases i with
  | zero => rfl
  | succ i =>
    have hij : i ≠ j := fun h => hi (by rw [h])
    simp only [supply, update_of_ne hij]

/-- **Every operation keeps what holds of the links.** -/
theorem linkOk_step {a : Op T} (h : ∀ j < n, s.LinkOk work bound j)
    (hs : Step work n bound s a s') : ∀ j < n, s'.LinkOk work bound j := by
  intro i hin
  have hi := h i hin
  cases hs with
  | make value free =>
    cases i with
    | zero => exact hi.grow rfl rfl (free hin)
    | succ i => exact hi.congr rfl rfl
  | push j value q hj next hq =>
    have hsupply : ({ s with links := update s.links j q } : FifoChain T).supply work i =
        s.supply work i := by
      rcases eq_or_ne i (j + 1) with rfl | hne
      · -- a push leaves what was popped
        cases hq
        simp [supply]
      · exact supply_update_self j q i hne
    rcases eq_or_ne i j with rfl | hij
    · cases hq with
      | push _ room =>
        refine ⟨?_, ?_, ?_, ?_⟩
        · simp only [update_self]
          rw [hi.fifo, List.append_assoc]
        · simp only [update_self, List.length_append, List.length_singleton]
          omega
        · rw [hsupply]
          simp only [update_self]
          exact prefix_concat hi.supplied next
        · rw [hsupply]
          have hinHand := hi.inHand
          simp only [update_self, List.length_append, List.length_singleton]
          omega
    · exact hi.congr (update_of_ne hij _ _) hsupply
  | pop j value q hj free hq =>
    obtain ⟨head, rest, hcontents, rfl⟩ : ∃ head rest, (s.links j).contents = head :: rest ∧
        q = ⟨rest, (s.links j).pushed, (s.links j).popped ++ [head]⟩ := by
      cases hq with
      | pop _ rest head => exact ⟨_, _, head, rfl⟩
    rcases eq_or_ne i j with rfl | hij
    · have hsupply := @supply_update_self _ work s i
        ⟨rest, (s.links i).pushed, (s.links i).popped ++ [head]⟩ i (by omega)
      have hbounded := hi.bounded
      rw [hcontents, List.length_cons] at hbounded
      refine ⟨?_, ?_, ?_, ?_⟩
      · simp only [update_self]
        rw [hi.fifo, hcontents, List.append_assoc, List.singleton_append]
      · simp only [update_self]
        omega
      · rw [hsupply]
        simp only [update_self]
        exact hi.supplied
      · rw [hsupply]
        simp only [update_self]
        exact hi.inHand
    · rcases eq_or_ne i (j + 1) with rfl | hne
      · refine @LinkOk.grow _ work bound s _ (j + 1) (work (j + 1) head) hi (update_of_ne hij _ _) ?_ ?_
        · simp only [supply, update_self, List.map_append, List.map_cons, List.map_nil]
        · rw [free hin, supply, List.length_map]
      · exact hi.congr (update_of_ne hij _ _) (supply_update_self j _ i hne)

theorem reachable_spec (h : (system work n bound).Reachable s) : ∀ j < n, s.LinkOk work bound j := by
  refine h.induct (I := fun s => ∀ j < n, s.LinkOk work bound j) ?_
    fun _ _ _ hi hs => linkOk_step hi hs
  rintro _ rfl j -
  refine ⟨rfl, Nat.zero_le _, ?_, ?_⟩ <;> cases j <;> simp [supply]

/-! ### The whole chain -/

theorem LinkOk.popped_begins {j : ℕ} (h : s.LinkOk work bound j) :
    (s.links j).popped <+: s.supply work j :=
  (List.IsPrefix.trans ⟨_, h.fifo.symm⟩ h.supplied)

/-- What a stage has is a prefix of what was made, worked on by the stages before. -/
theorem out_begins (h : ∀ j < n, s.LinkOk work bound j) :
    ∀ j ≤ n, s.supply work j <+: s.made.map (through work j) := by
  intro j
  induction j with
  | zero =>
    intro _
    rw [supply, show through work 0 = id from rfl, List.map_id]
  | succ j ih =>
    intro hj
    have hpopped := (h j hj).popped_begins.trans (ih (by omega))
    have hmap := hpopped.map (work (j + 1))
    rw [List.map_map] at hmap
    exact hmap

/-- The first stage is ahead of stage `j` by no more than the links between can hold. -/
theorem made_le (h : ∀ j < n, s.LinkOk work bound j) :
    ∀ j ≤ n, s.made.length ≤ (s.supply work j).length + j * (bound + 1) := by
  intro j
  induction j with
  | zero => intro _; simp [supply]
  | succ j ih =>
    intro hj
    have hlink := h j hj
    have hfifo := congrArg List.length hlink.fifo
    have hbounded := hlink.bounded
    have hinHand := hlink.inHand
    have hprev := ih (by omega)
    rw [List.length_append] at hfifo
    rw [supply, List.length_map, Nat.succ_mul]
    omega

/-- When all that was made has come out, every link is empty and has passed on everything. -/
theorem drained (h : ∀ j < n, s.LinkOk work bound j)
    (hall : (s.supply work n).length = s.made.length) :
    ∀ j < n, (s.links j).contents = [] ∧ (s.links j).popped.length = s.made.length ∧
      (s.links j).pushed.length = s.made.length := by
  -- along the chain the supplies get shorter
  have hle : ∀ k, ∀ j, j + k = n → s.made.length ≤ (s.supply work j).length := by
    intro k
    induction k with
    | zero => intro j hj; rw [show j = n by omega, hall]
    | succ k ih =>
      intro j hj
      have hnext := ih (j + 1) (by omega)
      rw [supply, List.length_map] at hnext
      exact hnext.trans (h j (by omega)).popped_begins.length_le
  intro j hj
  have hnext := hle (n - (j + 1)) (j + 1) (by omega)
  rw [supply, List.length_map] at hnext
  have hmade := (out_begins h j hj.le).length_le
  rw [List.length_map] at hmade
  have hpushed := (h j hj).supplied.length_le
  have hfifo := congrArg List.length (h j hj).fifo
  rw [List.length_append] at hfifo
  refine ⟨List.length_eq_zero_iff.1 ?_, ?_, ?_⟩ <;> omega

end FifoChain

end Transition
