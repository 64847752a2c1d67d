import HftArb.Lib.Completion

/-!
# A lock-free maximum

A shared variable that any number of threads raise with

    current = load(); while (x > current && !compare_exchange_weak(current, x)) {}

where all accesses are relaxed.  The variable is given by its modification order: all values it has
held, oldest first.  A load, and a failing exchange, returns any version not older than the one the
thread has read last; a weak exchange may fail without a reason; an exchange that succeeds replaces
the newest value.

`isGreatest`: once no thread is inside, the variable holds the greatest of the values offered.
`Inv.finish`: a thread that is inside can always leave, without the help of the others.
-/

namespace AtomicMax

open Function Transition

/-- Where a thread is: outside, before the load, or in the loop. -/
inductive Phase (α : Type*)
  | idle
  | entered (x : α)
  | comparing (x current : α)

/-- The variable and its threads. -/
structure State (ι α : Type*) where
  history : List α
  view : ι → ℕ := fun _ => 0
  phase : ι → Phase α := fun _ => .idle
  /-- The arguments of all calls; no step reads them. -/
  offered : List α := []

/-- The steps, by the thread that takes them. -/
inductive Action (ι α : Type*)
  | call (i : ι) (x : α)
  | load (i : ι) (version : ℕ)
  | leave (i : ι)
  | exchange (i : ι)
  | fail (i : ι) (version : ℕ)

variable {ι α : Type*} [DecidableEq ι] [LinearOrder α]

/-- One step of one thread. -/
inductive Step : State ι α → Action ι α → State ι α → Prop
  | call {s : State ι α} (i : ι) (x : α) (hi : s.phase i = .idle) :
      Step s (.call i x)
        { s with phase := update s.phase i (.entered x), offered := s.offered ++ [x] }
  | load {s : State ι α} {i : ι} {x current : α} (version : ℕ) (hi : s.phase i = .entered x)
      (hview : s.view i ≤ version) (hload : s.history[version]? = some current) :
      Step s (.load i version)
        { s with
          phase := update s.phase i (.comparing x current)
          view := update s.view i version }
  | leave {s : State ι α} {i : ι} {x current : α} (hi : s.phase i = .comparing x current)
      (hle : x ≤ current) :
      Step s (.leave i) { s with phase := update s.phase i .idle }
  | exchange {s : State ι α} {i : ι} {x current : α} (hi : s.phase i = .comparing x current)
      (hlt : current < x) (hnewest : s.history.getLast? = some current) :
      Step s (.exchange i)
        { s with
          history := s.history ++ [x]
          phase := update s.phase i .idle
          view := update s.view i s.history.length }
  | fail {s : State ι α} {i : ι} {x current current' : α} (version : ℕ)
      (hi : s.phase i = .comparing x current) (hlt : current < x) (hview : s.view i ≤ version)
      (hload : s.history[version]? = some current') :
      Step s (.fail i version)
        { s with
          phase := update s.phase i (.comparing x current')
          view := update s.view i version }

/-- The variable that holds `zero` at first. -/
def atomicMax (ι : Type*) [DecidableEq ι] (zero : α) : System (State ι α) (Action ι α) where
  init s := s = { history := [zero] }
  step := Step

/-- The value a thread is about to offer. -/
def Phase.value : Phase α → Option α
  | .idle => none
  | .entered x | .comparing x _ => some x

/-- The thread that makes a step. -/
def Action.thread : Action ι α → ι
  | .call i _ | .load i _ | .leave i | .exchange i | .fail i _ => i

/-- A step of thread `i` that is not a new call. -/
def Action.Inside (i : ι) : Action ι α → Prop
  | .call _ _ => False
  | .load j _ | .leave j | .exchange j | .fail j _ => j = i

/-! ### The invariant -/

/-- `covered` carries the argument: what was offered is exceeded by some value the variable has
held, unless a thread still has it. -/
structure Inv (zero : α) (s : State ι α) : Prop where
  start : zero ∈ s.history
  sorted : s.history.Pairwise (· < ·)
  offered : ∀ x ∈ s.history, x = zero ∨ x ∈ s.offered
  current : ∀ i x y, s.phase i = .comparing x y → y ∈ s.history
  value : ∀ i x, (s.phase i).value = some x → x ∈ s.offered
  covered : ∀ x ∈ s.offered, (∃ y ∈ s.history, x ≤ y) ∨ ∃ i, (s.phase i).value = some x
  view : ∀ i, s.view i < s.history.length

section Steps

variable {zero : α} {s s' : State ι α}

omit [DecidableEq ι] in
/-- Later versions are greater. -/
theorem Inv.le_last (h : Inv zero s) {x last : α} (hx : x ∈ s.history)
    (hlast : s.history.getLast? = some last) : x ≤ last := by
  obtain ⟨init, hinit⟩ := List.getLast?_eq_some_iff.1 hlast
  rw [hinit] at hx
  rcases List.mem_append.1 hx with hold | hnew
  · have hsorted := h.sorted
    rw [hinit, List.pairwise_append] at hsorted
    exact (hsorted.2.2 x hold last (List.mem_singleton_self last)).le
  · exact (List.mem_singleton.1 hnew).le

/-- A thread moves and keeps the value it is to offer; the variable stays. -/
theorem Inv.keep (h : Inv zero s) {i : ι} {p : Phase α} {version : ℕ}
    (hp : p.value = (s.phase i).value) (hcurrent : ∀ x y, p = .comparing x y → y ∈ s.history)
    (hversion : version < s.history.length) :
    Inv zero { s with phase := update s.phase i p, view := update s.view i version } := by
  have hvalue : ∀ j, (update s.phase i p j).value = (s.phase j).value := by
    intro j
    by_cases hj : j = i
    · rw [hj, update_self, hp]
    · rw [update_of_ne hj]
  refine ⟨h.start, h.sorted, h.offered, fun j x y hj => ?_, fun j x hj => ?_, fun x hx => ?_,
    fun j => ?_⟩
  · rcases eq_or_ne j i with rfl | hji
    · simp only [update_self] at hj
      exact hcurrent x y hj
    · simp only [update_of_ne hji] at hj
      exact h.current j x y hj
  · simp only [hvalue] at hj
    exact h.value j x hj
  · simp only [hvalue]
    exact h.covered x hx
  · rcases eq_or_ne j i with rfl | hji
    · simp only [update_self]
      exact hversion
    · simp only [update_of_ne hji]
      exact h.view j

/-- A thread leaves: the value it had to offer is exceeded. -/
theorem Inv.leave (h : Inv zero s) {i : ι} {x y : α} (hx : (s.phase i).value = some x)
    (hy : y ∈ s.history) (hle : x ≤ y) : Inv zero { s with phase := update s.phase i .idle } := by
  refine ⟨h.start, h.sorted, h.offered, fun j x' y' hj => ?_, fun j x' hj => ?_, fun x' hx' => ?_,
    h.view⟩
  · rcases eq_or_ne j i with rfl | hji
    · simp only [update_self] at hj
      cases hj
    · simp only [update_of_ne hji] at hj
      exact h.current j x' y' hj
  · rcases eq_or_ne j i with rfl | hji
    · simp only [update_self] at hj
      cases hj
    · simp only [update_of_ne hji] at hj
      exact h.value j x' hj
  · rcases h.covered x' hx' with hdone | ⟨j, hj⟩
    · exact Or.inl hdone
    · rcases eq_or_ne j i with rfl | hji
      · rw [hx] at hj
        cases hj
        exact Or.inl ⟨y, hy, hle⟩
      · refine Or.inr ⟨j, ?_⟩
        simp only [update_of_ne hji]
        exact hj

omit [DecidableEq ι] in
/-- A greater value becomes the newest version. -/
theorem Inv.append (h : Inv zero s) {x last : α} (hlast : s.history.getLast? = some last)
    (hlt : last < x) (hx : x ∈ s.offered) : Inv zero { s with history := s.history ++ [x] } := by
  refine ⟨List.mem_append_left _ h.start, ?_, fun y hy => ?_, fun j x' y hj => ?_, h.value,
    fun x' hx' => ?_, fun j => ?_⟩
  · refine List.pairwise_append.2 ⟨h.sorted, List.pairwise_singleton _ _, fun y hy z hz => ?_⟩
    rw [List.mem_singleton.1 hz]
    exact (h.le_last hy hlast).trans_lt hlt
  · rcases List.mem_append.1 hy with hold | hnew
    · exact h.offered y hold
    · exact Or.inr ((List.mem_singleton.1 hnew) ▸ hx)
  · exact List.mem_append_left _ (h.current j x' y hj)
  · rcases h.covered x' hx' with ⟨y, hy, hle⟩ | hpending
    · exact Or.inl ⟨y, List.mem_append_left _ hy, hle⟩
    · exact Or.inr hpending
  · have hview := h.view j
    simp only [List.length_append, List.length_singleton]
    omega

/-- **Every step preserves the invariant.** -/
theorem inv_step {a : Action ι α} (h : Inv zero s) (hs : Step s a s') : Inv zero s' := by
  cases hs with
  | call i x hi =>
    have hmem : ∀ y ∈ s.offered, y ∈ s.offered ++ [x] := fun y hy => List.mem_append_left _ hy
    refine ⟨h.start, h.sorted, fun y hy => (h.offered y hy).imp_right (hmem y),
      fun j x' y hj => ?_, fun j x' hj => ?_, fun x' hx' => ?_, h.view⟩
    · rcases eq_or_ne j i with rfl | hji
      · simp only [update_self] at hj
        cases hj
      · simp only [update_of_ne hji] at hj
        exact h.current j x' y hj
    · rcases eq_or_ne j i with rfl | hji
      · simp only [update_self] at hj
        cases hj
        exact List.mem_append_right _ (List.mem_singleton_self x)
      · simp only [update_of_ne hji] at hj
        exact hmem x' (h.value j x' hj)
    · rcases List.mem_append.1 hx' with hold | hnew
      · rcases h.covered x' hold with hdone | ⟨j, hj⟩
        · exact Or.inl hdone
        · have hji : j ≠ i := by
            rintro rfl
            rw [hi] at hj
            cases hj
          refine Or.inr ⟨j, ?_⟩
          simp only [update_of_ne hji]
          exact hj
      · refine Or.inr ⟨i, ?_⟩
        simp only [update_self]
        exact congrArg some (List.mem_singleton.1 hnew).symm
  | load version hi hview hload =>
    obtain ⟨hlt, -⟩ := List.getElem?_eq_some_iff.1 hload
    refine h.keep (by rw [hi]; rfl) (fun x y hp => ?_) hlt
    cases hp
    exact List.mem_of_getElem? hload
  | leave hi hle => exact h.leave (by rw [hi]; rfl) (h.current _ _ _ hi) hle
  | @exchange i x current hi hlt hnewest =>
    have hx : (s.phase i).value = some x := by rw [hi]; rfl
    have hnew : x ∈ s.history ++ [x] := List.mem_append_right _ (List.mem_singleton_self x)
    have hleft := (h.append hnewest hlt (h.value i x hx)).leave (i := i) hx hnew le_rfl
    refine ⟨hleft.start, hleft.sorted, hleft.offered, hleft.current, hleft.value, hleft.covered,
      fun j => ?_⟩
    rcases eq_or_ne j i with rfl | hji
    · simp
    · simp only [update_of_ne hji]
      exact hleft.view j
  | fail version hi hlt hview hload =>
    obtain ⟨hlt, -⟩ := List.getElem?_eq_some_iff.1 hload
    refine h.keep (by rw [hi]; rfl) (fun x y hp => ?_) hlt
    cases hp
    exact List.mem_of_getElem? hload

theorem inv_reachable (h : (atomicMax ι zero).Reachable s) : Inv zero s := by
  refine h.induct (I := Inv zero) ?_ fun _ _ _ hi hs => inv_step hi hs
  rintro _ rfl
  refine ⟨List.mem_singleton_self zero, List.pairwise_singleton _ _,
    fun x hx => Or.inl (List.mem_singleton.1 hx), fun i x y hi => ?_, fun i x hi => ?_,
    fun x hx => ?_, fun i => Nat.zero_lt_one⟩
  · cases hi
  · cases hi
  · cases hx

omit [DecidableEq ι] in
/-- The variable never exceeds what was offered. -/
theorem Inv.mem_offered (h : Inv zero s) {m : α} (hm : s.history.getLast? = some m) :
    m = zero ∨ m ∈ s.offered :=
  h.offered m (List.mem_of_getLast? hm)

omit [DecidableEq ι] in
/-- **When all threads are outside the variable holds the maximum.** -/
theorem Inv.isGreatest (h : Inv zero s) (hidle : ∀ i, s.phase i = .idle) {m : α}
    (hm : s.history.getLast? = some m) : IsGreatest {x | x = zero ∨ x ∈ s.offered} m := by
  refine ⟨h.mem_offered hm, ?_⟩
  rintro x (rfl | hx)
  · exact h.le_last h.start hm
  · rcases h.covered x hx with ⟨y, hy, hle⟩ | ⟨i, hi⟩
    · exact hle.trans (h.le_last hy hm)
    · rw [hidle i] at hi
      cases hi

omit [DecidableEq ι] [LinearOrder α] in
theorem Action.Inside.thread {i : ι} {a : Action ι α} (h : a.Inside i) : a.thread = i := by
  cases a with
  | call j x => exact h.elim
  | load j version => exact h
  | leave j => exact h
  | exchange j => exact h
  | fail j version => exact h

theorem Action.Inside.phase_ne {i : ι} {a : Action ι α} (h : a.Inside i) (hs : Step s a s') :
    s.phase i ≠ .idle := by
  have hthread := h.thread
  cases hs with
  | call j x hj => exact h.elim
  | load version hj => rw [← hthread]; simp [Action.thread, hj]
  | leave hj => rw [← hthread]; simp [Action.thread, hj]
  | exchange hj => rw [← hthread]; simp [Action.thread, hj]
  | fail version hj => rw [← hthread]; simp [Action.thread, hj]

/-- **A thread inside can leave alone**: it reads the newest version and exchanges it. -/
theorem Inv.finish (h : Inv zero s) (i : ι) :
    ∃ s', (atomicMax ι zero).Leads (Action.Inside i) s s' ∧ s'.phase i = .idle ∧
      ∀ j ≠ i, s'.phase j = s.phase j := by
  obtain ⟨last, hlast⟩ : ∃ last, s.history.getLast? = some last :=
    ⟨_, List.getLast?_eq_some_getLast (List.ne_nil_of_mem h.start)⟩
  have hnewest : s.history[s.history.length - 1]? = some last := by
    rw [← List.getLast?_eq_getElem?, hlast]
  have hview : s.view i ≤ s.history.length - 1 := by
    have := h.view i
    omega
  -- with the newest version in hand the next step is the last one
  have hfresh : ∀ (t : State ι α) (x : α), t.history = s.history →
      t.phase = update s.phase i (.comparing x last) →
      ∃ s', (atomicMax ι zero).Leads (Action.Inside i) t s' ∧ s'.phase i = .idle ∧
        ∀ j ≠ i, s'.phase j = s.phase j := by
    intro t x hhistory hphase
    have hi : t.phase i = .comparing x last := by rw [hphase, update_self]
    have hothers : ∀ j ≠ i, update t.phase i .idle j = s.phase j := by
      intro j hj
      rw [update_of_ne hj, hphase, update_of_ne hj]
    rcases le_or_gt x last with hle | hgt
    · exact ⟨_, .single (Step.leave hi hle) rfl, update_self .., hothers⟩
    · exact ⟨_, .single (Step.exchange hi hgt (hhistory ▸ hlast)) rfl, update_self .., hothers⟩
  cases hi : s.phase i with
  | idle => exact ⟨s, .refl s, hi, fun _ _ => rfl⟩
  | entered x =>
    obtain ⟨s', hleads, hs'⟩ := hfresh
      { s with
        phase := update s.phase i (.comparing x last)
        view := update s.view i (s.history.length - 1) } x rfl rfl
    exact ⟨s', .head (Step.load _ hi hview hnewest) rfl hleads, hs'⟩
  | comparing x current =>
    rcases le_or_gt x current with hle | hgt
    · refine ⟨_, .single (Step.leave hi hle) rfl, update_self .., fun j hj => ?_⟩
      exact update_of_ne hj _ _
    · obtain ⟨s', hleads, hs'⟩ := hfresh
        { s with
          phase := update s.phase i (.comparing x last)
          view := update s.view i (s.history.length - 1) } x rfl rfl
      exact ⟨s', .head (Step.fail _ hi hgt hview hnewest) rfl hleads, hs'⟩

end Steps

end AtomicMax
