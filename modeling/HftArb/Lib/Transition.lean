import Mathlib.Tactic

/-!
# Loops, runs and transition systems

Three notions of execution and the induction rule of each.

* `Ends body s t`: a loop whose body says, for each state, either to go on or to stop, started in
  `s` stops in `t`.  `runLoop` computes it with fuel; `runLoop_ends` shows that a decreasing
  measure makes the fuel irrelevant, and `Ends.induct` is the invariant rule.  `Turns body n s t`
  names the states on the way, and `runLoop_related` carries a relation along two loops that keep
  step.
* `AllSteps step ok s l`: in the run of a deterministic machine from `s` along the inputs `l`
  every input meets `ok` in the state it finds.  `AllSteps.foldl_induct` is the invariant rule,
  `forall_prefix_iff` says when it is exact, and `foldl_component` is the rule for a part of the
  machine that only some inputs concern.
  `Stable` properties are those that, once true, stay true; `stable_iff` reduces them to steps.
* `System`: a labelled transition system, `Reachable` states, invariants, and `Simulation`s, which
  carry reachability from a concrete system to an abstract one.
-/

namespace Transition

/-! ### Loops -/

section Loop

variable {σ : Type*} (body : σ → ForInStep σ)

/-- The loop started in `s` stops in `t`. -/
inductive Ends : σ → σ → Prop
  | done {s t : σ} (h : body s = .done t) : Ends s t
  | step {s s' t : σ} (h : body s = .yield s') (rest : Ends s' t) : Ends s t

/-- The loop run for at most `fuel` turns. -/
def runLoop : ℕ → σ → σ
  | 0, s => s
  | fuel + 1, s =>
      match body s with
      | .done t => t
      | .yield s' => runLoop fuel s'

variable {body}

/-- A measure that decreases with every turn bounds the fuel a loop needs. -/
theorem runLoop_ends {I : σ → Prop} {μ : σ → ℕ}
    (hI : ∀ s s', I s → body s = .yield s' → I s')
    (hμ : ∀ s s', I s → body s = .yield s' → μ s' < μ s) :
    ∀ {fuel : ℕ} {s : σ}, I s → μ s < fuel → Ends body s (runLoop body fuel s) := by
  intro fuel
  induction fuel with
  | zero => intro s _ h; omega
  | succ fuel ih =>
    intro s hs hfuel
    cases hb : body s with
    | done t =>
      have hr : runLoop body (fuel + 1) s = t := by simp [runLoop, hb]
      rw [hr]
      exact Ends.done hb
    | yield s' =>
      have hr : runLoop body (fuel + 1) s = runLoop body fuel s' := by simp [runLoop, hb]
      rw [hr]
      have hlt : μ s' < μ s := hμ s s' hs hb
      exact Ends.step hb (ih (hI s s' hs hb) (by omega))

/-- What holds at the start and after every turn holds however many turns are made. -/
theorem runLoop_induct {I : σ → Prop} (hyield : ∀ s s', I s → body s = .yield s' → I s')
    (hdone : ∀ s t, I s → body s = .done t → I t) :
    ∀ (fuel : ℕ) {s : σ}, I s → I (runLoop body fuel s) := by
  intro fuel
  induction fuel with
  | zero => intro s hs; exact hs
  | succ fuel ih =>
    intro s hs
    rw [runLoop]
    split
    · next t hbody => exact hdone s t hs hbody
    · next s' hbody => exact ih (hyield s s' hs hbody)

/-- More turns go on from where fewer have come, unless the loop had stopped. -/
theorem runLoop_add (n m : ℕ) (s : σ) :
    ((∃ u, body u = .done (runLoop body n s)) ∧ runLoop body (n + m) s = runLoop body n s) ∨
      runLoop body (n + m) s = runLoop body m (runLoop body n s) := by
  induction n generalizing s with
  | zero => exact Or.inr (by rw [Nat.zero_add, runLoop])
  | succ n ih =>
    rw [Nat.succ_add, runLoop, runLoop]
    cases hbody : body s with
    | done t => exact Or.inl ⟨⟨s, hbody⟩, rfl⟩
    | yield s' => exact ih s'

/-- Two turns side by side: both go on, or both stop, in related states. -/
inductive SameTurn {σ τ : Type*} (R : σ → τ → Prop) : ForInStep σ → ForInStep τ → Prop
  | done {s : σ} {t : τ} (h : R s t) : SameTurn R (.done s) (.done t)
  | yield {s : σ} {t : τ} (h : R s t) : SameTurn R (.yield s) (.yield t)

/-- Two loops that keep step stay related. -/
theorem runLoop_related {τ : Type*} {body' : τ → ForInStep τ} {R : σ → τ → Prop}
    (h : ∀ s t, R s t → SameTurn R (body s) (body' t)) :
    ∀ (fuel : ℕ) {s : σ} {t : τ}, R s t → R (runLoop body fuel s) (runLoop body' fuel t) := by
  intro fuel
  induction fuel with
  | zero => intro s t hst; exact hst
  | succ fuel ih =>
    intro s t hst
    have hturn := h s t hst
    simp only [runLoop]
    cases hb : body s with
    | done s' =>
      cases hb' : body' t with
      | done t' => rw [hb, hb'] at hturn; cases hturn with | done h => exact h
      | yield t' => rw [hb, hb'] at hturn; cases hturn
    | yield s' =>
      cases hb' : body' t with
      | done t' => rw [hb, hb'] at hturn; cases hturn
      | yield t' => rw [hb, hb'] at hturn; cases hturn with | yield h => exact ih h

/-- A loop goes on alike from states in which its turn is the same. -/
theorem Ends.of_eq {s s' t : σ} (h : Ends body s t) (heq : body s' = body s) : Ends body s' t := by
  cases h with
  | done hdone => exact .done (heq.trans hdone)
  | step hstep rest => exact .step (heq.trans hstep) rest

/-- The invariant rule of a loop. -/
theorem Ends.induct {I R : σ → Prop} {s t : σ} (h : Ends body s t) (hs : I s)
    (hstep : ∀ s s', I s → body s = .yield s' → I s')
    (hdone : ∀ s t, I s → body s = .done t → R t) : R t := by
  induction h with
  | done hb => exact hdone _ _ hs hb
  | step hb _ ih => exact ih (hstep _ _ hs hb)

/-- `t` is where `n` turns of the loop lead from `s`. -/
inductive Turns (body : σ → ForInStep σ) (s : σ) : ℕ → σ → Prop
  | start : Turns body s 0 s
  | turn {n : ℕ} {t t' : σ} (h : Turns body s n t) (hb : body t = .yield t') :
      Turns body s (n + 1) t'

theorem Turns.cons {s s' t : σ} {n : ℕ} (hb : body s = .yield s') (h : Turns body s' n t) :
    Turns body s (n + 1) t := by
  induction h with
  | start => exact .turn .start hb
  | turn _ hb' ih => exact .turn ih hb'

/-- A loop that stops does so after some number of turns. -/
theorem Ends.turns {s t : σ} (h : Ends body s t) : ∃ n u, Turns body s n u ∧ body u = .done t := by
  induction h with
  | @done s t hb => exact ⟨0, s, .start, hb⟩
  | step hb _ ih =>
    obtain ⟨n, u, hturns, hdone⟩ := ih
    exact ⟨n + 1, u, hturns.cons hb, hdone⟩

end Loop

/-! ### Runs of a deterministic machine -/

section Run

variable {σ α : Type*} (step : σ → α → σ) (ok : σ → α → Prop)

/-- Every input of the run from `s` along `l` meets `ok` in the state it finds. -/
def AllSteps : σ → List α → Prop
  | _, [] => True
  | s, a :: l => ok s a ∧ AllSteps (step s a) l

variable {step ok}

instance decidableAllSteps [∀ s a, Decidable (ok s a)] : ∀ s l, Decidable (AllSteps step ok s l)
  | _, [] => isTrue trivial
  | s, a :: l =>
      have := decidableAllSteps (step s a) l
      inferInstanceAs (Decidable (ok s a ∧ AllSteps step ok (step s a) l))

theorem AllSteps.append {s : σ} {l l' : List α} :
    AllSteps step ok s (l ++ l') ↔ AllSteps step ok s l ∧ AllSteps step ok (l.foldl step s) l' := by
  induction l generalizing s with
  | nil => simp [AllSteps]
  | cons a l ih => simp [AllSteps, ih, and_assoc]

theorem AllSteps.mono {ok' : σ → α → Prop} (hok : ∀ s a, ok s a → ok' s a) {s : σ} {l : List α}
    (h : AllSteps step ok s l) : AllSteps step ok' s l := by
  induction l generalizing s with
  | nil => trivial
  | cons a l ih => exact ⟨hok s a h.1, ih h.2⟩

theorem AllSteps.of_forall (h : ∀ s a, ok s a) (s : σ) (l : List α) : AllSteps step ok s l := by
  induction l generalizing s with
  | nil => trivial
  | cons a l ih => exact ⟨h s a, ih (step s a)⟩

/-- The invariant rule of a run whose inputs all meet `ok`. -/
theorem AllSteps.foldl_induct {I : σ → Prop} (hstep : ∀ s a, I s → ok s a → I (step s a)) :
    ∀ {l : List α} {s : σ}, I s → AllSteps step ok s l → I (l.foldl step s) := by
  intro l
  induction l with
  | nil => intro s hs _; exact hs
  | cons a l ih => intro s hs h; exact ih (hstep s a hs h.1) h.2

/-- Under an invariant the steps of a run that meet `ok` may be shown to meet more. -/
theorem AllSteps.strengthen {I : σ → Prop} {ok' : σ → α → Prop}
    (hstep : ∀ s a, I s → ok s a → ok' s a ∧ I (step s a)) :
    ∀ {l : List α} {s : σ}, I s → AllSteps step ok s l → AllSteps step ok' s l := by
  intro l
  induction l with
  | nil => intro s _ _; trivial
  | cons a l ih =>
    intro s hs h
    have ha := hstep s a hs h.1
    exact ⟨ha.1, ih ha.2 h.2⟩

/-- When a step keeps `P` exactly if its input meets `ok`, `P` holds all along a run exactly if all
inputs do. -/
theorem forall_prefix_iff {I P : σ → Prop} (hI : ∀ s a, I s → P s → ok s a → I (step s a))
    (hP : ∀ s a, I s → P s → (P (step s a) ↔ ok s a)) {s : σ} (hs : I s) (hPs : P s) (l : List α) :
    (∀ pre, pre <+: l → P (pre.foldl step s)) ↔ AllSteps step ok s l := by
  induction l generalizing s with
  | nil =>
    constructor
    · intro _
      trivial
    · intro _ pre hpre
      rw [List.prefix_nil.1 hpre]
      exact hPs
  | cons a l ih =>
    constructor
    · intro h
      have hnext : P (step s a) := h [a] ⟨l, rfl⟩
      have ha := (hP s a hs hPs).1 hnext
      refine ⟨ha, (ih (hI s a hs hPs ha) hnext).1 fun pre hpre => ?_⟩
      exact h (a :: pre) ((List.prefix_cons_inj a).2 hpre)
    · rintro ⟨ha, hl⟩ pre hpre
      have hnext := (hP s a hs hPs).2 ha
      cases pre with
      | nil => exact hPs
      | cons a' pre =>
        obtain ⟨rfl, htail⟩ := List.cons_prefix_cons.1 hpre
        exact (ih (hI s a' hs hPs ha) hnext).2 hl pre htail

/-- A component of the machine runs on its own: an input that does not concern it leaves it as it
is, and any other moves it as its own step says. -/
theorem foldl_component {τ β : Type*} {view : σ → τ} {concerns : α → Option β} {step' : τ → β → τ}
    (hnone : ∀ s a, concerns a = none → view (step s a) = view s)
    (hsome : ∀ s a b, concerns a = some b → view (step s a) = step' (view s) b) (s : σ)
    (l : List α) : view (l.foldl step s) = (l.filterMap concerns).foldl step' (view s) := by
  induction l generalizing s with
  | nil => rfl
  | cons a l ih =>
    rw [List.foldl_cons, ih, List.filterMap_cons]
    cases hc : concerns a with
    | none => rw [hnone s a hc]
    | some b => rw [hsome s a b hc, List.foldl_cons]

/-- What holds of the machine at some moment of the run holds at every later one. -/
def Stable {κ : Type*} (step : σ → α → σ) (P : κ → σ → Prop) (s : σ) (l : List α) : Prop :=
  ∀ pre mid, pre ++ mid <+: l → ∀ k, P k (pre.foldl step s) → P k ((pre ++ mid).foldl step s)

/-- A run is stable exactly when every one of its steps is. -/
theorem stable_iff {κ : Type*} {P : κ → σ → Prop} {s : σ} {l : List α} :
    Stable step P s l ↔ AllSteps step (fun s a => ∀ k, P k s → P k (step s a)) s l := by
  constructor
  · intro h
    induction l generalizing s with
    | nil => trivial
    | cons a l ih =>
      refine ⟨fun k hk => h [] [a] ⟨l, rfl⟩ k hk, ih fun pre mid hle k hk => ?_⟩
      exact h (a :: pre) mid ((List.prefix_cons_inj a).2 hle) k hk
  · rintro h pre mid ⟨post, rfl⟩ k hk
    have hmid := (AllSteps.append.1 (AllSteps.append.1 h).1).2
    rw [List.foldl_append]
    exact hmid.foldl_induct (fun s a hs hkeep => hkeep k hs) hk

end Run

/-! ### Labelled transition systems -/

/-- A labelled transition system. -/
structure System (σ α : Type*) where
  init : σ → Prop
  step : σ → α → σ → Prop

namespace System

variable {σ α τ β : Type*}

/-- The states a system can be in. -/
inductive Reachable (S : System σ α) : σ → Prop
  | init {s : σ} (h : S.init s) : Reachable S s
  | step {s s' : σ} {a : α} (h : Reachable S s) (hs : S.step s a s') : Reachable S s'

variable {S : System σ α}

/-- The invariant rule: true initially and preserved by every step. -/
theorem Reachable.induct {I : σ → Prop} (hinit : ∀ s, S.init s → I s)
    (hstep : ∀ s a s', I s → S.step s a s' → I s') {s : σ} (h : S.Reachable s) : I s := by
  induction h with
  | init h => exact hinit _ h
  | step _ hs ih => exact hstep _ _ _ ih hs

/-- `f` maps every step of `S` taken in a state of `I` to a step of `T`, or to no step. -/
structure Simulation (S : System σ α) (T : System τ β) (I : σ → Prop) (f : σ → τ) : Prop where
  init : ∀ s, S.init s → T.init (f s)
  step : ∀ s a s', I s → S.step s a s' → f s' = f s ∨ ∃ b, T.step (f s) b (f s')

/-- A simulation maps reachable states to reachable states. -/
theorem Simulation.reachable {T : System τ β} {I : σ → Prop} {f : σ → τ}
    (hf : Simulation S T I f) (hI : ∀ s, S.Reachable s → I s) {s : σ} (h : S.Reachable s) :
    T.Reachable (f s) := by
  induction h with
  | init h => exact .init (hf.init _ h)
  | step h hs ih =>
    rcases hf.step _ _ _ (hI _ h) hs with he | ⟨b, hb⟩
    · rw [he]; exact ih
    · exact .step ih hb

end System

end Transition
