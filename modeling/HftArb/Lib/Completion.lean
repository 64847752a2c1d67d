import HftArb.Lib.Transition

/-!
# Runs that can be completed

A system with threads that spin need not stop: a scheduler may let one thread test a condition for
ever.  What can be asked is that it is never stuck: from every reachable state some continuation
leads to the end.  `S.Leads ok s s'` is a continuation that uses labels of `ok` only, and
`Leads.complete` is the rule: it is enough to find, in every state that is not an end, a
continuation into a state of smaller measure.
-/

namespace Transition

namespace System

variable {σ α : Type*} {S : System σ α} {ok : α → Prop}

/-- The system can go from one state to another by steps whose labels are in `ok`. -/
def Leads (S : System σ α) (ok : α → Prop) : σ → σ → Prop :=
  Relation.ReflTransGen fun s s' => ∃ a, ok a ∧ S.step s a s'

namespace Leads

theorem refl (s : σ) : S.Leads ok s s := Relation.ReflTransGen.refl

theorem single {s s' : σ} {a : α} (h : S.step s a s') (hok : ok a) : S.Leads ok s s' :=
  Relation.ReflTransGen.single ⟨a, hok, h⟩

theorem trans {s s' s'' : σ} (h : S.Leads ok s s') (h' : S.Leads ok s' s'') :
    S.Leads ok s s'' :=
  Relation.ReflTransGen.trans h h'

theorem head {s s' s'' : σ} {a : α} (h : S.step s a s') (hok : ok a)
    (h' : S.Leads ok s' s'') : S.Leads ok s s'' :=
  Relation.ReflTransGen.head ⟨a, hok, h⟩ h'

theorem reachable {s s' : σ} (h : S.Leads ok s s') (hs : S.Reachable s) : S.Reachable s' := by
  induction h with
  | refl => exact hs
  | tail _ hstep ih =>
    obtain ⟨a, -, ha⟩ := hstep
    exact ih.step ha

/-- Steps of one system done as steps of another. -/
theorem lift {τ β : Type*} {T : System τ β} {ok' : β → Prop} {f : σ → τ}
    (hf : ∀ s a s', ok a → S.step s a s' → T.Leads ok' (f s) (f s')) {s s' : σ}
    (h : S.Leads ok s s') : T.Leads ok' (f s) (f s') := by
  induction h with
  | refl => exact refl _
  | tail _ hstep ih =>
    obtain ⟨a, hok, ha⟩ := hstep
    exact ih.trans (hf _ _ _ hok ha)

/-- **The rule of completion**: a measure that some continuation can always decrease. -/
theorem complete {I done : σ → Prop} {μ : σ → ℕ}
    (hprogress : ∀ s, I s → ¬ done s → ∃ s', S.Leads ok s s' ∧ I s' ∧ μ s' < μ s) {s : σ}
    (hs : I s) : ∃ s', S.Leads ok s s' ∧ I s' ∧ done s' := by
  induction hn : μ s using Nat.strong_induction_on generalizing s with
  | _ n ih =>
    by_cases hdone : done s
    · exact ⟨s, refl s, hs, hdone⟩
    · obtain ⟨s', hleads, hs', hlt⟩ := hprogress s hs hdone
      obtain ⟨t, ht, hIt, hend⟩ := ih (μ s') (hn ▸ hlt) hs' rfl
      exact ⟨t, hleads.trans ht, hIt, hend⟩

end Leads

end System

end Transition
