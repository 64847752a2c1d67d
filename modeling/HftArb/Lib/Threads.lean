import Mathlib.Tactic

/-!
# Families of threads

Two things a proof about any number of threads needs.

* `total w f` adds up a weight of the threads' phases; `total_update` says how it changes when one
  thread moves.
* A history tagged with the thread that made each entry; `ofThread` is one thread's part of it.
-/

namespace Threads

variable {ι α β : Type*} [DecidableEq ι]

/-! ### Weights -/

section Total

variable [Fintype ι] (w : α → ℕ) (f : ι → α)

/-- The sum of a weight over all threads. -/
def total : ℕ := ∑ i, w (f i)

variable {w f}

/-- One thread moves: its old weight leaves the sum and its new one enters. -/
theorem total_update (i : ι) (a : α) :
    total w (Function.update f i a) + w (f i) = total w f + w a := by
  have hnew : total w (Function.update f i a) = w a + ∑ j ∈ Finset.univ.erase i, w (f j) := by
    rw [total, ← Finset.add_sum_erase _ _ (Finset.mem_univ i), Function.update_self]
    congr 1
    refine Finset.sum_congr rfl fun j hj => ?_
    rw [Function.update_of_ne (Finset.ne_of_mem_erase hj)]
  have hold : total w f = w (f i) + ∑ j ∈ Finset.univ.erase i, w (f j) :=
    (Finset.add_sum_erase _ _ (Finset.mem_univ i)).symm
  omega

/-- One thread moves: of what it still had to bring it has brought `done`, and `more` was added to
the whole. -/
theorem total_update_add {k n : ℕ} (h : k + total w f = n) (i : ι) (a : α) (done more : ℕ)
    (hmove : done + w a = w (f i) + more) :
    k + done + total w (Function.update f i a) = n + more := by
  have htotal := total_update (w := w) (f := f) i a
  omega

omit [DecidableEq ι] in
theorem total_eq_zero_iff : total w f = 0 ↔ ∀ i, w (f i) = 0 := by
  simp [total, Finset.sum_eq_zero_iff]

end Total

/-! ### Tagged histories -/

section History

/-- The entries one thread made. -/
def ofThread (i : ι) (h : List (ι × β)) : List β := (h.filter fun e => e.1 = i).map Prod.snd

@[simp]
theorem ofThread_nil (i : ι) : ofThread i ([] : List (ι × β)) = [] := rfl

@[simp]
theorem ofThread_append (i : ι) (h h' : List (ι × β)) :
    ofThread i (h ++ h') = ofThread i h ++ ofThread i h' := by
  simp [ofThread]

/-- What one thread appends. -/
@[simp]
theorem ofThread_self (i : ι) (l : List β) : ofThread i (l.map (Prod.mk i)) = l := by
  induction l with
  | nil => rfl
  | cons b l ih => simpa [ofThread] using ih

theorem ofThread_of_ne {i j : ι} (h : j ≠ i) (l : List β) : ofThread i (l.map (Prod.mk j)) = [] := by
  simp [ofThread, List.filter_eq_nil_iff, h]

end History

end Threads
