import Mathlib.Data.List.Sort
import Mathlib.Order.Bounds.Basic

/-!
# Order statistics of a list

`IsRank l k x` says that `x` stands at position `k` when `l` is sorted, without mentioning a sorted
list.  A list that is sorted has its ranks at their positions (`IsRank.getElem`).
-/

/-- `x` is an entry of `l` with at most `k` smaller ones, and more than `k` entries are not
greater. -/
structure IsRank {α : Type*} [LinearOrder α] (l : List α) (k : ℕ) (x : α) : Prop where
  mem : x ∈ l
  below : l.countP (· < x) ≤ k
  notAbove : k < l.countP (· ≤ x)

namespace IsRank

variable {α : Type*} [LinearOrder α] {l s : List α} {k k' : ℕ} {x y : α}

/-- Ranks are ordered as the entries that have them. -/
theorem le (hx : IsRank l k x) (hy : IsRank l k' y) (hk : k ≤ k') : x ≤ y := by
  by_contra hlt
  have hsub : l.countP (· ≤ y) ≤ l.countP (· < x) :=
    List.countP_mono_left fun z _ hz =>
      decide_eq_true ((of_decide_eq_true hz).trans_lt (not_le.1 hlt))
  have := hy.notAbove
  have := hx.below
  omega

/-- A sorted list has the entry of rank `k` at position `k`. -/
theorem getElem (hperm : s.Perm l) (hsorted : s.SortedLE) (hk : k < s.length) :
    IsRank l k s[k] := by
  refine ⟨hperm.subset (s.getElem_mem hk), ?_, ?_⟩
  · -- what is smaller stands before position `k`
    have hsplit : s.countP (· < s[k]) =
        (s.take k).countP (· < s[k]) + (s.drop k).countP (· < s[k]) := by
      rw [← List.countP_append, List.take_append_drop]
    have hdrop : (s.drop k).countP (· < s[k]) = 0 := by
      rw [List.countP_eq_zero]
      intro z hz
      obtain ⟨i, hi, rfl⟩ := List.getElem_of_mem hz
      rw [List.getElem_drop, decide_eq_true_eq, not_lt]
      exact hsorted.getElem_le_getElem_of_le (Nat.le_add_right k i)
    have htake := List.countP_le_length (p := (· < s[k])) (l := s.take k)
    rw [List.length_take] at htake
    have := hperm.countP_eq (· < s[k])
    omega
  · -- what stands up to position `k` is not greater
    have htake : (s.take (k + 1)).countP (· ≤ s[k]) = (s.take (k + 1)).length := by
      rw [List.countP_eq_length]
      intro z hz
      obtain ⟨i, hi, rfl⟩ := List.getElem_of_mem hz
      rw [List.length_take] at hi
      rw [List.getElem_take, decide_eq_true_eq]
      exact hsorted.getElem_le_getElem_of_le (by omega)
    rw [List.length_take, Nat.min_eq_left hk] at htake
    have hle := (List.take_sublist (k + 1) s).countP_le (p := (· ≤ s[k]))
    have := hperm.countP_eq (· ≤ s[k])
    omega

end IsRank
