import HftArb.Common.Types

/-!
# `common/ids`: parent and order ids

Both kinds of id end in a dash and the decimal numeral of a counter, so that two ids of one
generator can only be equal if their counters are (`suffix_inj`).  The counters are atomics of 64
bits; here they are natural numbers.
-/

namespace Hft

/-- `class IdGenerator`. -/
structure IdGenerator where
  idPrefix : String := "HFT"
  parentSeq : ℕ := 0
  orderSeq : ℕ := 0
  deriving DecidableEq, Repr

/-- The text of a parent id. -/
def parentIdText (idPrefix : String) (instrumentId n : ℕ) : String :=
  idPrefix ++ "-ARB-" ++ toString instrumentId ++ "-" ++ toString n

/-- The text of a client order id. -/
def orderIdText (parentId : String) (venue : Venue) (side : Side) (role : OrderRole) (n : ℕ) :
    String :=
  parentId ++ "-" ++ venue.text ++ "-" ++ side.text ++ "-" ++ role.text ++ "-" ++ toString n

namespace IdGenerator

/-- `next_parent`. -/
def nextParent (g : IdGenerator) (instrumentId : ℕ) : String × IdGenerator :=
  let n := g.parentSeq + 1
  (parentIdText g.idPrefix instrumentId n, { g with parentSeq := n })

/-- `next_order`. -/
def nextOrder (g : IdGenerator) (parentId : String) (venue : Venue) (side : Side)
    (role : OrderRole) : String × IdGenerator :=
  let n := g.orderSeq + 1
  (orderIdText parentId venue side role n, { g with orderSeq := n })

end IdGenerator

/-! ### Ids determine their counter -/

theorem not_mem_toDigits {c : Char} (hc : c.isDigit = false) (n : ℕ) : c ∉ Nat.toDigits 10 n :=
  fun h => absurd (Nat.isDigit_of_mem_toDigits (by norm_num) (by norm_num) h) (by simp [hc])

/-- The part after the last separator of a list. -/
theorem append_cons_inj {α : Type*} {sep : α} {x y s t : List α} (hs : sep ∉ s) (ht : sep ∉ t)
    (h : x ++ sep :: s = y ++ sep :: t) : s = t := by
  rcases List.append_eq_append_iff.1 h with ⟨z, -, hz⟩ | ⟨z, -, hz⟩
  · cases z with
    | nil => simpa using hz
    | cons a z =>
      simp only [List.cons_append, List.cons.injEq] at hz
      exact absurd (by rw [hz.2]; simp) hs
  · cases z with
    | nil => simpa using hz.symm
    | cons a z =>
      simp only [List.cons_append, List.cons.injEq] at hz
      exact absurd (by rw [hz.2]; simp) ht

/-- Two texts that end in a separator and a numeral are equal only if both parts are. -/
theorem numeral_inj {sep : String} {c : Char} (hsep : sep.toList = [c]) (hc : c.isDigit = false)
    {x y : String} {n m : ℕ} (h : x ++ sep ++ toString n = y ++ sep ++ toString m) :
    x = y ∧ n = m := by
  have hlist := congrArg String.toList h
  simp only [String.toList_append, Nat.toString_eq_repr, Nat.toList_repr,
    List.append_assoc] at hlist
  rw [hsep, List.singleton_append, List.singleton_append] at hlist
  have hdigits := append_cons_inj (not_mem_toDigits hc n) (not_mem_toDigits hc m) hlist
  have hn : n = m := by
    rw [← Nat.ofDigitChars_ten_toDigits (n := n), hdigits, Nat.ofDigitChars_ten_toDigits]
  refine ⟨?_, hn⟩
  rw [hdigits] at hlist
  exact String.toList_inj.1 (List.append_cancel_right hlist)

/-- Two texts that end in a dash and a numeral are equal only if the numerals are. -/
theorem suffix_inj {x y : String} {n m : ℕ} (h : x ++ "-" ++ toString n = y ++ "-" ++ toString m) :
    n = m := (numeral_inj (c := '-') (by decide) (by decide) h).2

theorem parentIdText_inj {p p' : String} {i i' n n' : ℕ}
    (h : parentIdText p i n = parentIdText p' i' n') : n = n' := suffix_inj h

theorem orderIdText_inj {p p' : String} {v v' : Venue} {s s' : Side} {r r' : OrderRole} {n n' : ℕ}
    (h : orderIdText p v s r n = orderIdText p' v' s' r' n') : n = n' := suffix_inj h

end Hft
