import HftArb.Common.Columns
import HftArb.Lib.MachineInt

/-!
# Decimal numerals

What a numeral denotes, said without a parser, and what `parse_u64` and `parse_i64` make of a text.
Both read the numeral the text begins with (`readValue_eq_some`).  `parse_i64` returns its number
when that fits and the default otherwise (`parseI64_of_begins`); `parse_u64` returns it modulo
`2 ^ 64` (`parseU64_of_begins`).  A text that begins with no numeral gives the default.
-/

namespace Hft

open MachineInt

/-- The number of a text of digits. -/
def digitsValue (s : Bytes) : Option ℕ :=
  if s ≠ [] ∧ s.all Char.isDigit = true then some (Nat.ofDigitChars 10 s 0) else none

/-- The number that a decimal numeral denotes: digits, with or without a sign. -/
def denoted : Bytes → Option ℤ
  | '-' :: s => (digitsValue s).map fun n : ℕ => -(n : ℤ)
  | '+' :: s => (digitsValue s).map fun n : ℕ => (n : ℤ)
  | s => (digitsValue s).map fun n : ℕ => (n : ℤ)

/-- The longest numeral at the beginning of the text denotes `v`. -/
def Begins (s : Bytes) (v : ℤ) : Prop :=
  ∃ w rest, s = w ++ rest ∧ denoted w = some v ∧ ∀ c ∈ rest.head?, c.isDigit = false

/-- What `numeral` reads, as a number. -/
def readValue (s : Bytes) : Option ℤ :=
  let (negative, digits) := numeral s
  let value : ℤ := Nat.ofDigitChars 10 digits 0
  if digits = [] then none else some (if negative then -value else value)

/-! ### Digits -/

theorem digitsValue_eq_some {s : Bytes} {n : ℕ} : digitsValue s = some n ↔
    s ≠ [] ∧ s.all Char.isDigit = true ∧ Nat.ofDigitChars 10 s 0 = n := by
  unfold digitsValue
  split_ifs with h
  · simp [h]
  · simp only [false_iff]
    exact fun hs => h ⟨hs.1, hs.2.1⟩

theorem takeWhile_digits {w rest : Bytes} (hw : w.all Char.isDigit = true)
    (hrest : ∀ c ∈ rest.head?, c.isDigit = false) : (w ++ rest).takeWhile Char.isDigit = w := by
  have hnil : rest.takeWhile Char.isDigit = [] := by
    cases rest with
    | nil => rfl
    | cons c rest => exact List.takeWhile_cons_of_neg (by simp [hrest c rfl])
  rw [List.takeWhile_append_of_pos (List.all_eq_true.1 hw), hnil, List.append_nil]

theorem all_takeWhile (s : Bytes) : (s.takeWhile Char.isDigit).all Char.isDigit = true := by
  induction s with
  | nil => rfl
  | cons c s ih =>
    rw [List.takeWhile_cons]
    split_ifs with hc
    · rw [List.all_cons, hc, ih, Bool.and_self]
    · rfl

theorem head_dropWhile (s : Bytes) :
    ∀ c ∈ (s.dropWhile Char.isDigit).head?, c.isDigit = false := by
  intro c hc
  have hnot := List.head?_dropWhile_not Char.isDigit s
  rw [Option.mem_def.1 hc] at hnot
  simpa using hnot

/-- A text that begins with a digit has no sign. -/
theorem denoted_of_digit {c : Char} (hc : c.isDigit = true) (s : Bytes) :
    denoted (c :: s) = (digitsValue (c :: s)).map fun n : ℕ => (n : ℤ) := by
  unfold denoted
  split
  · next heq =>
    cases heq
    exact absurd hc (by decide)
  · next heq =>
    cases heq
    exact absurd hc (by decide)
  · rfl

theorem numeral_of_digit {c : Char} (hc : c.isDigit = true) (s : Bytes) :
    numeral (c :: s) = (false, (c :: s).takeWhile Char.isDigit) := by
  unfold numeral
  split
  · next heq =>
    cases heq
    exact absurd hc (by decide)
  · next heq =>
    cases heq
    exact absurd hc (by decide)
  · rfl

/-! ### Reading -/

/-- Only a sign in front of the digits is read over. -/
theorem numeral_cases (s : Bytes) :
    (∃ t, s = '-' :: t ∧ numeral s = (true, t.takeWhile Char.isDigit)) ∨
    (∃ t, s = '+' :: t ∧ numeral s = (false, t.takeWhile Char.isDigit)) ∨
    numeral s = (false, s.takeWhile Char.isDigit) := by
  unfold numeral
  split
  · exact Or.inl ⟨_, rfl, rfl⟩
  · exact Or.inr (Or.inl ⟨_, rfl, rfl⟩)
  · exact Or.inr (Or.inr rfl)

theorem readValue_of_numeral {s digits : Bytes} {negative : Bool}
    (h : numeral s = (negative, digits)) (hne : digits ≠ []) : readValue s =
      some (if negative then -(Nat.ofDigitChars 10 digits 0 : ℤ)
        else Nat.ofDigitChars 10 digits 0) := by
  rw [readValue, h]
  exact if_neg hne

/-- The first character, whether a sign or a digit, and the digits behind it. -/
theorem begins_cons {c : Char} {t : Bytes} {v : ℤ}
    (h : denoted (c :: t.takeWhile Char.isDigit) = some v) : Begins (c :: t) v := by
  refine ⟨c :: t.takeWhile Char.isDigit, t.dropWhile Char.isDigit, ?_, h, head_dropWhile t⟩
  rw [List.cons_append, List.takeWhile_append_dropWhile]

theorem digitsValue_takeWhile {t : Bytes} (h : t.takeWhile Char.isDigit ≠ []) :
    digitsValue (t.takeWhile Char.isDigit) =
      some (Nat.ofDigitChars 10 (t.takeWhile Char.isDigit) 0) :=
  digitsValue_eq_some.2 ⟨h, all_takeWhile t, rfl⟩

/-- The digits that are read stand at the beginning of the text, and no digit behind them. -/
theorem begins_of_readValue {s : Bytes} {v : ℤ} (h : readValue s = some v) : Begins s v := by
  have hne : (numeral s).2 ≠ [] := by
    intro hnil
    exact absurd (h.symm.trans (if_pos hnil)) (by simp)
  rcases numeral_cases s with ⟨t, rfl, hnum⟩ | ⟨t, rfl, hnum⟩ | hnum <;> rw [hnum] at hne
  · rw [readValue_of_numeral hnum hne] at h
    refine begins_cons ?_
    rw [denoted, digitsValue_takeWhile hne, ← h]
    rfl
  · rw [readValue_of_numeral hnum hne] at h
    refine begins_cons ?_
    rw [denoted, digitsValue_takeWhile hne, ← h]
    rfl
  · rw [readValue_of_numeral hnum hne] at h
    cases s with
    | nil => exact absurd rfl hne
    | cons c s =>
      have hc : c.isDigit = true := by
        by_contra hc
        exact hne (List.takeWhile_cons_of_neg hc)
      have hvalue := digitsValue_takeWhile hne
      refine begins_cons ?_
      rw [List.takeWhile_cons_of_pos hc] at hvalue h
      rw [denoted_of_digit hc, hvalue, ← h]
      rfl

theorem readValue_of_begins {s : Bytes} {v : ℤ} (h : Begins s v) : readValue s = some v := by
  obtain ⟨w, rest, rfl, hw, hrest⟩ := h
  unfold denoted at hw
  split at hw
  · next t =>
    obtain ⟨n, ht, rfl⟩ := Option.map_eq_some_iff.1 hw
    obtain ⟨hne, hall, rfl⟩ := digitsValue_eq_some.1 ht
    have hnum : numeral ('-' :: t ++ rest) = (true, t) :=
      congrArg (Prod.mk true) (takeWhile_digits hall hrest)
    exact readValue_of_numeral hnum hne
  · next t =>
    obtain ⟨n, ht, rfl⟩ := Option.map_eq_some_iff.1 hw
    obtain ⟨hne, hall, rfl⟩ := digitsValue_eq_some.1 ht
    have hnum : numeral ('+' :: t ++ rest) = (false, t) :=
      congrArg (Prod.mk false) (takeWhile_digits hall hrest)
    exact readValue_of_numeral hnum hne
  · obtain ⟨n, ht, rfl⟩ := Option.map_eq_some_iff.1 hw
    obtain ⟨hne, hall, rfl⟩ := digitsValue_eq_some.1 ht
    have hnum : numeral (w ++ rest) = (false, w) := by
      cases w with
      | nil => exact absurd rfl hne
      | cons c t =>
        have hc : c.isDigit = true := List.all_eq_true.1 hall c List.mem_cons_self
        rw [List.cons_append, numeral_of_digit hc, ← List.cons_append, takeWhile_digits hall hrest]
    exact readValue_of_numeral hnum hne

/-- **What is read is the numeral the text begins with.** -/
theorem readValue_eq_some {s : Bytes} {v : ℤ} : readValue s = some v ↔ Begins s v :=
  ⟨begins_of_readValue, readValue_of_begins⟩

/-- A numeral begins with itself. -/
theorem begins_of_denoted {s : Bytes} {v : ℤ} (h : denoted s = some v) : Begins s v :=
  ⟨s, [], (List.append_nil s).symm, h, by simp⟩

theorem readValue_eq_none {s : Bytes} (h : ∀ v, ¬ Begins s v) : readValue s = none := by
  rw [Option.eq_none_iff_forall_ne_some]
  exact fun v hv => h v (begins_of_readValue hv)

/-! ### The parsers -/

theorem parseI64_eq (s : Bytes) (d : ℤ) : parseI64 s d =
    (readValue (trim s)).elim d fun v => if InInt64 v then v else d := by
  have hflip : ∀ x : ℤ, (if x < -2 ^ 63 ∨ x ≥ 2 ^ 63 then d else x) =
      if InInt64 x then x else d := by
    intro x
    by_cases hx : InInt64 x
    · rw [if_pos hx, if_neg]
      rintro (hlt | hge)
      · exact absurd hx.1 (not_le.2 hlt)
      · exact absurd hx.2 (not_lt.2 hge)
    · rw [if_neg hx, if_pos]
      by_contra hout
      rw [not_or, not_lt, ge_iff_le, not_le] at hout
      exact hx hout
  unfold parseI64 readValue
  obtain ⟨negative, digits⟩ := numeral (trim s)
  dsimp only
  by_cases hnil : digits = []
  · rw [if_pos (Or.inl hnil), if_pos hnil, Option.elim_none]
  · rw [if_neg hnil]
    simp only [hnil, false_or]
    exact hflip _

theorem parseU64_eq (s : Bytes) (d : ℕ) : parseU64 s d =
    (readValue (trim s)).elim d fun v => if |v| < 2 ^ 64 then (v % 2 ^ 64).toNat else d := by
  unfold parseU64 readValue
  obtain ⟨negative, digits⟩ := numeral (trim s)
  dsimp only
  by_cases hnil : digits = []
  · rw [if_pos (Or.inl hnil), if_pos hnil, Option.elim_none]
  · rw [if_neg hnil]
    generalize Nat.ofDigitChars 10 digits 0 = n
    by_cases hbig : n ≥ 2 ^ 64
    · have habs : ¬ |(n : ℤ)| < 2 ^ 64 := by
        rw [Nat.abs_cast]
        omega
      rw [if_pos (Or.inr hbig)]
      cases negative with
      | false => exact (if_neg habs).symm
      | true => exact (if_neg (by rwa [if_pos rfl, abs_neg])).symm
    · have habs : |(n : ℤ)| < 2 ^ 64 := by
        rw [Nat.abs_cast]
        omega
      rw [if_neg (not_or.2 ⟨hnil, hbig⟩)]
      cases negative with
      | false =>
        refine Eq.trans ?_ (if_pos habs).symm
        show n = ((n : ℤ) % 2 ^ 64).toNat
        omega
      | true =>
        refine Eq.trans ?_ (if_pos (by rwa [if_pos rfl, abs_neg])).symm
        show (2 ^ 64 - n) % 2 ^ 64 = (-(n : ℤ) % 2 ^ 64).toNat
        omega

/-- `parse_i64` of a text that begins with a numeral. -/
theorem parseI64_of_begins {s : Bytes} {v : ℤ} (h : Begins (trim s) v) (d : ℤ) :
    parseI64 s d = if InInt64 v then v else d := by
  rw [parseI64_eq, readValue_of_begins h, Option.elim_some]

/-- `parse_u64` of a text that begins with a numeral. -/
theorem parseU64_of_begins {s : Bytes} {v : ℤ} (h : Begins (trim s) v) (d : ℕ) :
    parseU64 s d = if |v| < 2 ^ 64 then (v % 2 ^ 64).toNat else d := by
  rw [parseU64_eq, readValue_of_begins h, Option.elim_some]

theorem parseI64_default {s : Bytes} (h : ∀ v, ¬ Begins (trim s) v) (d : ℤ) :
    parseI64 s d = d := by
  rw [parseI64_eq, readValue_eq_none h, Option.elim_none]

theorem parseU64_default {s : Bytes} (h : ∀ v, ¬ Begins (trim s) v) (d : ℕ) :
    parseU64 s d = d := by
  rw [parseU64_eq, readValue_eq_none h, Option.elim_none]

end Hft
