import HftArb.Common.Csv

/-!
# White space, columns and lines

What `trim` leaves alone, what `split_csv` makes of a line and `std::getline` of a text.  A column
without commas and quotes comes back as it is (`splitCsv_intercalate`).
-/

namespace Hft

/-! ### White space -/

/-- No white space. -/
def Solid (s : Bytes) : Prop := ∀ c ∈ s, isspace c = false

theorem solid_of_all {s : Bytes} (h : (s.all fun c => !isspace c) = true) : Solid s := by
  simpa [Solid] using h

theorem dropWhile_of_solid {s : Bytes} (hne : s ≠ []) (h : Solid s) (rest : Bytes) :
    (s ++ rest).dropWhile isspace = s ++ rest := by
  cases s with
  | nil => exact absurd rfl hne
  | cons c s =>
    have hc : isspace c = false := h c List.mem_cons_self
    rw [List.cons_append, List.dropWhile_cons_of_neg (by simp [hc])]

/-- A text that begins and ends without white space is not trimmed. -/
theorem trim_between {a b : Bytes} (ha : a ≠ []) (hb : b ≠ []) (hsa : Solid a) (hsb : Solid b)
    (mid : Bytes) : trim (a ++ mid ++ b) = a ++ mid ++ b := by
  have hback : Solid b.reverse := fun c hc => hsb c (List.mem_reverse.1 hc)
  have hne : b.reverse ≠ [] := by simpa using hb
  unfold trim
  rw [List.append_assoc, dropWhile_of_solid ha hsa, ← List.append_assoc, List.reverse_append,
    dropWhile_of_solid hne hback, ← List.reverse_append, List.reverse_reverse]

theorem trim_of_solid {s : Bytes} (h : Solid s) : trim s = s := by
  by_cases hs : s = []
  · subst hs
    rfl
  · have hback : Solid s.reverse := fun c hc => h c (List.mem_reverse.1 hc)
    have hne : s.reverse ≠ [] := by simpa using hs
    have hfront := dropWhile_of_solid hs h []
    have hend := dropWhile_of_solid hne hback []
    rw [List.append_nil] at hfront hend
    rw [trim, hfront, hend, List.reverse_reverse]

theorem infix_dropWhile {w s : Bytes} (hne : w ≠ []) (hw : Solid w) (h : w <:+: s) :
    w <:+: s.dropWhile isspace := by
  obtain ⟨p, q, rfl⟩ := h
  rw [List.append_assoc, List.dropWhile_append]
  split_ifs
  · rw [dropWhile_of_solid hne hw]
    exact ⟨[], q, rfl⟩
  · exact ⟨p.dropWhile isspace, q, List.append_assoc _ _ _⟩

/-- Trimming does not break up a word. -/
theorem infix_trim {w s : Bytes} (hne : w ≠ []) (hw : Solid w) (h : w <:+: s) : w <:+: trim s := by
  have hback : Solid w.reverse := fun c hc => hw c (List.mem_reverse.1 hc)
  have hrev : w.reverse ≠ [] := by simpa using hne
  have hmid : w.reverse <:+: (s.dropWhile isspace).reverse :=
    List.reverse_infix.2 (infix_dropWhile hne hw h)
  have hend := List.reverse_infix.2 (infix_dropWhile hrev hback hmid)
  rwa [List.reverse_reverse] at hend

theorem isspace_of_isDigit {c : Char} (hc : c.isDigit = true) : isspace c = false := by
  rw [Char.isDigit, Bool.and_eq_true, decide_eq_true_eq, decide_eq_true_eq] at hc
  have hlo : 48 ≤ c.toNat := UInt32.le_iff_toNat_le.1 hc.1
  have hne : ∀ d : Char, d.toNat < 48 → c ≠ d := by
    rintro d hd rfl
    omega
  unfold isspace
  simp only [Bool.or_eq_false_iff, decide_eq_false_iff_not]
  refine ⟨⟨⟨⟨⟨hne _ (by decide), hne _ (by decide)⟩, hne _ (by decide)⟩, hne _ (by decide)⟩, ?_⟩,
    ?_⟩ <;> omega

/-! ### Columns -/

/-- Neither a comma nor a quote. -/
def Plain (s : Bytes) : Prop := ∀ c ∈ s, c ≠ ',' ∧ c ≠ '"'

theorem splitCsvLoop_cons {c : Char} (hquote : c ≠ '"') (rest cur : Bytes) :
    splitCsvLoop (c :: rest) false cur =
      if c = ',' then trim cur :: splitCsvLoop rest false []
      else splitCsvLoop rest false (cur ++ [c]) := by
  rw [splitCsvLoop, if_neg hquote]
  · simp
  · intro rest' _ hfalse
    cases hfalse

theorem splitCsvLoop_plain {w : Bytes} (h : Plain w) (rest cur : Bytes) :
    splitCsvLoop (w ++ rest) false cur = splitCsvLoop rest false (cur ++ w) := by
  induction w generalizing cur with
  | nil => rw [List.append_nil, List.nil_append]
  | cons c w ih =>
    obtain ⟨hcomma, hquote⟩ := h c List.mem_cons_self
    have hw : Plain w := fun c' hc' => h c' (List.mem_cons_of_mem c hc')
    rw [List.cons_append, splitCsvLoop_cons hquote, if_neg hcomma, ih hw, List.append_assoc,
      List.singleton_append]

/-- **Columns come back**, each trimmed. -/
theorem splitCsv_intercalate {col : Bytes} {cols : List Bytes}
    (h : ∀ c ∈ col :: cols, Plain c) :
    splitCsv ([','].intercalate (col :: cols)) = (col :: cols).map trim := by
  unfold splitCsv
  induction cols generalizing col with
  | nil =>
    have hcol := splitCsvLoop_plain (h col List.mem_cons_self) [] []
    rw [List.append_nil, List.nil_append] at hcol
    rw [List.intercalate_singleton, hcol]
    rfl
  | cons col' cols ih =>
    have hrest : ∀ c ∈ col' :: cols, Plain c := fun c hc => h c (List.mem_cons_of_mem col hc)
    rw [List.intercalate_cons_cons, List.append_assoc,
      splitCsvLoop_plain (h col List.mem_cons_self), List.nil_append, List.singleton_append,
      splitCsvLoop_cons (by decide), if_pos rfl, ih hrest]
    rfl

/-- What stands in a line stands in one of its columns. -/
theorem mem_intercalate {c : Char} {cols : List Bytes} (h : c ∈ [','].intercalate cols) :
    c = ',' ∨ ∃ col ∈ cols, c ∈ col := by
  induction cols with
  | nil => cases h
  | cons col cols ih =>
    cases cols with
    | nil => exact Or.inr ⟨col, List.mem_cons_self, by simpa using h⟩
    | cons col' cols =>
      rw [List.intercalate_cons_cons, List.append_assoc, List.mem_append, List.singleton_append,
        List.mem_cons] at h
      rcases h with h | rfl | h
      · exact Or.inr ⟨col, List.mem_cons_self, h⟩
      · exact Or.inl rfl
      · rcases ih h with h | ⟨c', hc', hmem⟩
        · exact Or.inl h
        · exact Or.inr ⟨c', List.mem_cons_of_mem col hc', hmem⟩

/-- A line begins with its first column and ends with its last. -/
theorem intercalate_between (a b : Bytes) (cols : List Bytes) :
    ∃ mid, [','].intercalate (a :: (cols ++ [b])) = a ++ mid ++ b := by
  induction cols generalizing a with
  | nil => exact ⟨[','], by simp⟩
  | cons col cols ih =>
    obtain ⟨mid, hmid⟩ := ih col
    refine ⟨',' :: (col ++ mid), ?_⟩
    rw [List.cons_append, List.intercalate_cons_cons, hmid]
    simp

/-! ### Lines -/

/-- The loop of `std::getline` over a text, with the line read so far.  What follows the last
newline is a line unless it is empty. -/
def linesLoop : Bytes → Bytes → List Bytes
  | [], cur => if cur = [] then [] else [cur]
  | c :: rest, cur => if c = '\n' then cur :: linesLoop rest [] else linesLoop rest (cur ++ [c])

/-- The lines that `std::getline` reads from a text. -/
def linesOf (text : Bytes) : List Bytes := linesLoop text []

end Hft
