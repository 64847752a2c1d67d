import HftArb.Common.Columns

/-!
# Escaped columns

The scenario suite and the queue benchmark each have an encoder for CSV columns: `esc` quotes where
it has to, `csvEscape` always.  Both double the quotes within a column, and `split_csv` takes them
apart again with a flag for being inside quotes and one character of lookahead.  A doubled text
passes it unharmed (`splitCsvLoop_doubled`), so whatever encoder wrote each column the original
columns come back (`splitCsv_escaped`).
-/

namespace Hft

/-- `esc` of `scenario_suite`. -/
def esc (x : Bytes) : Bytes :=
  let (y, quote) := x.foldl
    (fun (y, quote) c =>
      if c = '"' then (y ++ ['"', '"'], true)
      else (y ++ [c], if c = ',' ∨ c = '\n' then true else quote))
    ([], false)
  if quote then ['"'] ++ y ++ ['"'] else y

/-- `csv_escape` of `bench_queue_pipeline`. -/
def csvEscape (text : Bytes) : Bytes :=
  text.foldl (fun out c => if c = '"' then out ++ ['"', '"'] else out ++ [c]) ['"'] ++ ['"']

/-- The encoder of a column. -/
inductive Encoder
  | scenarioSuite
  | benchmark
  deriving DecidableEq, Repr

/-- A column as its encoder writes it. -/
def Encoder.encode : Encoder → Bytes → Bytes
  | .scenarioSuite => esc
  | .benchmark => csvEscape

/-- The text neither begins nor ends with white space. -/
def Trimmed (s : Bytes) : Prop :=
  (∀ c ∈ s.head?, isspace c = false) ∧ ∀ c ∈ s.getLast?, isspace c = false

instance (s : Bytes) : Decidable (Trimmed s) :=
  @instDecidableAnd _ _ (Option.decidableForallMem s.head?) (Option.decidableForallMem s.getLast?)

theorem dropWhile_of_head {s : Bytes} (h : ∀ c ∈ s.head?, isspace c = false) :
    s.dropWhile isspace = s := by
  cases s with
  | nil => rfl
  | cons c s => exact List.dropWhile_cons_of_neg (by simp [h c rfl])

theorem trim_of_trimmed {s : Bytes} (h : Trimmed s) : trim s = s := by
  have hback : ∀ c ∈ s.reverse.head?, isspace c = false := by
    rw [List.head?_reverse]
    exact h.2
  rw [trim, dropWhile_of_head h.1, dropWhile_of_head hback, List.reverse_reverse]

/-! ### What the encoders write -/

/-- Every quote of the text twice. -/
def doubled (x : Bytes) : Bytes := x.flatMap fun c => if c = '"' then ['"', '"'] else [c]

theorem doubled_cons (c : Char) (x : Bytes) :
    doubled (c :: x) = (if c = '"' then ['"', '"'] else [c]) ++ doubled x := rfl

theorem csvEscape_eq (text : Bytes) : csvEscape text = '"' :: doubled text ++ ['"'] := by
  have hloop : ∀ out : Bytes, text.foldl
      (fun out c => if c = '"' then out ++ ['"', '"'] else out ++ [c]) out =
        out ++ doubled text := by
    induction text with
    | nil => intro out; exact (List.append_nil out).symm
    | cons c text ih =>
      intro out
      rw [List.foldl_cons, ih, doubled_cons, ← List.append_assoc]
      split_ifs <;> rfl
  rw [csvEscape, hloop]
  rfl

/-- The column has a quote, a comma or a newline. -/
def needsQuotes (x : Bytes) : Bool := x.any fun c => c = '"' || c = ',' || c = '\n'

/-- `esc` quotes a column that needs it. -/
theorem esc_eq (x : Bytes) :
    esc x = if needsQuotes x then '"' :: doubled x ++ ['"'] else doubled x := by
  have hloop : ∀ (y : Bytes) (quote : Bool), x.foldl
      (fun (y, quote) c =>
        if c = '"' then (y ++ ['"', '"'], true)
        else (y ++ [c], if c = ',' ∨ c = '\n' then true else quote)) (y, quote) =
      (y ++ doubled x, quote || needsQuotes x) := by
    induction x with
    | nil => intro y quote; simp [doubled, needsQuotes]
    | cons c x ih =>
      intro y quote
      rw [List.foldl_cons, needsQuotes, List.any_cons]
      dsimp only
      by_cases hquote : c = '"'
      · rw [if_pos hquote, ih, doubled_cons, if_pos hquote, List.append_assoc]
        simp [hquote]
      · rw [if_neg hquote, ih, doubled_cons, if_neg hquote, List.append_assoc]
        by_cases hsep : c = ',' ∨ c = '\n'
        · rcases hsep with hsep | hsep <;> simp [hsep]
        · obtain ⟨hcomma, hline⟩ := not_or.1 hsep
          simp [hquote, hcomma, hline, needsQuotes]
  rw [esc, hloop]
  simp

theorem doubled_of_plain {x : Bytes} (h : ∀ c ∈ x, c ≠ '"') : doubled x = x := by
  induction x with
  | nil => rfl
  | cons c x ih =>
    rw [List.forall_mem_cons] at h
    rw [doubled_cons, if_neg h.1, ih h.2, List.singleton_append]

/-! ### The scanner inside quotes -/

/-- A quote outside of quotes opens them. -/
theorem splitCsvLoop_open (rest cur : Bytes) :
    splitCsvLoop ('"' :: rest) false cur = splitCsvLoop rest true cur := by
  rw [splitCsvLoop, if_pos rfl]
  · rfl
  · intro rest' _ hinside
    cases hinside

/-- A quote with no other behind it closes them. -/
theorem splitCsvLoop_close {rest : Bytes} (h : rest.head? ≠ some '"') (cur : Bytes) :
    splitCsvLoop ('"' :: rest) true cur = splitCsvLoop rest false cur := by
  rw [splitCsvLoop, if_pos rfl]
  · rfl
  · rintro rest' rfl _
    exact h rfl

/-- Inside quotes a doubled quote stands for one. -/
theorem splitCsvLoop_pair (rest cur : Bytes) :
    splitCsvLoop ('"' :: '"' :: rest) true cur = splitCsvLoop rest true (cur ++ ['"']) := by
  rw [splitCsvLoop, if_pos rfl]

/-- Inside quotes every other character, commas included, stands for itself. -/
theorem splitCsvLoop_inside {c : Char} (h : c ≠ '"') (rest cur : Bytes) :
    splitCsvLoop (c :: rest) true cur = splitCsvLoop rest true (cur ++ [c]) := by
  rw [splitCsvLoop.eq_def]
  dsimp only
  rw [if_neg h, if_neg (by simp)]

/-- **A doubled text passes the scanner**, up to the quote that closes it. -/
theorem splitCsvLoop_doubled {rest : Bytes} (h : rest.head? ≠ some '"') (x cur : Bytes) :
    splitCsvLoop (doubled x ++ '"' :: rest) true cur = splitCsvLoop rest false (cur ++ x) := by
  induction x generalizing cur with
  | nil =>
    rw [List.append_nil]
    exact splitCsvLoop_close h cur
  | cons c x ih =>
    rw [doubled_cons, List.append_assoc, List.append_cons cur c x]
    split_ifs with hquote
    · rw [hquote]
      exact (splitCsvLoop_pair _ cur).trans (ih _)
    · exact (splitCsvLoop_inside hquote _ cur).trans (ih _)

/-! ### The round trip -/

/-- An encoded column leaves the scanner outside of quotes, with the original text read. -/
theorem splitCsvLoop_encode (e : Encoder) (x : Bytes) {rest : Bytes} (h : rest.head? ≠ some '"') :
    splitCsvLoop (e.encode x ++ rest) false [] = splitCsvLoop rest false x := by
  have hquoted : splitCsvLoop (('"' :: doubled x ++ ['"']) ++ rest) false [] =
      splitCsvLoop rest false x := by
    rw [List.append_assoc, List.cons_append, splitCsvLoop_open]
    exact splitCsvLoop_doubled h x []
  cases e with
  | benchmark =>
    rw [Encoder.encode, csvEscape_eq]
    exact hquoted
  | scenarioSuite =>
    rw [Encoder.encode, esc_eq]
    split_ifs with hsep
    · exact hquoted
    · have hplain : Plain x := fun c hc =>
        ⟨fun heq => hsep (List.any_eq_true.2 ⟨c, hc, by simp [heq]⟩),
          fun heq => hsep (List.any_eq_true.2 ⟨c, hc, by simp [heq]⟩)⟩
      rw [doubled_of_plain fun c hc => (hplain c hc).2]
      exact splitCsvLoop_plain hplain rest []

/-- **Splitting undoes escaping**: the columns of a line come back, whichever of the two encoders
wrote each of them. -/
theorem splitCsv_escaped (fields : List (Encoder × Bytes)) (hne : fields ≠ [])
    (h : ∀ f ∈ fields, Trimmed f.2) :
    splitCsv ([','].intercalate (fields.map fun f => f.1.encode f.2)) = fields.map Prod.snd := by
  unfold splitCsv
  induction fields with
  | nil => exact absurd rfl hne
  | cons f fields ih =>
    rw [List.forall_mem_cons] at h
    cases fields with
    | nil =>
      have hlast := @splitCsvLoop_encode f.1 f.2 [] (by simp)
      rw [List.append_nil] at hlast
      rw [List.map_singleton, List.intercalate_singleton, hlast, splitCsvLoop, trim_of_trimmed h.1]
      rfl
    | cons f' fields =>
      have hrest := ih (List.cons_ne_nil _ _) h.2
      rw [List.map_cons] at hrest
      rw [List.map_cons, List.map_cons, List.intercalate_cons_cons, List.append_assoc,
        splitCsvLoop_encode f.1 f.2 (by simp), List.singleton_append,
        splitCsvLoop_cons (by decide), if_pos rfl, trim_of_trimmed h.1, hrest]
      rfl

/-- A quote, a comma and an empty column. -/
theorem splitCsv_escaped_mixed :
    splitCsv "\"a,\"\"b\",\"\",NSE".toList = ["a,\"b".toList, [], "NSE".toList] :=
  splitCsv_escaped [(.scenarioSuite, "a,\"b".toList), (.benchmark, []),
    (.scenarioSuite, "NSE".toList)] (by simp) (by decide +kernel)

end Hft
