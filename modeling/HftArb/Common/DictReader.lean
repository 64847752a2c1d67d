import HftArb.Common.Escaping
import HftArb.Common.Rows

/-!
# Python's `csv.reader` and `csv.DictReader`

The tools read what the programs write with the `csv` module of Python in its default dialect.
`csvReaderLoop` is its scanner over a text opened in text mode, where every line end has become a
newline.  Unlike `split_csv` it trims nothing and goes on behind a newline within quotes, so that
every text of two or more columns comes back as it was (`csvReader_encoded`).
-/

namespace Hft

/-- A text as `open` reads it: `\r\n` and `\r` are newlines. -/
def universalNewlines : Bytes → Bytes
  | '\r' :: '\n' :: rest => '\n' :: universalNewlines rest
  | '\r' :: rest => '\n' :: universalNewlines rest
  | c :: rest => c :: universalNewlines rest
  | [] => []

theorem universalNewlines_eq {text : Bytes} (h : '\r' ∉ text) : universalNewlines text = text := by
  induction text with
  | nil => rfl
  | cons c text ih =>
    obtain ⟨hc, hrest⟩ := not_or.1 (mt List.mem_cons.2 h)
    rw [universalNewlines.eq_3 c text (fun _ heq _ => hc heq.symm) (fun heq => hc heq.symm),
      ih hrest]

/-- The states of the scanner. -/
inductive CsvState
  | startRecord
  | startField
  | inField
  | inQuoted
  | quoteInQuoted
  deriving DecidableEq, Repr

/-- The scanner, with the rest of the text, its state, the field read so far and the fields of the
record before it. -/
def csvReaderLoop : Bytes → CsvState → Bytes → List Bytes → List (List Bytes)
  | [], .startRecord, _, _ => []
  | [], _, cur, fields => [fields ++ [cur]]
  | c :: rest, state, cur, fields =>
      if state = .inQuoted then
        if c = '"' then csvReaderLoop rest .quoteInQuoted cur fields
        else csvReaderLoop rest .inQuoted (cur ++ [c]) fields
      else if state = .quoteInQuoted ∧ c = '"' then
        csvReaderLoop rest .inQuoted (cur ++ ['"']) fields
      else if c = '\n' then
        (if state = .startRecord then [] else fields ++ [cur]) ::
          csvReaderLoop rest .startRecord [] []
      else if c = ',' then csvReaderLoop rest .startField [] (fields ++ [cur])
      else if c = '"' ∧ (state = .startRecord ∨ state = .startField) then
        csvReaderLoop rest .inQuoted cur fields
      else csvReaderLoop rest .inField (cur ++ [c]) fields

/-- `csv.reader` on a file whose fields keep to its limit. -/
def csvReader (text : Bytes) : List (List Bytes) :=
  csvReaderLoop (universalNewlines text) .startRecord [] []

/-- `csv.field_size_limit()`, in characters. -/
def fieldSizeLimit : ℕ := 131072

/-- No field of the file is over the limit, where the reader would raise `csv.Error`. -/
def FieldsFit (text : Bytes) : Prop :=
  ∀ row ∈ csvReader text, ∀ field ∈ row, field.length ≤ fieldSizeLimit

instance (text : Bytes) : Decidable (FieldsFit text) :=
  inferInstanceAs (Decidable (∀ row ∈ csvReader text, ∀ field ∈ row,
    field.length ≤ fieldSizeLimit))

/-- A row of `csv.DictReader`: names with their columns, `None` where the row is too short. -/
abbrev DictRow := List (Bytes × Option Bytes)

/-- The row of some columns. -/
def dictRow (names cols : List Bytes) : DictRow :=
  names.zip (cols.map some ++ List.replicate (names.length - cols.length) none)

/-- `csv.DictReader` on a file: the names are the first row, and blank lines are skipped. -/
def dictReader (text : Bytes) : List DictRow :=
  match csvReader text with
  | [] => []
  | names :: rows => (rows.filter (· ≠ [])).map (dictRow names)

/-- `row[name]`; no name is a `KeyError`. -/
def DictRow.get (row : DictRow) (name : String) : Option (Option Bytes) :=
  ((row.filter fun entry => entry.1 = name.toList).getLast?).map Prod.snd

/-- Rows that are all accepted. -/
theorem mapM_map_eq_some {α β γ : Type} {f : β → Option γ} {g : α → β} {k : α → γ}
    (h : ∀ a, f (g a) = some (k a)) (rows : List α) :
    (rows.map g).mapM f = some (rows.map k) := by
  induction rows with
  | nil => rfl
  | cons a rows ih =>
    rw [List.map_cons, List.mapM_cons, h a, ih]
    rfl

/-! ### What is written is read -/

section Scanner

variable {c : Char} {state : CsvState} {rest cur : Bytes} {fields : List Bytes}

/-- The field is over. -/
theorem csvReaderLoop_comma (hstate : state ≠ .inQuoted) :
    csvReaderLoop (',' :: rest) state cur fields =
      csvReaderLoop rest .startField [] (fields ++ [cur]) := by
  rw [csvReaderLoop, if_neg hstate, if_neg (by simp), if_neg (by decide), if_pos rfl]

/-- The record is over. -/
theorem csvReaderLoop_newline (hstate : state ≠ .inQuoted) (hne : state ≠ .startRecord) :
    csvReaderLoop ('\n' :: rest) state cur fields =
      (fields ++ [cur]) :: csvReaderLoop rest .startRecord [] [] := by
  rw [csvReaderLoop, if_neg hstate, if_neg (by simp), if_pos rfl, if_neg hne]

/-- A plain character. -/
theorem csvReaderLoop_char (hstate : state ≠ .inQuoted) (hc : c ≠ '"' ∧ c ≠ ',' ∧ c ≠ '\n') :
    csvReaderLoop (c :: rest) state cur fields =
      csvReaderLoop rest .inField (cur ++ [c]) fields := by
  obtain ⟨hquote, hcomma, hline⟩ := hc
  rw [csvReaderLoop, if_neg hstate, if_neg (by simp [hquote]), if_neg hline, if_neg hcomma,
    if_neg (by simp [hquote])]

theorem csvReaderLoop_plain {x : Bytes} (h : ∀ c ∈ x, c ≠ '"' ∧ c ≠ ',' ∧ c ≠ '\n') :
    csvReaderLoop (x ++ rest) .inField cur fields =
      csvReaderLoop rest .inField (cur ++ x) fields := by
  induction x generalizing cur with
  | nil => rw [List.nil_append, List.append_nil]
  | cons c x ih =>
    obtain ⟨hc, hrest⟩ := List.forall_mem_cons.1 h
    rw [List.cons_append, csvReaderLoop_char (by decide) hc, ih hrest, List.append_assoc,
      List.singleton_append]

/-- A doubled text passes the scanner inside quotes. -/
theorem csvReaderLoop_doubled (x : Bytes) :
    csvReaderLoop (doubled x ++ rest) .inQuoted cur fields =
      csvReaderLoop rest .inQuoted (cur ++ x) fields := by
  induction x generalizing cur with
  | nil => rw [List.append_nil]; rfl
  | cons c x ih =>
    rw [doubled_cons, List.append_assoc, List.append_cons cur c x]
    split_ifs with hquote
    · rw [hquote, List.cons_append, List.cons_append, List.nil_append, csvReaderLoop, if_pos rfl,
        if_pos rfl, csvReaderLoop, if_neg (by decide), if_pos ⟨rfl, rfl⟩]
      exact ih
    · rw [List.singleton_append, csvReaderLoop, if_pos rfl, if_neg hquote]
      exact ih

/-- A quoted text is a field up to its closing quote. -/
theorem csvReaderLoop_quoted (hstate : state = .startRecord ∨ state = .startField) (x : Bytes) :
    csvReaderLoop (('"' :: doubled x ++ ['"']) ++ rest) state [] fields =
      csvReaderLoop rest .quoteInQuoted x fields := by
  have hopen : csvReaderLoop (('"' :: doubled x ++ ['"']) ++ rest) state [] fields =
      csvReaderLoop (doubled x ++ '"' :: rest) .inQuoted [] fields := by
    rw [List.append_assoc, List.cons_append, csvReaderLoop,
      if_neg (by rcases hstate with rfl | rfl <;> decide),
      if_neg (by rcases hstate with rfl | rfl <;> simp), if_neg (by decide), if_neg (by decide),
      if_pos ⟨rfl, hstate⟩]
    rfl
  rw [hopen, csvReaderLoop_doubled, List.nil_append, csvReaderLoop, if_pos rfl, if_pos rfl]

/-- An encoded field is read, whatever state it leaves the scanner in. -/
theorem csvReaderLoop_encode (e : Encoder) (x : Bytes)
    (hstate : state = .startRecord ∨ state = .startField) :
    ∃ after, after ≠ .inQuoted ∧ (after = .startRecord → state = .startRecord ∧ x = []) ∧
      csvReaderLoop (e.encode x ++ rest) state [] fields = csvReaderLoop rest after x fields := by
  have hquoted : ∃ after, after ≠ .inQuoted ∧ (after = .startRecord → state = .startRecord ∧ x = []) ∧
      csvReaderLoop (('"' :: doubled x ++ ['"']) ++ rest) state [] fields =
        csvReaderLoop rest after x fields :=
    ⟨.quoteInQuoted, by decide, fun h => absurd h (by decide), csvReaderLoop_quoted hstate x⟩
  cases e with
  | benchmark =>
    rw [Encoder.encode, csvEscape_eq]
    exact hquoted
  | scenarioSuite =>
    rw [Encoder.encode, esc_eq]
    split_ifs with hsep
    · exact hquoted
    · have hplain : ∀ c ∈ x, c ≠ '"' ∧ c ≠ ',' ∧ c ≠ '\n' := fun c hc =>
        ⟨fun heq => hsep (List.any_eq_true.2 ⟨c, hc, by simp [heq]⟩),
          fun heq => hsep (List.any_eq_true.2 ⟨c, hc, by simp [heq]⟩),
          fun heq => hsep (List.any_eq_true.2 ⟨c, hc, by simp [heq]⟩)⟩
      rw [doubled_of_plain fun c hc => (hplain c hc).1]
      have hout : state ≠ .inQuoted := by rcases hstate with rfl | rfl <;> decide
      cases x with
      | nil => exact ⟨state, hout, fun h => ⟨h, rfl⟩, rfl⟩
      | cons c x =>
        obtain ⟨hc, hrest⟩ := List.forall_mem_cons.1 hplain
        refine ⟨.inField, by decide, fun h => absurd h (by decide), ?_⟩
        rw [List.cons_append, csvReaderLoop_char hout hc, csvReaderLoop_plain hrest]
        rfl

end Scanner

/-- The columns of a row, each written by its encoder. -/
def encodedRow (row : List (Encoder × Bytes)) : List Bytes := row.map fun f => f.1.encode f.2

/-- The rest of a record, behind a comma. -/
theorem csvReaderLoop_fields {row : List (Encoder × Bytes)} (hne : row ≠ []) (rest : Bytes)
    (fields : List Bytes) :
    csvReaderLoop (lineText (encodedRow row) ++ '\n' :: rest) .startField [] fields =
      (fields ++ row.map Prod.snd) :: csvReaderLoop rest .startRecord [] [] := by
  induction row generalizing fields with
  | nil => exact absurd rfl hne
  | cons f row ih =>
    cases row with
    | nil =>
      obtain ⟨after, hout, hstart, heq⟩ := @csvReaderLoop_encode .startField ('\n' :: rest) fields
        f.1 f.2 (Or.inr rfl)
      have hnext : after ≠ .startRecord := fun h => absurd (hstart h).1 (by decide)
      have hline : lineText (encodedRow [f]) = f.1.encode f.2 := List.intercalate_singleton
      rw [hline]
      exact heq.trans (csvReaderLoop_newline hout hnext)
    | cons f' row =>
      obtain ⟨after, hout, -, heq⟩ := @csvReaderLoop_encode .startField
        (',' :: (lineText (encodedRow (f' :: row)) ++ '\n' :: rest)) fields f.1 f.2 (Or.inr rfl)
      have hline : lineText (encodedRow (f :: f' :: row)) ++ '\n' :: rest =
          f.1.encode f.2 ++ ',' :: (lineText (encodedRow (f' :: row)) ++ '\n' :: rest) := by
        simp [lineText, encodedRow, List.intercalate_cons_cons]
      rw [hline, heq, csvReaderLoop_comma hout, ih (List.cons_ne_nil _ _), List.append_assoc]
      rfl

/-- A record of two or more fields. -/
theorem csvReaderLoop_row {row : List (Encoder × Bytes)} (hlen : 2 ≤ row.length) (rest : Bytes) :
    csvReaderLoop (lineText (encodedRow row) ++ '\n' :: rest) .startRecord [] [] =
      row.map Prod.snd :: csvReaderLoop rest .startRecord [] [] := by
  match row, hlen with
  | f :: f' :: row, _ =>
    obtain ⟨after, hout, -, heq⟩ := @csvReaderLoop_encode .startRecord
      (',' :: (lineText (encodedRow (f' :: row)) ++ '\n' :: rest)) [] f.1 f.2 (Or.inl rfl)
    have hline : lineText (encodedRow (f :: f' :: row)) ++ '\n' :: rest =
        f.1.encode f.2 ++ ',' :: (lineText (encodedRow (f' :: row)) ++ '\n' :: rest) := by
      simp [lineText, encodedRow, List.intercalate_cons_cons]
    rw [hline, heq, csvReaderLoop_comma hout, csvReaderLoop_fields (List.cons_ne_nil _ _)]
    rfl

/-- An encoder adds no carriage return. -/
theorem not_mem_encode {c : Char} (hquote : c ≠ '"') (e : Encoder) {x : Bytes} (h : c ∉ x) :
    c ∉ e.encode x := by
  have hdoubled : c ∉ doubled x := by
    intro hmem
    obtain ⟨d, hd, hc⟩ := List.mem_flatMap.1 hmem
    split_ifs at hc with hd'
    · simp [hquote] at hc
    · rw [List.mem_singleton.1 hc] at h
      exact h hd
  have hquoted : c ∉ '"' :: doubled x ++ ['"'] := by simp [hquote, hdoubled]
  cases e with
  | benchmark => rw [Encoder.encode, csvEscape_eq]; exact hquoted
  | scenarioSuite =>
    rw [Encoder.encode, esc_eq]
    split_ifs
    · exact hquoted
    · exact hdoubled

/-- **Rows come back from a file**, whichever of the encoders wrote each column: without carriage
returns `csv.reader` undoes both. -/
theorem csvReader_encoded {rows : List (List (Encoder × Bytes))}
    (h : ∀ row ∈ rows, 2 ≤ row.length ∧ ∀ f ∈ row, '\r' ∉ f.2) :
    csvReader (fileText (rows.map encodedRow)) = rows.map fun row => row.map Prod.snd := by
  have hreturn : '\r' ∉ fileText (rows.map encodedRow) := by
    intro hmem
    obtain ⟨line, hline, hc⟩ := List.mem_flatMap.1 hmem
    obtain ⟨cols, hcols, rfl⟩ := List.mem_map.1 hline
    obtain ⟨row, hrow, rfl⟩ := List.mem_map.1 hcols
    rcases List.mem_append.1 hc with hc | hc
    · rcases mem_intercalate hc with heq | ⟨col, hcol, hc⟩
      · cases heq
      · obtain ⟨f, hf, rfl⟩ := List.mem_map.1 hcol
        exact not_mem_encode (by decide) f.1 ((h row hrow).2 f hf) hc
    · simp at hc
  rw [csvReader, universalNewlines_eq hreturn]
  clear hreturn
  induction rows with
  | nil => rfl
  | cons row rows ih =>
    obtain ⟨hrow, hrest⟩ := List.forall_mem_cons.1 h
    have htext : fileText ((row :: rows).map encodedRow) =
        lineText (encodedRow row) ++ '\n' :: fileText (rows.map encodedRow) := by
      simp [fileText, textOf]
    rw [htext, csvReaderLoop_row hrow.1, ih hrest]
    rfl

theorem dictRow_eq {names cols : List Bytes} (h : cols.length = names.length) :
    dictRow names cols = names.zip (cols.map some) := by
  rw [dictRow, h, Nat.sub_self, List.replicate_zero, List.append_nil]

/-- **`csv.DictReader` reads the rows that were written**, each under the names of the first. -/
theorem dictReader_encoded {names : List (Encoder × Bytes)} {rows : List (List (Encoder × Bytes))}
    (hnames : 2 ≤ names.length ∧ ∀ f ∈ names, '\r' ∉ f.2)
    (h : ∀ row ∈ rows, row.length = names.length ∧ ∀ f ∈ row, '\r' ∉ f.2) :
    dictReader (fileText (encodedRow names :: rows.map encodedRow)) =
      rows.map fun row => (names.map Prod.snd).zip (row.map fun f => some f.2) := by
  have hread := @csvReader_encoded (names :: rows) (List.forall_mem_cons.2 ⟨hnames,
    fun row hrow => ⟨(h row hrow).1 ▸ hnames.1, (h row hrow).2⟩⟩)
  rw [List.map_cons] at hread
  have hfull : (rows.map fun row => row.map Prod.snd).filter (· ≠ []) =
      rows.map fun row => row.map Prod.snd := by
    rw [List.filter_eq_self]
    refine List.forall_mem_map.2 fun row hrow => ?_
    have hlen := (h row hrow).1
    have hne : row.map Prod.snd ≠ [] := by
      intro hnil
      rw [List.map_eq_nil_iff] at hnil
      subst hnil
      have hzero : (0 : ℕ) = names.length := hlen
      omega
    simpa using hne
  rw [dictReader, hread, List.map_cons]
  dsimp only
  rw [hfull, List.map_map]
  refine List.map_congr_left fun row hrow => ?_
  have hlen : (row.map Prod.snd).length = (names.map Prod.snd).length := by
    rw [List.length_map, List.length_map, (h row hrow).1]
  show dictRow (names.map Prod.snd) (row.map Prod.snd) = _
  rw [dictRow_eq hlen, List.map_map]
  rfl

/-! ### Columns that need no quotes -/

/-- The columns of a row, each to be written by `esc`. -/
def escaped (cols : List Bytes) : List (Encoder × Bytes) := cols.map fun s => (.scenarioSuite, s)

theorem esc_of_rowText {s : Bytes} (h : RowText s) : esc s = s := by
  have hneeds : needsQuotes s = false := by
    rw [needsQuotes, List.any_eq_false]
    intro c hc
    obtain ⟨hcomma, hquote, hline, -⟩ := h.1 c hc
    simp [hcomma, hquote, hline]
  rw [esc_eq, hneeds]
  exact doubled_of_plain fun c hc => (h.1 c hc).2.1

theorem encodedRow_escaped {cols : List Bytes} (h : ∀ col ∈ cols, RowText col) :
    encodedRow (escaped cols) = cols := by
  rw [encodedRow, escaped, List.map_map]
  conv_rhs => rw [← List.map_id cols]
  exact List.map_congr_left fun col hcol => esc_of_rowText (h col hcol)

theorem encodedRows_escaped {rows : List (List Bytes)}
    (h : ∀ cols ∈ rows, ∀ col ∈ cols, RowText col) : (rows.map escaped).map encodedRow = rows := by
  rw [List.map_map]
  conv_rhs => rw [← List.map_id rows]
  exact List.map_congr_left fun cols hcols => encodedRow_escaped (h cols hcols)

theorem length_escaped (cols : List Bytes) : (escaped cols).length = cols.length :=
  List.length_map _

theorem no_return_escaped {cols : List Bytes} (h : ∀ col ∈ cols, '\r' ∉ col) :
    ∀ f ∈ escaped cols, '\r' ∉ f.2 := List.forall_mem_map.2 h

theorem RowText.no_return {s : Bytes} (h : RowText s) : '\r' ∉ s :=
  fun hmem => (h.1 _ hmem).2.2.2 rfl

theorem map_snd_escaped (cols : List Bytes) : (escaped cols).map Prod.snd = cols := by
  rw [escaped, List.map_map]
  exact List.map_id cols

/-- Rows of texts are read by `csv.DictReader`. -/
theorem dictReader_fileText {names : List Bytes} {rows : List (List Bytes)}
    (hnames : 2 ≤ names.length ∧ ∀ col ∈ names, RowText col)
    (h : ∀ cols ∈ rows, cols.length = names.length ∧ ∀ col ∈ cols, RowText col) :
    dictReader (fileText (names :: rows)) = rows.map fun cols => names.zip (cols.map some) := by
  have hread := @dictReader_encoded (escaped names) (rows.map escaped)
    ⟨by rw [length_escaped]; exact hnames.1,
      no_return_escaped fun col hcol => (hnames.2 col hcol).no_return⟩
    (List.forall_mem_map.2 fun cols hcols =>
      ⟨by rw [length_escaped, length_escaped]; exact (h cols hcols).1,
        no_return_escaped fun col hcol => ((h cols hcols).2 col hcol).no_return⟩)
  rw [encodedRow_escaped hnames.2, encodedRows_escaped fun cols hcols => (h cols hcols).2,
    List.map_map, map_snd_escaped] at hread
  rw [hread]
  refine List.map_congr_left fun cols _ => ?_
  show names.zip ((escaped cols).map fun f => some f.2) = _
  rw [escaped, List.map_map]
  rfl

/-- Rows of texts are read by `csv.reader`. -/
theorem csvReader_fileText {rows : List (List Bytes)}
    (h : ∀ cols ∈ rows, 2 ≤ cols.length ∧ ∀ col ∈ cols, RowText col) :
    csvReader (fileText rows) = rows := by
  have hread := @csvReader_encoded (rows.map escaped) (List.forall_mem_map.2 fun cols hcols =>
    ⟨by rw [length_escaped]; exact (h cols hcols).1,
      no_return_escaped fun col hcol => ((h cols hcols).2 col hcol).no_return⟩)
  rw [encodedRows_escaped fun cols hcols => (h cols hcols).2, List.map_map] at hread
  rw [hread]
  conv_rhs => rw [← List.map_id rows]
  exact List.map_congr_left fun cols _ => map_snd_escaped cols

end Hft
