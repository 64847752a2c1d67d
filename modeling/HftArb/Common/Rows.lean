import HftArb.Common.Escaping
import HftArb.Md.Encoding

/-!
# Files of rows

The log files are written with `<<` and commas, nothing is escaped.  That is enough as long as every
column is a `RowText`; then `split_csv` reads back from each line the columns that were written
(`readRows_fileText`).
-/

namespace Hft

/-- A text that is its own column: no comma, no quote, no line end, and trimmed. -/
def RowText (s : Bytes) : Prop :=
  (∀ c ∈ s, c ≠ ',' ∧ c ≠ '"' ∧ c ≠ '\n' ∧ c ≠ '\r') ∧ Trimmed s

-- Along the text: the search for an instance may find one that goes through all characters.
instance (s : Bytes) : Decidable (RowText s) :=
  @instDecidableAnd _ _ (List.decidableBAll _ s) inferInstance

theorem RowText.plain {s : Bytes} (h : RowText s) : Plain s := fun c hc =>
  ⟨(h.1 c hc).1, (h.1 c hc).2.1⟩

/-- Without white space there is no line end either. -/
theorem Word.rowText {s : Bytes} (h : Word s) : RowText s := by
  obtain ⟨hsolid, hplain⟩ := h
  refine ⟨fun c hc => ⟨(hplain c hc).1, (hplain c hc).2, ?_, ?_⟩, fun c hc => ?_, fun c hc => ?_⟩
  · rintro rfl
    exact absurd (hsolid _ hc) (by decide)
  · rintro rfl
    exact absurd (hsolid _ hc) (by decide)
  · exact hsolid c (List.mem_of_mem_head? hc)
  · exact hsolid c (List.mem_of_mem_getLast? hc)

theorem Word.append {s t : Bytes} (hs : Word s) (ht : Word t) : Word (s ++ t) :=
  ⟨fun c hc => (List.mem_append.1 hc).elim (hs.1 c) (ht.1 c),
    fun c hc => (List.mem_append.1 hc).elim (hs.2 c) (ht.2 c)⟩

/-- The columns of a line, separated by commas. -/
def lineText (cols : List Bytes) : Bytes := [','].intercalate cols

/-- A file of rows. -/
def fileText (rows : List (List Bytes)) : Bytes := textOf (rows.map lineText)

/-- A file read line by line and split by `split_csv`. -/
def readRows (text : Bytes) : List (List Bytes) := (linesOf text).map splitCsv

theorem newline_not_mem_lineText {cols : List Bytes} (h : ∀ col ∈ cols, RowText col) :
    '\n' ∉ lineText cols := fun hmem => by
  rcases mem_intercalate hmem with heq | ⟨col, hcol, hc⟩
  · cases heq
  · exact ((h col hcol).1 _ hc).2.2.1 rfl

/-- **Rows come back from a file**, column by column. -/
theorem readRows_fileText {rows : List (List Bytes)}
    (h : ∀ cols ∈ rows, cols ≠ [] ∧ ∀ col ∈ cols, RowText col) :
    readRows (fileText rows) = rows := by
  have hlines : linesOf (fileText rows) = rows.map lineText :=
    linesOf_textOf (List.forall_mem_map.2 fun cols hcols =>
      newline_not_mem_lineText (h cols hcols).2)
  rw [readRows, hlines, List.map_map]
  conv_rhs => rw [← List.map_id rows]
  refine List.map_congr_left fun cols hcols => ?_
  obtain ⟨hne, htexts⟩ := h cols hcols
  obtain ⟨col, cols, rfl⟩ := List.exists_cons_of_ne_nil hne
  show splitCsv ([','].intercalate (col :: cols)) = col :: cols
  rw [splitCsv_intercalate fun c hc => (htexts c hc).plain]
  conv_rhs => rw [← List.map_id (col :: cols)]
  exact List.map_congr_left fun c hc => trim_of_trimmed (htexts c hc).2

end Hft
