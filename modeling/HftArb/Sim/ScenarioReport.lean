import HftArb.Common.DictReader

/-!
# `apps/scenario_suite` and `tools/scenario_report.py`: the scenario report

The suite writes its rows with `esc`, the script reads them with `csv.DictReader` and prints a table
of Markdown.
-/

namespace Hft

/-- `struct Row` of `scenario_suite`. -/
structure ScenarioRow where
  id : Bytes
  scenario : Bytes
  expected : Bytes
  actual : Bytes
  status : Bytes
  deriving DecidableEq, Repr

namespace ScenarioRow

/-- The columns of a row. -/
def cols (r : ScenarioRow) : List Bytes := [r.id, r.scenario, r.expected, r.actual, r.status]

/-- The names in the first line. -/
def names : List Bytes :=
  ["id".toList, "scenario".toList, "expected".toList, "actual".toList, "status".toList]

end ScenarioRow

/-- `scenario_report.csv`. -/
def scenarioCsv (rows : List ScenarioRow) : Bytes :=
  fileText (ScenarioRow.names :: rows.map fun r => r.cols.map esc)

/-- A column in an f-string. -/
def formatted : Option Bytes → Bytes
  | some s => s
  | none => "None".toList

/-- A line of the table. -/
def tableLine (id scenario expected actual status : Bytes) : Bytes :=
  "| ".toList ++ id ++ " | ".toList ++ scenario ++ " | ".toList ++ expected ++ " | ".toList ++
    actual ++ " | ".toList ++ status ++ " |\n".toList

/-- What stands above the lines of the table. -/
def tableHead : Bytes :=
  "# Scenario Report\n\n".toList ++ "| ID | Scenario | Expected | Actual | Status |\n".toList ++
    "|---|---|---|---|---|\n".toList

/-- The line that `scenario_report.py` prints for a row; `none` is a `KeyError`. -/
def reportLine (r : DictRow) : Option Bytes := do
  let id ← r.get "id"
  let scenario ← r.get "scenario"
  let expected ← r.get "expected"
  let actual ← r.get "actual"
  let status ← r.get "status"
  return tableLine (formatted id) (formatted scenario) (formatted expected) (formatted actual)
    (formatted status)

/-- `main` of `scenario_report.py`, from the text of the file to that of the report; `none` is a
`csv.Error` or a `KeyError`. -/
def scenarioReport (text : Bytes) : Option Bytes := do
  guard (FieldsFit text)
  let lines ← (dictReader text).mapM reportLine
  return tableHead ++ lines.flatten

/-- The line of a row that was read. -/
theorem reportLine_cols (r : ScenarioRow) :
    reportLine (ScenarioRow.names.zip (r.cols.map some)) =
      some (tableLine r.id r.scenario r.expected r.actual r.status) := rfl

/-- The rows of the suite's file, each column as `esc` writes it. -/
theorem scenarioCsv_eq (rows : List ScenarioRow) :
    scenarioCsv rows = fileText (encodedRow (escaped ScenarioRow.names) ::
      (rows.map fun r => escaped r.cols).map encodedRow) := by
  rw [scenarioCsv, List.map_map]
  rfl

/-- What the script reads of the suite's file. -/
theorem dictReader_scenarioCsv {rows : List ScenarioRow}
    (h : ∀ r ∈ rows, ∀ col ∈ r.cols, '\r' ∉ col) :
    dictReader (scenarioCsv rows) =
      rows.map fun r => ScenarioRow.names.zip (r.cols.map some) := by
  have hread := @dictReader_encoded (escaped ScenarioRow.names) (rows.map fun r => escaped r.cols)
    (by decide) (List.forall_mem_map.2 fun r hr => ⟨rfl, no_return_escaped (h r hr)⟩)
  rw [scenarioCsv_eq, hread, List.map_map]
  rfl

/-- The file keeps to the limit of `csv.reader` when its texts do. -/
theorem fieldsFit_scenarioCsv {rows : List ScenarioRow}
    (h : ∀ r ∈ rows, ∀ col ∈ r.cols, '\r' ∉ col) :
    FieldsFit (scenarioCsv rows) ↔ ∀ r ∈ rows, ∀ col ∈ r.cols, col.length ≤ fieldSizeLimit := by
  have hcols : ∀ row ∈ rows.map fun r => escaped r.cols, 2 ≤ row.length ∧ ∀ f ∈ row, '\r' ∉ f.2 := by
    refine List.forall_mem_map.2 fun r hr => ⟨?_, no_return_escaped (h r hr)⟩
    show 2 ≤ 5
    decide
  have hread : csvReader (scenarioCsv rows) = ScenarioRow.names :: rows.map ScenarioRow.cols := by
    have henc := csvReader_encoded (List.forall_mem_cons.2
      ⟨(by decide : 2 ≤ (escaped ScenarioRow.names).length ∧ ∀ f ∈ escaped ScenarioRow.names,
        '\r' ∉ f.2), hcols⟩)
    rw [List.map_cons, ← scenarioCsv_eq, List.map_cons, List.map_map] at henc
    exact henc
  rw [FieldsFit, hread, List.forall_mem_cons, List.forall_mem_map]
  exact and_iff_right (by decide)

/-- **The report shows what the suite wrote.**  Commas, quotes, line ends and blanks in any column of
`scenario_report.csv` come through to the table, as long as no column has a carriage return; a column
over the limit of `csv.reader`, and nothing else, is an exception. -/
theorem scenarioReport_csv {rows : List ScenarioRow} (h : ∀ r ∈ rows, ∀ col ∈ r.cols, '\r' ∉ col) :
    scenarioReport (scenarioCsv rows) =
      if ∀ r ∈ rows, ∀ col ∈ r.cols, col.length ≤ fieldSizeLimit then
        some (tableHead ++ (rows.map fun r =>
          tableLine r.id r.scenario r.expected r.actual r.status).flatten)
      else none := by
  rw [scenarioReport, dictReader_scenarioCsv h, mapM_map_eq_some reportLine_cols]
  split_ifs with hfit
  · rw [guard, if_pos ((fieldsFit_scenarioCsv h).2 hfit)]
    rfl
  · rw [guard, if_neg (mt (fieldsFit_scenarioCsv h).1 hfit)]
    rfl

/-- A row with a comma, a quote and a line end. -/
theorem scenarioReport_csv_quoted : scenarioReport (scenarioCsv
      [⟨"S01".toList, "a,\"b\"".toList, "x\ny".toList, [], "PASS".toList⟩]) =
    some (tableHead ++ tableLine "S01".toList "a,\"b\"".toList "x\ny".toList [] "PASS".toList) :=
  (@scenarioReport_csv [⟨"S01".toList, "a,\"b\"".toList, "x\ny".toList, [], "PASS".toList⟩]
    (by decide)).trans (if_pos (by decide))

end Hft
