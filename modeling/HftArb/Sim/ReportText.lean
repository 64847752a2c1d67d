import HftArb.Sim.LogFiles
import HftArb.Sim.Report

/-!
# `tools/report_pnl.py` on the text of `fills.csv`

`reportPnl` starts from the rows of `fills.csv`; the script starts from its text, which it reads with
`csv.DictReader` and `int`.  `run_reportText` puts the two together: the report that is made of the
file a run leaves is that of its pairs.
-/

namespace Hft

open Std (ExtTreeMap)

/-! ### `int` -/

/-- `str.isspace` on ASCII. -/
def pySpace (c : Char) : Bool := isspace c || (28 ≤ c.toNat && c.toNat ≤ 31)

/-- `str.strip`. -/
def pyStrip (s : Bytes) : Bytes := ((s.dropWhile pySpace).reverse.dropWhile pySpace).reverse

/-- The numeral without its sign. -/
def unsigned : Bytes → Bytes
  | '+' :: s => s
  | '-' :: s => s
  | s => s

/-- `int` on ASCII; `none` is a `ValueError`.  Single underscores may stand between digits. -/
def pyInt (s : Bytes) : Option ℤ :=
  let t := pyStrip s
  let digits := unsigned t
  if digits.head? = some '_' ∨ digits.getLast? = some '_' ∨ ['_', '_'] <:+: digits then none
  else denoted (t.filter fun c => c ≠ '_')

example : pyInt " -1_200\n".toList = some (-1200) := by decide +kernel

theorem mem_intCol {z : ℤ} {c : Char} (hc : c ∈ intCol z) : c = '-' ∨ c.isDigit = true := by
  unfold intCol at hc
  cases z with
  | ofNat n => exact Or.inr (isDigit_of_mem hc)
  | negSucc n =>
    rw [toString_neg, List.mem_cons] at hc
    exact hc.imp id isDigit_of_mem

theorem dropWhile_of_none {p : Char → Bool} {s : Bytes} (h : ∀ c ∈ s, p c = false) :
    s.dropWhile p = s := by
  cases s with
  | nil => rfl
  | cons c s => exact List.dropWhile_cons_of_neg (by simp [h c List.mem_cons_self])

theorem pyStrip_of_none {s : Bytes} (h : ∀ c ∈ s, pySpace c = false) : pyStrip s = s := by
  rw [pyStrip, dropWhile_of_none h,
    dropWhile_of_none fun c hc => h c (List.mem_reverse.1 hc), List.reverse_reverse]

theorem mem_of_mem_unsigned {s : Bytes} {c : Char} (h : c ∈ unsigned s) : c ∈ s := by
  unfold unsigned at h
  split at h
  · exact List.mem_cons_of_mem _ h
  · exact List.mem_cons_of_mem _ h
  · exact h

/-- A number that was printed is read. -/
theorem pyInt_intCol (z : ℤ) : pyInt (intCol z) = some z := by
  have hspace : ∀ c ∈ intCol z, pySpace c = false := by
    intro c hc
    rcases mem_intCol hc with rfl | hdigit
    · decide
    · have hlo : 48 ≤ c.toNat := by
        rw [Char.isDigit, Bool.and_eq_true, decide_eq_true_eq] at hdigit
        exact UInt32.le_iff_toNat_le.1 hdigit.1
      rw [pySpace, isspace_of_isDigit hdigit]
      simp only [Bool.false_or, Bool.and_eq_false_iff, decide_eq_false_iff_not]
      omega
  have hunderscore : '_' ∉ intCol z := by
    intro hc
    rcases mem_intCol hc with heq | hdigit
    · cases heq
    · exact absurd hdigit (by decide)
  have hdigits : '_' ∉ unsigned (intCol z) := fun h => hunderscore (mem_of_mem_unsigned h)
  have hplain : ¬ ((unsigned (intCol z)).head? = some '_' ∨
      (unsigned (intCol z)).getLast? = some '_' ∨ ['_', '_'] <:+: unsigned (intCol z)) := by
    rintro (h | h | h)
    · exact hdigits (List.mem_of_mem_head? h)
    · exact hdigits (List.mem_of_mem_getLast? h)
    · exact hdigits (h.subset List.mem_cons_self)
  have hfilter : (intCol z).filter (fun c => c ≠ '_') = intCol z := by
    rw [List.filter_eq_self]
    intro c hc
    have hne : c ≠ '_' := fun heq => hunderscore (heq ▸ hc)
    simpa using hne
  rw [pyInt, pyStrip_of_none hspace, if_neg hplain, hfilter]
  exact denoted_int z

/-! ### The report -/

/-- What the loop takes from a row; `none` is an exception.  Where the row is too short the parent is
`None`, and so is the side, which is no buy. -/
def pnlRow (row : DictRow) : Option (Option Bytes × FillRow) := do
  let parent ← row.get "parent_arb_id"
  let side ← row.get "side"
  let px ← pyInt (← (← row.get "fill_px_paise"))
  let qty ← pyInt (← (← row.get "fill_qty"))
  return (parent, {
    parentArbId := String.ofList (parent.getD [])
    clientOrderId := ""
    instrumentId := 0
    venue := ""
    side := String.ofList (side.getD [])
    fillPxPaise := px
    fillQty := qty
    tsFillNs := 0 })

/-- `by_parent` for the text of a file, each parent as it is printed: `None` is an empty text.
`none` is an exception. -/
def reportPnlText (text : Bytes) : Option (ExtTreeMap String PnlRecord) := do
  let rows ← (dictReader text).mapM pnlRow
  -- `sorted` does not compare `None` with the other parents
  guard ¬ ((rows.any fun row => row.1.isNone) ∧ rows.any fun row => row.1.isSome)
  return reportPnl (rows.map Prod.snd)

/-- The columns that the report does not look at. -/
def FillRow.counted (f : FillRow) : FillRow :=
  { f with clientOrderId := "", instrumentId := 0, venue := "", tsFillNs := 0 }

theorem reportPnl_counted (rows : List FillRow) :
    reportPnl (rows.map FillRow.counted) = reportPnl rows := by
  rw [reportPnl, List.foldl_map]
  rfl

/-- The row of a fill, as it is read. -/
theorem pnlRow_cols (f : FillRow) :
    pnlRow ((Logs.fillsFile {}).header.zip (f.cols.map some)) =
      some (some f.parentArbId.toList, f.counted) := by
  have hpx : pyInt (intCol f.fillPxPaise) = some f.fillPxPaise := pyInt_intCol _
  have hqty : pyInt (intCol f.fillQty) = some f.fillQty := pyInt_intCol _
  have hrow : pnlRow ((Logs.fillsFile {}).header.zip (f.cols.map some)) = (do
      let px ← pyInt (intCol f.fillPxPaise)
      let qty ← pyInt (intCol f.fillQty)
      return (some f.parentArbId.toList, { f.counted with
        parentArbId := String.ofList f.parentArbId.toList
        side := String.ofList f.side.toList
        fillPxPaise := px
        fillQty := qty })) := rfl
  rw [hrow, hpx, hqty, String.ofList_toList, String.ofList_toList]
  rfl

theorem fillsFile_mem (l : Logs) : l.fillsFile ∈ l.files := by simp [Logs.files]

/-- The report made of the text of a legible file is that of its rows. -/
theorem reportPnlText_fillsFile {l : Logs} (h : l.fillsFile.Legible) :
    reportPnlText l.fillsFile.text = some (reportPnl l.fills) := by
  have hread : dictReader l.fillsFile.text =
      (l.fills.map FillRow.cols).map fun cols => l.fillsFile.header.zip (cols.map some) :=
    dictReader_fileText (Logs.files_header l _ (fillsFile_mem l)) fun cols hcols =>
      ⟨(h cols hcols).1.trans (List.length_map _).symm, (h cols hcols).2⟩
  rw [List.map_map] at hread
  have hrows : (dictReader l.fillsFile.text).mapM pnlRow =
      some (l.fills.map fun f => (some f.parentArbId.toList, f.counted)) := by
    rw [hread]
    exact mapM_map_eq_some pnlRow_cols l.fills
  -- every row has its parent
  have hparents : (l.fills.map fun f => (some f.parentArbId.toList, f.counted)).any
      (fun row => row.1.isNone) = false := by simp
  have hcounted : (l.fills.map fun f => (some f.parentArbId.toList, f.counted)).map Prod.snd =
      l.fills.map FillRow.counted := List.map_map ..
  rw [reportPnlText, hrows, Option.bind_eq_bind, Option.bind_some, hparents, hcounted,
    reportPnl_counted]
  rfl

/-! ### Runs -/

/-- The record of the report is that of the pair. -/
structure PnlRecord.Of (r : PnlRecord) (p : PairTrade) : Prop where
  buyQty : r.buyQty = p.boughtQty
  sellQty : r.sellQty = p.soldQty
  residualQty : r.residualQty = p.residual
  sharesTraded : r.sharesTraded = p.boughtQty + p.soldQty
  grossCashPaise : r.grossCashPaise = p.soldNotionalPaise - p.boughtNotionalPaise

/-- Every share that is traded is bought or sold. -/
theorem sharesTraded_foldl (rows : List FillRow) (r : PnlRecord)
    (h : r.sharesTraded = r.buyQty + r.sellQty) :
    (rows.foldl PnlRecord.add r).sharesTraded =
      (rows.foldl PnlRecord.add r).buyQty + (rows.foldl PnlRecord.add r).sellQty := by
  induction rows generalizing r with
  | nil => exact h
  | cons row rows ih =>
    refine ih _ ?_
    simp only [PnlRecord.add]
    split_ifs <;> omega

namespace Simulator

/-- **The report on the file of a run is that of its pairs**, at every point of every run of a
simulator that may have run before: `report_pnl.py` reads `fills.csv` without an exception, lists no
other parents than those of `pair_trades.csv`, and finds for each pair what it bought, sold and
earned. -/
theorem run_reportText (cfg : SimConfig) (calls : List ReplayCall) (call : ReplayCall) (turns : ℕ) :
    let l := ((afterRuns cfg calls).replayFor call turns).logs
    ∃ report, reportPnlText l.fillsFile.text = some report ∧
      (∀ parent ∈ report, ∃ p ∈ l.pairs, p.parentId = parent) ∧
      ∀ p ∈ l.pairs, ((report[p.parentId]?).getD {}).Of p := by
  intro l
  have hledger := (balanced_replayFor (afterRuns_spec cfg calls).1 call turns).oneLedger
  have hfile : l.fillsFile.Legible := Logs.files_legible (legible_replayFor cfg calls call turns)
    (reconciled_replayFor cfg calls call turns).logs _ (fillsFile_mem l)
  refine ⟨reportPnl l.fills, reportPnlText_fillsFile hfile, hledger.reported, fun p hp => ?_⟩
  obtain ⟨hbuy, hsell, hresidual, hcash⟩ := hledger.report p hp _ rfl
  refine ⟨hbuy, hsell, hresidual, ?_, hcash⟩
  rw [← hbuy, ← hsell, reportPnl_getD]
  exact sharesTraded_foldl _ {} rfl

end Simulator

end Hft
