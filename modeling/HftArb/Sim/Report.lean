import HftArb.Sim.Accounts

/-!
# `tools/report_pnl.py`: the report on the logged fills

The script groups the rows of `fills.csv` by parent in a dictionary.  `reportPnl_getD` says what it
finds for a parent; over the rows of fills these are again side sums (`report_fills`).
-/

namespace Hft

open Std (ExtTreeMap LawfulEqCmp)

/-- A value of the dictionary `by_parent`. -/
structure PnlRecord where
  grossCashPaise : ℤ := 0
  sharesTraded : ℤ := 0
  buyQty : ℤ := 0
  sellQty : ℤ := 0
  deriving DecidableEq, Repr

namespace PnlRecord

/-- The column `residual_qty`. -/
def residualQty (r : PnlRecord) : ℤ := r.buyQty - r.sellQty

/-- The record after a row. -/
def add (r : PnlRecord) (row : FillRow) : PnlRecord where
  grossCashPaise := r.grossCashPaise +
    if row.side = "BUY" then -row.fillPxPaise * row.fillQty else row.fillPxPaise * row.fillQty
  sharesTraded := r.sharesTraded + row.fillQty
  buyQty := if row.side = "BUY" then r.buyQty + row.fillQty else r.buyQty
  sellQty := if row.side = "BUY" then r.sellQty else r.sellQty + row.fillQty

end PnlRecord

/-- The loop over the rows. -/
def reportPnl (rows : List FillRow) : ExtTreeMap String PnlRecord :=
  rows.foldl
    (fun m row => m.insert row.parentArbId (((m[row.parentArbId]?).getD {}).add row)) ∅

theorem reportPnl_append (rows : List FillRow) (row : FillRow) :
    reportPnl (rows ++ [row]) = (reportPnl rows).insert row.parentArbId
      ((((reportPnl rows)[row.parentArbId]?).getD {}).add row) := by
  simp [reportPnl]

/-- What the report finds for a parent: its own rows, added up. -/
theorem reportPnl_getD (rows : List FillRow) (parent : String) :
    ((reportPnl rows)[parent]?).getD {} =
      (rows.filter fun row => row.parentArbId = parent).foldl PnlRecord.add {} := by
  induction rows using List.reverseRecOn with
  | nil => simp [reportPnl]
  | append_singleton rows row ih =>
    rw [reportPnl_append, ExtTreeMap.getElem?_insert, List.filter_append, List.foldl_append, ← ih]
    by_cases hrow : row.parentArbId = parent
    · simp [hrow]
    · simp [hrow]

/-- The report has a row for a parent only if one of the logged fills is its own. -/
theorem mem_reportPnl {rows : List FillRow} {parent : String} (h : parent ∈ reportPnl rows) :
    ∃ row ∈ rows, row.parentArbId = parent := by
  induction rows using List.reverseRecOn with
  | nil => simp [reportPnl] at h
  | append_singleton rows row ih =>
    rw [reportPnl_append, ExtTreeMap.mem_insert, LawfulEqCmp.compare_eq_iff_eq] at h
    rcases h with heq | hmem
    · exact ⟨row, by simp, heq⟩
    · obtain ⟨row', hrow', heq⟩ := ih hmem
      exact ⟨row', List.mem_append_left _ hrow', heq⟩

/-- Rows of buys and sells add up to side sums. -/
theorem report_fills (fs : List Fill) (hside : ∀ f ∈ fs, f.side ≠ .unknown) :
    let r := (fs.map Fill.row).foldl PnlRecord.add {}
    r.buyQty = sideSum .buy Fill.fillQty fs ∧ r.sellQty = sideSum .sell Fill.fillQty fs ∧
      r.grossCashPaise = sideSum .sell Fill.notional fs - sideSum .buy Fill.notional fs := by
  induction fs using List.reverseRecOn with
  | nil => exact ⟨rfl, rfl, rfl⟩
  | append_singleton fs f ih =>
    obtain ⟨hbuy, hsell, hcash⟩ := ih fun f' hf' => hside f' (List.mem_append_left _ hf')
    have hf := hside f (by simp)
    simp only [List.map_append, List.foldl_append, List.map_cons, List.map_nil, List.foldl_cons,
      List.foldl_nil, sideSum_append, sideSum_singleton]
    cases hs : f.side with
    | buy =>
      simp [PnlRecord.add, Fill.row, hs, Side.text, hbuy, hsell, hcash, Fill.notional]
      ring
    | sell =>
      simp [PnlRecord.add, Fill.row, hs, Side.text, hbuy, hsell, hcash, Fill.notional]
      ring
    | unknown => exact absurd hs hf

end Hft
