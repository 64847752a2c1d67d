import HftArb.Common.Doubles
import HftArb.Common.Rows
import HftArb.Lib.FiniteMap
import HftArb.Lib.OrderStatistics
import Mathlib.Data.List.DropRight
import Mathlib.Data.List.GetD

/-!
# The latency recorder

Threads record how long a stage took, `summary_csv` prints for each stage the count, three percentiles
and the maximum.  The mutex makes every call one step, so a history is a list of calls.

The ranks of the percentiles are computed in doubles.  `summaryCsv_exact` says that they are the exact
ones nevertheless, for up to 2^41 samples of a stage, and that every stage recorded since the last
`clear` has its own row, which reads back from the text if the names of the stages are plain.
-/

namespace Hft

open Std

/-- The recorder. -/
structure LatencyRecorder where
  data : ExtTreeMap String (List ℕ) := ∅

/-- A row of the summary. -/
structure SummaryRow where
  stage : String
  count : ℕ
  p50Ns : ℕ
  p99Ns : ℕ
  p999Ns : ℕ
  maxNs : ℕ

/-- `pct`: the sample at a fraction `p` of the way. -/
def pct (vals : List ℕ) (p : ℚ) : ℕ :=
  let idx := ⌊toDouble (p * toDouble (vals.length - 1 : ℕ))⌋.toNat
  vals.getD (if vals.length ≤ idx then vals.length - 1 else idx) 0

/-- What `summary_csv` computes from the samples of a stage. -/
def summaryRow (stage : String) (vals : List ℕ) : SummaryRow :=
  let vals := vals.mergeSort
  { stage
    count := vals.length
    p50Ns := pct vals (toDouble (1 / 2))
    p99Ns := pct vals (toDouble (99 / 100))
    p999Ns := pct vals (toDouble (999 / 1000))
    maxNs := vals.getLast?.getD 0 }

/-- The row as it is printed. -/
def SummaryRow.cols (r : SummaryRow) : List Bytes :=
  r.stage.toList :: [r.count, r.p50Ns, r.p99Ns, r.p999Ns, r.maxNs].map fun n => (toString n).toList

/-- The names of the columns. -/
def summaryHeader : List Bytes :=
  ["stage", "count", "p50_ns", "p99_ns", "p999_ns", "max_ns"].map String.toList

namespace LatencyRecorder

/-- `record`. -/
def record (r : LatencyRecorder) (stage : String) (ns : ℕ) : LatencyRecorder where
  data := r.data.insert stage (r.data[stage]?.getD [] ++ [ns])

/-- `clear`. -/
def clear (_ : LatencyRecorder) : LatencyRecorder := {}

/-- The order in which a loop meets the stages, which an unordered map leaves open. -/
def Walk (r : LatencyRecorder) (order : List String) : Prop :=
  order.Nodup ∧ ∀ stage, stage ∈ order ↔ stage ∈ r.data

/-- The rows of `summary_csv`, for an order of the stages. -/
def summary (r : LatencyRecorder) (order : List String) : List SummaryRow :=
  order.filterMap fun stage =>
    match r.data[stage]? with
    | none => none
    | some [] => none
    | some vals => some (summaryRow stage vals)

/-- `summary_csv`. -/
def summaryCsv (r : LatencyRecorder) (order : List String) : Bytes :=
  fileText (summaryHeader :: (r.summary order).map SummaryRow.cols)

end LatencyRecorder

/-- A call that changes the recorder. -/
inductive RecorderCall where
  | record (stage : String) (ns : ℕ)
  | clear
  deriving DecidableEq

/-- The recorder after a call. -/
def LatencyRecorder.exec (r : LatencyRecorder) : RecorderCall → LatencyRecorder
  | .record stage ns => r.record stage ns
  | .clear => r.clear

/-- The recorder after a history of calls. -/
def LatencyRecorder.after (calls : List RecorderCall) : LatencyRecorder :=
  calls.foldl LatencyRecorder.exec {}

/-! ### What is recorded -/

/-- The sample that a call adds to a stage. -/
def RecorderCall.sample (stage : String) : RecorderCall → Option ℕ
  | .record stage' ns => if stage' = stage then some ns else none
  | .clear => none

/-- The samples of a stage in a history, from the last `clear` on. -/
def samples (calls : List RecorderCall) (stage : String) : List ℕ :=
  (calls.rtakeWhile (· ≠ .clear)).filterMap (RecorderCall.sample stage)

theorem samples_record (calls : List RecorderCall) (stage stage' : String) (ns : ℕ) :
    samples (calls ++ [.record stage' ns]) stage =
      samples calls stage ++ if stage' = stage then [ns] else [] := by
  rw [samples, List.rtakeWhile_concat_pos _ _ _ (by simp), List.filterMap_append, samples]
  congr 1
  split_ifs with h
  · exact List.filterMap_cons_some (if_pos h)
  · exact List.filterMap_cons_none (if_neg h)

theorem samples_clear (calls : List RecorderCall) (stage : String) :
    samples (calls ++ [.clear]) stage = [] := by
  rw [samples, List.rtakeWhile_concat_neg _ _ _ (by simp), List.filterMap_nil]

/-- The recorder holds the samples of every stage that has some. -/
theorem LatencyRecorder.data_after (calls : List RecorderCall) (stage : String) :
    (after calls).data[stage]? =
      if samples calls stage = [] then none else some (samples calls stage) := by
  induction calls using List.reverseRecOn with
  | nil => simp [after, samples]
  | append_singleton calls call ih =>
    rw [after, List.foldl_append, List.foldl_cons, List.foldl_nil, ← after]
    cases call with
    | clear => simp [exec, clear, samples_clear]
    | record stage' ns =>
      rw [exec, record, samples_record, ExtTreeMap.getElem?_insert]
      by_cases h : stage' = stage
      · subst h
        have hne : samples calls stage' ++ [ns] ≠ [] := by simp
        rw [if_pos (compare_self (a := stage')), if_pos rfl, if_neg hne, ih]
        split_ifs with hnone
        · rw [hnone]
          rfl
        · rfl
      · rw [if_neg (by simpa using h), if_neg h, List.append_nil]
        exact ih

/-! ### Percentiles -/

/-- A percentile is the entry of its rank, taken with exact arithmetic. -/
theorem isRank_pct {vals : List ℕ} {r : ℚ} {a b : ℕ} (h : StandsFor r a b) (hb : 0 < b)
    (hsmall : b ≤ 1000) (hab : a ≤ b) (hne : vals ≠ []) (hlen : vals.length ≤ 2 ^ 41) :
    IsRank vals (a * (vals.length - 1) / b) (pct vals.mergeSort r) := by
  have hpos := List.length_pos_iff.2 hne
  have hidx : a * (vals.length - 1) / b < vals.length := by
    have hle : a * (vals.length - 1) / b ≤ vals.length - 1 :=
      Nat.div_le_of_le_mul (Nat.mul_le_mul_right _ hab)
    omega
  have hidx' : a * (vals.length - 1) / b < vals.mergeSort.length := by rwa [List.length_mergeSort]
  have hpct : pct vals.mergeSort r = vals.mergeSort[a * (vals.length - 1) / b] := by
    simp only [pct, List.length_mergeSort]
    rw [h.toNat_floor hb hsmall (by omega), if_neg (by omega), List.getD_eq_getElem]
  rw [hpct]
  exact IsRank.getElem (List.mergeSort_perm _ _) List.sortedLE_mergeSort _

/-- What a row says of the samples `vals` of its stage. -/
structure SummaryRow.Exact (r : SummaryRow) (vals : List ℕ) : Prop where
  count : r.count = vals.length
  p50 : IsRank vals (50 * (vals.length - 1) / 100) r.p50Ns
  p99 : IsRank vals (99 * (vals.length - 1) / 100) r.p99Ns
  p999 : IsRank vals (999 * (vals.length - 1) / 1000) r.p999Ns
  max : IsGreatest {ns | ns ∈ vals} r.maxNs

/-- The columns of a row grow from the median to the maximum. -/
theorem SummaryRow.Exact.sorted {r : SummaryRow} {vals : List ℕ} (h : r.Exact vals) :
    r.p50Ns ≤ r.p99Ns ∧ r.p99Ns ≤ r.p999Ns ∧ r.p999Ns ≤ r.maxNs :=
  ⟨h.p50.le h.p99 (by omega), h.p99.le h.p999 (by omega), h.max.2 h.p999.mem⟩

theorem summaryRow_exact {vals : List ℕ} (stage : String) (hne : vals ≠ [])
    (hlen : vals.length ≤ 2 ^ 41) : (summaryRow stage vals).Exact vals where
  count := List.length_mergeSort _
  p50 := by
    have h := isRank_pct standsFor_half two_pos (by norm_num) (by norm_num) hne hlen
    rwa [one_mul, ← Nat.mul_div_mul_left _ 2 (show 0 < 50 by norm_num)] at h
  p99 := isRank_pct standsFor_99 (by norm_num) (by norm_num) (by norm_num) hne hlen
  p999 := isRank_pct standsFor_999 (by norm_num) (by norm_num) (by norm_num) hne hlen
  max := by
    have hperm := List.mergeSort_perm vals (· ≤ ·)
    have hsort : vals.mergeSort ≠ [] := fun h => hne (List.Perm.eq_nil (h ▸ hperm.symm))
    have hmax : (summaryRow stage vals).maxNs = vals.mergeSort.getLast hsort := by
      simp only [summaryRow, List.getLast?_eq_getLast_of_ne_nil hsort, Option.getD_some]
    rw [hmax]
    refine ⟨hperm.subset (List.getLast_mem hsort), fun ns hns => ?_⟩
    obtain ⟨i, hi, rfl⟩ := List.getElem_of_mem (hperm.symm.subset hns)
    rw [List.getLast_eq_getElem]
    exact List.sortedLE_mergeSort.getElem_le_getElem_of_le (by omega)

/-! ### The summary -/

namespace LatencyRecorder

/-- The rows of a summary are those of the stages that have samples. -/
theorem summary_after {calls : List RecorderCall} {order : List String}
    (h : (after calls).Walk order) :
    (after calls).summary order = order.map fun stage => summaryRow stage (samples calls stage) := by
  rw [summary, ← List.filterMap_eq_map]
  refine List.filterMap_congr fun stage hmem => ?_
  have hdata := data_after calls stage
  have hsome := ExtTreeMap.isSome_getElem?_iff_mem.2 ((h.2 stage).1 hmem)
  rw [hdata] at hsome ⊢
  split_ifs at hsome ⊢ with hnone
  · cases hsome
  · cases hsamples : samples calls stage with
    | nil => exact absurd hsamples hnone
    | cons ns rest => rw [Function.comp_apply, hsamples]

/-- **The latency summary is exact.**  After any history of calls, in whatever order the map is
walked, the text of `summary_csv` is one row for every stage recorded since the last `clear`; its count
is the number of the samples, its percentiles stand at the exact ranks though they are computed in
doubles, and its columns grow up to the greatest sample.  The rows read back from the text if no name
of a stage holds a comma, a quote or a line end, or blanks at its ends. -/
theorem summaryCsv_exact {calls : List RecorderCall} {order : List String}
    (hwalk : (after calls).Walk order)
    (hlen : ∀ stage, (samples calls stage).length ≤ 2 ^ 41) :
    ∃ rows : List SummaryRow,
      (after calls).summaryCsv order = fileText (summaryHeader :: rows.map SummaryRow.cols) ∧
      ((∀ stage, samples calls stage ≠ [] → RowText stage.toList) →
        readRows ((after calls).summaryCsv order) = summaryHeader :: rows.map SummaryRow.cols) ∧
      (rows.map SummaryRow.stage).Nodup ∧
      (∀ stage, stage ∈ rows.map SummaryRow.stage ↔ samples calls stage ≠ []) ∧
      ∀ r ∈ rows, r.Exact (samples calls r.stage) ∧
        r.p50Ns ≤ r.p99Ns ∧ r.p99Ns ≤ r.p999Ns ∧ r.p999Ns ≤ r.maxNs := by
  have hmem : ∀ stage, stage ∈ order ↔ samples calls stage ≠ [] := fun stage => by
    rw [hwalk.2, ← ExtTreeMap.isSome_getElem?_iff_mem, data_after]
    split_ifs with h <;> simp [h]
  have hstages : ((after calls).summary order).map SummaryRow.stage = order := by
    rw [summary_after hwalk, List.map_map]
    exact List.map_id order
  refine ⟨(after calls).summary order, rfl, fun hnames => ?_, by rw [hstages]; exact hwalk.1,
    fun stage => ?_, ?_⟩
  · refine readRows_fileText (List.forall_mem_cons.2 ⟨⟨by decide, by decide⟩, ?_⟩)
    rw [summary_after hwalk, List.map_map]
    refine List.forall_mem_map.2 fun stage hstage => ⟨List.cons_ne_nil _ _, ?_⟩
    refine List.forall_mem_cons.2 ⟨?_, List.forall_mem_map.2 fun n _ => (word_nat n).rowText⟩
    exact hnames stage ((hmem stage).1 hstage)
  · rw [hstages, hmem]
  · rw [summary_after hwalk]
    refine List.forall_mem_map.2 fun stage hstage => ?_
    have hexact := summaryRow_exact stage ((hmem stage).1 hstage) (hlen stage)
    exact ⟨hexact, hexact.sorted⟩

/-- A recorder that was cleared in between. -/
def twoRisks : List RecorderCall :=
  [.record "risk" 7, .clear, .record "risk" 9, .record "risk" 3]

theorem summaryCsv_exact_risk : ∃ rows : List SummaryRow,
    readRows ((after twoRisks).summaryCsv ["risk"]) = summaryHeader :: rows.map SummaryRow.cols ∧
      ∀ r ∈ rows, r.Exact (samples twoRisks r.stage) := by
  have hsamples : ∀ stage, samples twoRisks stage = if "risk" = stage then [9, 3] else [] := by
    intro stage
    simp only [samples, twoRisks]
    rw [show List.rtakeWhile _ _ = [RecorderCall.record "risk" 9, .record "risk" 3] by decide]
    by_cases h : "risk" = stage <;> simp [RecorderCall.sample, h]
  have hwalk : (after twoRisks).Walk ["risk"] := by
    refine ⟨by decide, fun stage => ?_⟩
    rw [← ExtTreeMap.isSome_getElem?_iff_mem, data_after, hsamples]
    rw [List.mem_singleton, eq_comm]
    by_cases h : "risk" = stage <;> simp [h]
  have hnames : ∀ stage, samples twoRisks stage ≠ [] → RowText stage.toList := by
    intro stage h
    rw [hsamples] at h
    split_ifs at h with hstage
    · rw [← hstage]
      decide
    · exact absurd rfl h
  have hlen : ∀ stage, (samples twoRisks stage).length ≤ 2 ^ 41 := by
    intro stage
    rw [hsamples]
    split_ifs <;> norm_num
  obtain ⟨rows, -, hread, -, -, hexact⟩ := summaryCsv_exact hwalk hlen
  exact ⟨rows, hread hnames, fun r hr => (hexact r hr).1⟩

end LatencyRecorder

end Hft
