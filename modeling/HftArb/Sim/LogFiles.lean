import HftArb.Common.DictReader
import HftArb.Sim.OrderRows

/-!
# The text of the log files

`run_replay` prints its rows with `<<` and commas and escapes nothing.  It need not: `Legible` says
that no text of a run holds a separator, so that every row of every file comes back as it was printed,
with as many columns as the file's first line names (`run_legible`).
-/

namespace Hft

/-- `to_string(OrderState)`. -/
def OrderState.text : OrderState → String
  | .new => "NEW"
  | .sent => "SENT"
  | .acked => "ACKED"
  | .partial_ => "PARTIAL"
  | .filled => "FILLED"
  | .canceled => "CANCELED"
  | .rejected => "REJECTED"
  | .expired => "EXPIRED"

/-! ### Rows -/

/-- A natural number in a row. -/
def natCol (n : ℕ) : Bytes := (toString n).toList

/-- An integer in a row. -/
def intCol (z : ℤ) : Bytes := (toString z).toList

/-- The row `log_opportunity` prints. -/
def StrategyDecision.cols (d : StrategyDecision) : List Bytes :=
  if d.shouldTrade then
    let o := d.opportunity
    [o.parentArbId.toList, natCol o.tsDecisionNs, natCol o.instrumentId, o.buyVenue.text.toList,
      o.sellVenue.text.toList, intCol o.buyPricePaise, intCol o.sellPricePaise,
      intCol o.grossSpreadPaise, intCol o.netEdgePaise, intCol o.qty, o.reason.toList]
  else
    ["".toList, "0".toList, "0".toList, "UNKNOWN".toList, "UNKNOWN".toList, "0".toList, "0".toList,
      intCol d.bestGrossSpreadPaise, intCol d.bestNetEdgePaise, "0".toList, d.reason.toList]

/-- The row `log_order` prints. -/
def Order.cols (o : Order) : List Bytes :=
  [o.intent.parentArbId.toList, o.clientOrderId.toList, natCol o.intent.instrumentId,
    o.intent.venue.text.toList, o.intent.side.text.toList, o.intent.role.text.toList,
    intCol o.intent.pricePaise, intCol o.intent.qty, intCol o.filledQty, o.state.text.toList,
    natCol o.tsSentNs, natCol o.tsAckNs, natCol o.tsDoneNs, o.errCode.toList]

/-- The row `log_fill` prints. -/
def FillRow.cols (f : FillRow) : List Bytes :=
  [f.parentArbId.toList, f.clientOrderId.toList, natCol f.instrumentId, f.venue.toList,
    f.side.toList, intCol f.fillPxPaise, intCol f.fillQty, natCol f.tsFillNs]

/-- The row `log_risk` prints. -/
def RiskEvent.cols (e : RiskEvent) : List Bytes :=
  [natCol e.tsNs, e.severity.toList, e.ruleName.toList, natCol e.instrumentId, e.details.toList]

/-- The row `log_pair` prints. -/
def PairTrade.cols (p : PairTrade) : List Bytes :=
  [p.parentId.toList, natCol p.instrumentId, p.state.text.toList, intCol p.boughtQty,
    intCol p.soldQty, intCol p.residual, intCol p.hedgeAttempts, p.lastError.toList]

/-! ### Files -/

/-- A log file: what it names its columns and the rows printed. -/
structure LogFile where
  names : List String
  rows : List (List Bytes)

namespace LogFile

/-- The names as `open_logs` prints them. -/
def header (f : LogFile) : List Bytes := f.names.map String.toList

/-- The text of the file. -/
def text (f : LogFile) : Bytes := fileText (f.header :: f.rows)

/-- Every row has a column for every name, and no column holds a separator. -/
def Legible (f : LogFile) : Prop :=
  ∀ cols ∈ f.rows, cols.length = f.names.length ∧ ∀ col ∈ cols, RowText col

end LogFile

namespace Logs

/-- `opportunities.csv`. -/
def opportunitiesFile (l : Logs) : LogFile where
  names := ["parent_arb_id", "ts_decision_ns", "instrument_id", "buy_venue", "sell_venue",
    "buy_price_paise", "sell_price_paise", "gross_spread_paise", "net_edge_paise", "qty",
    "decision_reason"]
  rows := l.opportunities.map StrategyDecision.cols

/-- `orders.csv`. -/
def ordersFile (l : Logs) : LogFile where
  names := ["parent_arb_id", "client_order_id", "instrument_id", "venue", "side", "role",
    "price_paise", "qty", "filled_qty", "state", "ts_sent_ns", "ts_ack_ns", "ts_done_ns", "err_code"]
  rows := l.orders.map Order.cols

/-- `fills.csv`. -/
def fillsFile (l : Logs) : LogFile where
  names := ["parent_arb_id", "client_order_id", "instrument_id", "venue", "side", "fill_px_paise",
    "fill_qty", "ts_fill_ns"]
  rows := l.fills.map FillRow.cols

/-- `risk_events.csv`. -/
def risksFile (l : Logs) : LogFile where
  names := ["ts_ns", "severity", "rule_name", "instrument_id", "details"]
  rows := l.risks.map RiskEvent.cols

/-- `pair_trades.csv`. -/
def pairsFile (l : Logs) : LogFile where
  names := ["parent_arb_id", "instrument_id", "state", "bought_qty", "sold_qty", "residual",
    "hedge_attempts", "last_error"]
  rows := l.pairs.map PairTrade.cols

/-- The files of a run. -/
def files (l : Logs) : List LogFile :=
  [l.opportunitiesFile, l.ordersFile, l.fillsFile, l.risksFile, l.pairsFile]

end Logs

/-! ### Columns -/

theorem rowText_nat (n : ℕ) : RowText (natCol n) := (word_nat n).rowText

theorem rowText_int (z : ℤ) : RowText (intCol z) := (word_int z).rowText

theorem rowText_state (st : OrderState) : RowText st.text.toList := by cases st <;> decide

theorem rowText_pairState (st : PairState) : RowText st.text.toList := by cases st <;> decide

/-- A decision that can be printed. -/
def StrategyDecision.Legible (d : StrategyDecision) : Prop :=
  if d.shouldTrade then Word d.opportunity.parentArbId.toList ∧ Printable d.opportunity.reason
  else Printable d.reason

theorem StrategyDecision.Legible.cols {d : StrategyDecision} (h : d.Legible) :
    d.cols.length = 11 ∧ ∀ col ∈ d.cols, RowText col := by
  unfold StrategyDecision.Legible at h
  unfold StrategyDecision.cols
  split_ifs at h ⊢
  · obtain ⟨hparent, hreason⟩ := h
    refine ⟨rfl, ?_⟩
    simp only [List.forall_mem_cons]
    exact ⟨hparent.rowText, rowText_nat _, rowText_nat _, (word_venue _).rowText,
      (word_venue _).rowText, rowText_int _, rowText_int _, rowText_int _, rowText_int _,
      rowText_int _, hreason, List.forall_mem_nil _⟩
  · refine ⟨rfl, ?_⟩
    simp only [List.forall_mem_cons]
    exact ⟨by decide, by decide, by decide, by decide, by decide, by decide, by decide,
      rowText_int _, rowText_int _, by decide, h, List.forall_mem_nil _⟩

/-- An order that can be printed. -/
structure Order.Legible (o : Order) : Prop where
  parent : Word o.intent.parentArbId.toList
  id : Word o.clientOrderId.toList
  err : Printable o.errCode

theorem Order.Legible.cols {o : Order} (h : o.Legible) :
    o.cols.length = 14 ∧ ∀ col ∈ o.cols, RowText col := by
  refine ⟨rfl, ?_⟩
  simp only [Order.cols, List.forall_mem_cons]
  exact ⟨h.parent.rowText, h.id.rowText, rowText_nat _, (word_venue _).rowText,
    (word_side _).rowText, (word_role _).rowText, rowText_int _, rowText_int _, rowText_int _,
    rowText_state _, rowText_nat _, rowText_nat _, rowText_nat _, h.err,
    List.forall_mem_nil _⟩

/-- A fill of an order that can be printed. -/
theorem FillRow.Of.cols {f : FillRow} {o : Order} (hof : f.Of o) (h : o.Legible) :
    f.cols.length = 8 ∧ ∀ col ∈ f.cols, RowText col := by
  refine ⟨rfl, ?_⟩
  simp only [FillRow.cols, List.forall_mem_cons]
  rw [hof.parentArbId, hof.clientOrderId, hof.venue, hof.side]
  exact ⟨h.parent.rowText, h.id.rowText, rowText_nat _, (word_venue _).rowText,
    (word_side _).rowText, rowText_int _, rowText_int _, rowText_nat _, List.forall_mem_nil _⟩

/-- A risk event that can be printed. -/
structure RiskEvent.Legible (e : RiskEvent) : Prop where
  severity : Printable e.severity
  rule : Printable e.ruleName
  details : Printable e.details

theorem RiskEvent.Legible.cols {e : RiskEvent} (h : e.Legible) :
    e.cols.length = 5 ∧ ∀ col ∈ e.cols, RowText col := by
  refine ⟨rfl, ?_⟩
  simp only [RiskEvent.cols, List.forall_mem_cons]
  exact ⟨rowText_nat _, h.severity, h.rule, rowText_nat _, h.details, List.forall_mem_nil _⟩

/-- A pair that can be printed. -/
structure PairTrade.Legible (p : PairTrade) : Prop where
  parent : Word p.parentId.toList
  error : Printable p.lastError

theorem PairTrade.Legible.cols {p : PairTrade} (h : p.Legible) :
    p.cols.length = 8 ∧ ∀ col ∈ p.cols, RowText col := by
  refine ⟨rfl, ?_⟩
  simp only [PairTrade.cols, List.forall_mem_cons]
  exact ⟨h.parent.rowText, rowText_nat _, rowText_pairState _, rowText_int _, rowText_int _,
    rowText_int _, rowText_int _, h.error, List.forall_mem_nil _⟩

/-! ### Runs -/

namespace ReplayState

variable {env : Env} {s s' : ReplayState} {intent : OrderIntent}

/-- Everything on file can be printed. -/
structure Legible (s : ReplayState) : Prop where
  idPrefix : Word s.ids.idPrefix.toList
  kill : Printable s.risk.kill.reason
  opportunities : ∀ d ∈ s.logs.opportunities, d.Legible
  orders : ∀ o ∈ s.logs.orders, o.Legible
  risks : ∀ e ∈ s.logs.risks, e.Legible
  pairs : ∀ p ∈ s.logs.pairs, p.Legible

/-- The row of a sent order. -/
theorem Sendable.legible (h : s.Sendable intent) (nowNs : ℕ) :
    (s.sentRow env nowNs intent).Legible := by
  obtain ⟨hintent, hid, herr⟩ := @sentRow_spec env s intent h.sound nowNs
  refine ⟨?_, ?_, herr⟩
  · rw [hintent]
    exact h.parent
  · rw [hid]
    exact word_orderIdText h.parent _ _ _ _

theorem Legible.send (h : s.Legible) (hsend : s.Sendable intent) (nowNs : ℕ) :
    (s.sendOrder env nowNs intent).Legible :=
  ⟨h.idPrefix, h.kill, h.opportunities,
    List.forall_mem_append.2 ⟨h.orders, List.forall_mem_singleton.2 (hsend.legible nowNs)⟩, h.risks,
    h.pairs⟩

theorem Legible.write (h : s.Legible) (hw : Write env s s') : s'.Legible := by
  cases hw with
  | note hnote =>
    cases hnote with
    | silent hs =>
      refine ⟨?_, hs.kill h.kill, ?_, ?_, ?_, ?_⟩
      · rw [hs.idPrefix]
        exact h.idPrefix
      all_goals rw [hs.logs]
      exacts [h.opportunities, h.orders, h.risks, h.pairs]
    | block ts severity rule instrumentId details htexts =>
      obtain ⟨hseverity, hrule, hdetails⟩ := htexts h.kill
      exact ⟨h.idPrefix, h.kill, h.opportunities, h.orders, List.forall_mem_append.2
        ⟨h.risks, List.forall_mem_singleton.2 ⟨hseverity, hrule, hdetails⟩⟩, h.pairs⟩
    | leg nowNs intent hsend hrole => exact h.send hsend nowNs
    | hedge nowNs intent hsend hrole =>
      obtain ⟨hidWord, hkill, hopportunities, horders, hrisks, hpairs⟩ :=
        @Legible.send env s intent h hsend nowNs
      exact ⟨hidWord, hkill, hopportunities, horders, hrisks, hpairs⟩
  | watched d htrade hreason =>
    have hlegible : d.Legible := by
      rw [StrategyDecision.Legible, if_neg (by simp [htrade])]
      exact hreason
    exact ⟨h.idPrefix, h.kill, List.forall_mem_append.2
      ⟨h.opportunities, List.forall_mem_singleton.2 hlegible⟩, h.orders, h.risks, h.pairs⟩
  | announced d htrade hreason =>
    have hlegible : StrategyDecision.Legible { d with opportunity := { d.opportunity with
        parentArbId := (s.ids.nextParent d.opportunity.instrumentId).1 } } := by
      rw [StrategyDecision.Legible, if_pos htrade]
      exact ⟨word_parentIdText h.idPrefix _ _, hreason⟩
    exact ⟨h.idPrefix, h.kill, List.forall_mem_append.2
      ⟨h.opportunities, List.forall_mem_singleton.2 hlegible⟩, h.orders, h.risks, h.pairs⟩
  | pair p hparent herror =>
    exact ⟨h.idPrefix, h.kill, h.opportunities, h.orders, h.risks, List.forall_mem_append.2
      ⟨h.pairs, List.forall_mem_singleton.2 ⟨hparent, herror⟩⟩⟩

end ReplayState

/-- What is on file makes legible files. -/
theorem Logs.files_legible {s : ReplayState} (h : s.Legible) (hrec : s.logs.Reconciled) :
    ∀ f ∈ s.logs.files, f.Legible := by
  unfold Logs.files
  simp only [List.forall_mem_cons]
  refine ⟨?_, ?_, ?_, ?_, ?_, List.forall_mem_nil _⟩ <;> refine List.forall_mem_map.2 ?_
  · exact fun d hd => (h.opportunities d hd).cols
  · exact fun o ho => (h.orders o ho).cols
  · intro f hf
    obtain ⟨o, ho, hof⟩ := hrec.rows f hf
    exact hof.cols (h.orders o ho)
  · exact fun e he => (h.risks e he).cols
  · exact fun p hp => (h.pairs p hp).cols

/-- The names of the columns are texts themselves. -/
theorem Logs.files_header (l : Logs) :
    ∀ f ∈ l.files, 2 ≤ f.header.length ∧ ∀ col ∈ f.header, RowText col := by
  have hnames : ∀ f ∈ Logs.files {}, 2 ≤ f.header.length ∧ ∀ col ∈ f.header, RowText col := by
    decide +kernel
  unfold Logs.files at hnames ⊢
  simp only [List.forall_mem_cons] at hnames ⊢
  exact hnames

namespace Simulator

open ReplayState

variable {sim : Simulator}

theorem legible_start (lines : List Bytes) : (sim.start lines).Legible := by
  have hlogs : (sim.start lines).logs = {} := rfl
  refine ⟨show Word "SIM".toList from word_of_all (by decide), ?_, by simp [hlogs],
    by simp [hlogs], by simp [hlogs], by simp [hlogs]⟩
  unfold start
  dsimp only
  split_ifs
  · exact show Printable "MANUAL_KILL_SCENARIO" by decide
  · exact printable_empty

theorem legible_replayFor (cfg : SimConfig) (calls : List ReplayCall) (call : ReplayCall)
    (turns : ℕ) : ((afterRuns cfg calls).replayFor call turns).Legible :=
  replayFor_write (I := ReplayState.Legible) (afterRuns_spec cfg calls).1
    (afterRuns_keyed cfg calls) (legible_start _)
    (fun _ _ h => ⟨h.idPrefix, h.kill, h.opportunities, h.orders, h.risks, h.pairs⟩)
    (fun _ _ h hw => h.write hw) turns

/-- **The log files of a run are legible**, at every point of every run of a simulator that may have
run before: each row has a column for each name, and both `split_csv` on every line and Python's
`csv.reader` find the columns that were printed. -/
theorem run_legible (cfg : SimConfig) (calls : List ReplayCall) (call : ReplayCall) (turns : ℕ) :
    ∀ f ∈ ((afterRuns cfg calls).replayFor call turns).logs.files,
      f.Legible ∧ readRows f.text = f.header :: f.rows ∧ csvReader f.text = f.header :: f.rows := by
  intro f hf
  have hlegible := Logs.files_legible (legible_replayFor cfg calls call turns)
    (reconciled_replayFor cfg calls call turns).logs f hf
  obtain ⟨htwo, hheader⟩ := Logs.files_header _ f hf
  have hlen : f.header.length = f.names.length := List.length_map _
  have hrows : ∀ cols ∈ f.header :: f.rows, 2 ≤ cols.length ∧ ∀ col ∈ cols, RowText col := by
    refine List.forall_mem_cons.2 ⟨⟨htwo, hheader⟩, fun cols hcols => ?_⟩
    obtain ⟨hwidth, htexts⟩ := hlegible cols hcols
    exact ⟨by rw [hwidth, ← hlen]; exact htwo, htexts⟩
  refine ⟨hlegible, readRows_fileText fun cols hcols => ⟨?_, (hrows cols hcols).2⟩,
    csvReader_fileText hrows⟩
  rintro rfl
  exact absurd (hrows _ hcols).1 (by simp)

/-- A packet of NSE is missing, and the alarm is on file. -/
theorem run_legible_gap :
    let lines := ["1,1,NSE,1,1,ADD,1,1,ADD,1,BUY,120,100", "1,2,NSE,1,3,ADD,1,1,ADD,2,SELL,130,100"]
    let call : ReplayCall := ⟨⟨fun _ => 0, fun _ => .byId⟩, lines.map String.toList, 1⟩
    let f := ((afterRuns {} []).replayFor call 2).logs.risksFile
    f.rows.length = 1 ∧ f.Legible ∧ readRows f.text = f.header :: f.rows ∧
      csvReader f.text = f.header :: f.rows := by
  intro lines call f
  refine ⟨by decide +kernel, run_legible {} [] call 2 f ?_⟩
  simp only [Logs.files, List.mem_cons]
  exact Or.inr (Or.inr (Or.inr (Or.inl rfl)))

end Simulator

end Hft
