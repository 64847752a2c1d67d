import HftArb.Oms.Overfill
import HftArb.Oms.ReportOrder
import HftArb.Sim.Simulator

/-!
# `oms/reconciler`, and what an order manager accounts for

A run of an order manager is any sequence of submissions, reports and `take_new_fills`, through any
gateways: reports may be late, repeated, about other orders or about none.  `Ledger` is what all of
them keep: the fills on record add up to the filled quantities of the orders and to the positions.
`oms_reconciles` adds what the callers see: every fill is taken once, and `on_external_fill` raises
`ORPHAN_FILL` for exactly the ids that no submission returned.
-/

namespace Hft

open Std (ExtTreeMap LawfulEqCmp)

/-- `known_order`. -/
def OrderManager.knownOrder (m : OrderManager) (clientOrderId : String) : Bool :=
  m.orders.contains clientOrderId

/-- `Reconciler::on_external_fill`. -/
def onExternalFill (f : Fill) (oms : OrderManager) : Option RiskEvent :=
  if ¬ oms.knownOrder f.clientOrderId then
    some
      { tsNs := f.tsFillNs
        severity := "HIGH"
        ruleName := "ORPHAN_FILL"
        instrumentId := f.instrumentId
        details := "\x7b\"client_order_id\":\"" ++ f.clientOrderId ++ "\"\x7d" }
  else none

/-- The quantity of the fills under an id. -/
def filledFor (id : String) (fills : List Fill) : ℤ :=
  ((fills.filter fun f => f.clientOrderId = id).map Fill.fillQty).sum

theorem filledFor_append (id : String) (fills fills' : List Fill) :
    filledFor id (fills ++ fills') = filledFor id fills + filledFor id fills' := by
  unfold filledFor
  rw [List.filter_append, List.map_append, List.sum_append]

/-- The fill is one of the order. -/
structure Fill.Of (f : Fill) (o : Order) : Prop where
  parentArbId : f.parentArbId = o.intent.parentArbId
  instrumentId : f.instrumentId = o.intent.instrumentId
  venue : f.venue = o.intent.venue
  side : f.side = o.intent.side

namespace OrderManager

/-! ### The ledger -/

/-- What an order manager has on record fits together, when it began with these positions and these
fills were taken. -/
structure Ledger (positions : PositionBook) (taken : List Fill) (m : OrderManager) : Prop where
  known : m.KnownIds
  orders : ∀ id o, m.orders[id]? = some o →
    o.clientOrderId = id ∧ o.filledQty = filledFor id m.fills
  fills : ∀ f ∈ m.fills, ∃ o, m.orders[f.clientOrderId]? = some o ∧ f.Of o
  positions : m.positions = m.fills.foldl PositionBook.apply positions
  taken : m.fills.take m.consumedFills = taken
  consumed : m.consumedFills ≤ m.fills.length

variable {positions : PositionBook} {taken : List Fill} {m : OrderManager}

theorem ledger_start (positions : PositionBook) :
    Ledger positions [] { positions := positions } where
  known k hk := by simp at hk
  orders id o ho := by simp at ho
  fills f hf := nomatch hf
  positions := rfl
  taken := rfl
  consumed := le_rfl

/-- What a report adds to the fills under an id. -/
theorem Ledger.filledFor_fillBy (h : Ledger positions taken m) (r : ExecutionReport) {id : String}
    {o : Order} (ho : m.orders[id]? = some o) :
    filledFor id (m.fillBy r).toList = if id = r.clientOrderId then r.fillQty else 0 := by
  have hid := (h.orders id o ho).1
  unfold fillBy ExecutionReport.fillQty
  by_cases hfill : r.type = .fill
  · by_cases heq : id = r.clientOrderId
    · subst heq
      simp [hfill, ho, filledFor, Order.fillOf, hid]
    · cases ho' : m.orders[r.clientOrderId]? with
      | none => simp [hfill, heq, filledFor]
      | some o' =>
        have hne : r.clientOrderId ≠ id := Ne.symm heq
        simp [hfill, heq, filledFor, Order.fillOf, (h.orders _ o' ho').1, hne]
  · simp [hfill, filledFor]

/-- Any report keeps the ledger. -/
theorem Ledger.onReport (h : Ledger positions taken m) (r : ExecutionReport) :
    Ledger positions taken (m.onReport r) := by
  obtain ⟨hfills, hpositions⟩ := onReport_fills m r
  have hconsumed : (m.onReport r).consumedFills = m.consumedFills := by
    unfold OrderManager.onReport
    cases m.orders[r.clientOrderId]? with
    | none => rfl
    | some o =>
      dsimp only
      split_ifs <;> rfl
  refine ⟨h.known.onReport r, fun id o ho => ?_, fun f hf => ?_, ?_, ?_, ?_⟩
  · rw [orders_onReport] at ho
    rw [hfills, filledFor_append]
    split_ifs at ho with hid
    · obtain ⟨o₀, ho₀, rfl⟩ := Option.map_eq_some_iff.1 ho
      obtain ⟨hkey, hqty⟩ := h.orders id o₀ ho₀
      rw [h.filledFor_fillBy r ho₀, if_pos hid, Order.filledQty_report, hqty]
      exact ⟨(clientOrderId_report o₀ r).trans hkey, rfl⟩
    · obtain ⟨hkey, hqty⟩ := h.orders id o ho
      rw [h.filledFor_fillBy r ho, if_neg hid, add_zero]
      exact ⟨hkey, hqty⟩
  · have hfind : ∃ o, m.orders[f.clientOrderId]? = some o ∧ f.Of o := by
      rw [hfills] at hf
      rcases List.mem_append.1 hf with hold | hnew
      · exact h.fills f hold
      · unfold fillBy at hnew
        split_ifs at hnew
        · obtain ⟨o, ho, rfl⟩ := Option.map_eq_some_iff.1 (Option.mem_toList.1 hnew)
          have hkey : (o.fillOf r).clientOrderId = r.clientOrderId := (h.orders _ o ho).1
          exact ⟨o, by rw [hkey, ho], rfl, rfl, rfl, rfl⟩
        · cases hnew
    obtain ⟨o, ho, hof⟩ := hfind
    rw [orders_onReport]
    split_ifs
    · refine ⟨o.report r, by rw [ho]; rfl, ?_⟩
      obtain ⟨hparent, hinstrument, hvenue, hside⟩ := hof
      constructor <;> rw [intent_report] <;> assumption
    · exact ⟨o, ho, hof⟩
  · rw [hpositions, hfills, h.positions, List.foldl_append]
  · rw [hconsumed, hfills, List.take_append_of_le_length h.consumed, h.taken]
  · rw [hconsumed, hfills, List.length_append]
    exact h.consumed.trans (Nat.le_add_right _ _)

/-- Opening an order keeps the ledger: nothing was filled under its id. -/
theorem Ledger.opened (h : Ledger positions taken m) (intent : OrderIntent) (nowNs : ℕ) :
    Ledger positions taken (m.opened intent nowNs) := by
  have hnew := h.known.nextId_new intent
  have hlookup : ∀ id, (m.opened intent nowNs).orders[id]? =
      if id = m.nextId intent then some (newOrder intent (m.nextId intent) nowNs)
      else m.orders[id]? := by
    intro id
    by_cases hid : id = m.nextId intent
    · subst hid
      simp [OrderManager.opened]
    · have hne : compare (m.nextId intent) id ≠ .eq := fun h =>
        hid (LawfulEqCmp.eq_of_compare h).symm
      simp [OrderManager.opened, hid, ExtTreeMap.getElem?_insert, hne]
  have hstored : ∀ f ∈ m.fills, f.clientOrderId ≠ m.nextId intent := by
    intro f hf heq
    obtain ⟨o, ho, -⟩ := h.fills f hf
    rw [heq, ExtTreeMap.getElem?_eq_none hnew] at ho
    cases ho
  refine ⟨h.known.opened intent nowNs, fun id o ho => ?_, fun f hf => ?_, h.positions, h.taken,
    h.consumed⟩
  · rw [hlookup] at ho
    split_ifs at ho with hid
    · cases ho
      subst hid
      have hnone : m.fills.filter (fun f => f.clientOrderId = m.nextId intent) = [] :=
        List.filter_eq_nil_iff.2 fun f hf => by simpa using hstored f hf
      exact ⟨rfl, by simp [newOrder, OrderManager.opened, filledFor, hnone]⟩
    · exact h.orders id o ho
  · obtain ⟨o, ho, hof⟩ := h.fills f hf
    exact ⟨o, by rw [hlookup, if_neg (hstored f hf), ho], hof⟩

/-- What a run of reports leads to. -/
theorem Ledger.foldl_onReport (h : Ledger positions taken m) (id parent : String)
    (reports : List ExecutionReport) :
    let m' := reports.foldl (fun m r => (m.onReport (r.completed id parent)).observed) m
    Ledger positions taken m' ∧ ∀ k, k ∈ m'.orders ↔ k ∈ m.orders := by
  induction reports generalizing m with
  | nil => exact ⟨h, fun k => Iff.rfl⟩
  | cons r reports ih =>
    have hreport := h.onReport (r.completed id parent)
    have hobserved : Ledger positions taken (m.onReport (r.completed id parent)).observed :=
      ⟨hreport.known, hreport.orders, hreport.fills, hreport.positions, hreport.taken,
        hreport.consumed⟩
    obtain ⟨hledger, hkeys⟩ := ih hobserved
    exact ⟨hledger, fun k => (hkeys k).trans (mem_orders_onReport m _ k)⟩

/-- **A submission keeps the ledger**, whatever the gateway reports, and returns an order under the
one new id. -/
theorem Ledger.submit {γ : Type} (h : Ledger positions taken m) (intent : OrderIntent)
    (send : γ → Order → List ExecutionReport × γ) (g : γ) (nowNs : ℕ) :
    let res := m.submit intent send g nowNs
    Ledger positions taken res.1 ∧ (∀ k, k ∈ res.1.orders ↔ k = m.nextId intent ∨ k ∈ m.orders) ∧
      res.2.2.clientOrderId = m.nextId intent := by
  intro res
  have hres : res = _ := submit_eq h.known intent send g nowNs
  obtain ⟨hledger, hkeys⟩ := (h.opened intent nowNs).foldl_onReport (m.nextId intent)
    intent.parentArbId (send g (newOrder intent (m.nextId intent) nowNs)).1
  have hreturned : ∀ {m' : OrderManager}, Ledger positions taken m' →
      ((m'.orders[m.nextId intent]?).getD
        (newOrder intent (m.nextId intent) nowNs)).clientOrderId = m.nextId intent := by
    intro m' hledger'
    cases hlookup : m'.orders[m.nextId intent]? with
    | none => rfl
    | some o => exact (hledger'.orders _ o hlookup).1
  rw [hres]
  refine ⟨hledger, fun k => (hkeys k).trans ?_, hreturned hledger⟩
  simp only [OrderManager.opened, ExtTreeMap.mem_insert, LawfulEqCmp.compare_eq_iff_eq]
  exact or_congr_left eq_comm

/-- **Every fill is taken once**: the next ones follow those that were taken. -/
theorem Ledger.takeNewFills (h : Ledger positions taken m) :
    taken ++ m.takeNewFills.1 = m.fills ∧ Ledger positions m.fills m.takeNewFills.2 := by
  refine ⟨?_, h.known, h.orders, h.fills, h.positions, List.take_length, le_rfl⟩
  rw [← h.taken]
  exact List.take_append_drop _ _

end OrderManager

/-! ### Runs -/

/-- A call of an order manager; a gateway is what it reports on the order it is given. -/
inductive OmsCall
  | submit (intent : OrderIntent) (gateway : Order → List ExecutionReport) (nowNs : ℕ)
  | report (r : ExecutionReport)
  | takeNewFills

/-- An order manager with what its callers were given: the ids of the orders that `submit` returned,
and the fills that `take_new_fills` did. -/
structure OmsRun where
  oms : OrderManager
  created : List String := []
  taken : List Fill := []

namespace OmsRun

/-- The run after a call. -/
def exec (s : OmsRun) : OmsCall → OmsRun
  | .submit intent gateway nowNs =>
      let (oms, _, order) := s.oms.submit intent (fun _ o => (gateway o, ())) () nowNs
      { s with oms := oms, created := s.created ++ [order.clientOrderId] }
  | .report r => { s with oms := s.oms.onReport r }
  | .takeNewFills =>
      let (fills, oms) := s.oms.takeNewFills
      { s with oms := oms, taken := s.taken ++ fills }

/-- The run of calls on a new order manager. -/
def ofCalls (positions : PositionBook) (calls : List OmsCall) : OmsRun :=
  calls.foldl exec { oms := { positions := positions } }

/-- The callers know of all that the order manager has on record. -/
structure Known (positions : PositionBook) (s : OmsRun) : Prop where
  ledger : s.oms.Ledger positions s.taken
  created : ∀ id, id ∈ s.oms.orders ↔ id ∈ s.created
  distinct : s.created.Nodup

variable {positions : PositionBook} {s : OmsRun}

/-- Every call keeps it. -/
theorem Known.exec (h : s.Known positions) (call : OmsCall) : (s.exec call).Known positions := by
  cases call with
  | submit intent gateway nowNs =>
    obtain ⟨hledger, hkeys, hid⟩ := h.ledger.submit intent (fun _ o => (gateway o, ())) () nowNs
    have hcreated : (s.exec (.submit intent gateway nowNs)).created =
        s.created ++ [s.oms.nextId intent] := by
      rw [← hid]
      rfl
    refine ⟨hledger, fun id => (hkeys id).trans ?_, ?_⟩
    · rw [hcreated, List.mem_append, List.mem_singleton, h.created, or_comm]
    · have hnew : s.oms.nextId intent ∉ s.created := fun hmem =>
        h.ledger.known.nextId_new intent ((h.created _).2 hmem)
      rw [hcreated]
      exact h.distinct.append (List.nodup_singleton _) (by simpa using hnew)
  | report r =>
    exact ⟨h.ledger.onReport r,
      fun id => (OrderManager.mem_orders_onReport s.oms r id).trans (h.created id), h.distinct⟩
  | takeNewFills =>
    obtain ⟨htaken, hledger⟩ := h.ledger.takeNewFills
    rw [← htaken] at hledger
    exact ⟨hledger, h.created, h.distinct⟩

theorem known_ofCalls (positions : PositionBook) (calls : List OmsCall) :
    (ofCalls positions calls).Known positions := by
  have hcalls : ∀ (calls : List OmsCall) (s : OmsRun), s.Known positions →
      (calls.foldl OmsRun.exec s).Known positions := by
    intro calls
    induction calls with
    | nil => exact fun s h => h
    | cons call calls ih => exact fun s h => ih _ (h.exec call)
  exact hcalls calls _ ⟨OrderManager.ledger_start positions, fun id => by simp, List.nodup_nil⟩

/-- What a reconciliation of the order manager finds. -/
structure Reconciles (positions : PositionBook) (s : OmsRun) : Prop where
  /-- An external fill is an orphan if no submission returned its id. -/
  orphans : ∀ f, onExternalFill f s.oms = none ↔ f.clientOrderId ∈ s.created
  distinct : s.created.Nodup
  /-- The fills on record are those of the orders, and make up their filled quantities. -/
  fills : ∀ f ∈ s.oms.fills, onExternalFill f s.oms = none ∧
    ∃ o, s.oms.orders[f.clientOrderId]? = some o ∧ f.Of o
  filledQty : ∀ id o, s.oms.orders[id]? = some o → o.filledQty = filledFor id s.oms.fills
  /-- What was taken and what is still to be taken are the fills on record. -/
  taken : s.taken ++ s.oms.takeNewFills.1 = s.oms.fills
  positions : s.oms.positions = s.oms.fills.foldl PositionBook.apply positions

end OmsRun

/-- **An order manager reconciles** after any calls through any gateways: orders, fills and positions
agree, no fill is lost or taken twice, and an external fill raises `ORPHAN_FILL` exactly when its id
was never created. -/
theorem oms_reconciles (positions : PositionBook) (calls : List OmsCall) :
    (OmsRun.ofCalls positions calls).Reconciles positions := by
  obtain ⟨hledger, hcreated, hdistinct⟩ := OmsRun.known_ofCalls positions calls
  generalize OmsRun.ofCalls positions calls = s at hledger hcreated hdistinct ⊢
  have horphan : ∀ f, onExternalFill f s.oms = none ↔ f.clientOrderId ∈ s.created := by
    intro f
    rw [← hcreated, ← ExtTreeMap.contains_iff_mem]
    unfold onExternalFill OrderManager.knownOrder
    split_ifs with hknown
    · exact ⟨fun _ => hknown, fun _ => rfl⟩
    · exact ⟨fun h => (nomatch h), fun h => absurd h hknown⟩
  refine ⟨horphan, hdistinct, fun f hf => ?_, fun id o ho => (hledger.orders id o ho).2,
    hledger.takeNewFills.1, hledger.positions⟩
  obtain ⟨o, ho, hof⟩ := hledger.fills f hf
  refine ⟨(horphan f).2 ((hcreated _).1 ?_), o, ho, hof⟩
  rw [ExtTreeMap.mem_iff_isSome_getElem?, ho]
  rfl

end Hft
