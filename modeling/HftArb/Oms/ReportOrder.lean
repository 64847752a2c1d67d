import HftArb.Lib.Transition
import HftArb.Oms.Reporting

/-!
# The order of execution reports

Reports on different orders do not see each other: an order is what its own reports make of it
(`orders_foldl`).  Among the reports on one order an `Ack` moves only an order that is still
`Sent`, and every other report overwrites the state whatever it was.  So apart from the ack time an
order is determined by its other reports, in their order, and by how many acks there were
(`withoutAck_foldl`).
-/

namespace Hft

open Transition
open Std (ExtTreeMap LawfulEqCmp)

/-! ### Positions -/

namespace PositionBook

theorem getElem?_apply (pb : PositionBook) (f : Fill) (i : ℕ) :
    (pb.apply f).positions[i]? =
      if f.instrumentId = i then some ((pb.position i).fill f.side f.fillQty f.fillPxPaise)
      else pb.positions[i]? := by
  simp only [apply, applyFill, ExtTreeMap.getElem?_insert, compare_eq_iff_eq]
  split_ifs with h
  · rw [h]
  · rfl

theorem fill_comm (p : Position) (side side' : Side) (qty px qty' px' : ℤ) :
    (p.fill side qty px).fill side' qty' px' = (p.fill side' qty' px').fill side qty px := by
  cases side <;> cases side' <;> simp only [Position.fill, Position.mk.injEq] <;>
    constructor <;> ring

/-- Fills can be booked in either order. -/
theorem apply_comm (pb : PositionBook) (f g : Fill) :
    (pb.apply f).apply g = (pb.apply g).apply f := by
  have hpositions : ((pb.apply f).apply g).positions = ((pb.apply g).apply f).positions := by
    refine ExtTreeMap.ext_getElem? fun i => ?_
    have hpos : ∀ (pb : PositionBook) (f : Fill), (pb.apply f).position i =
        if f.instrumentId = i then (pb.position i).fill f.side f.fillQty f.fillPxPaise
        else pb.position i := by
      intro pb f
      rw [position, getElem?_apply]
      split_ifs <;> rfl
    rw [getElem?_apply, getElem?_apply, getElem?_apply, getElem?_apply, hpos, hpos]
    split_ifs
    · rw [fill_comm]
    · rfl
    · rfl
    · rfl
  cases hl : (pb.apply f).apply g
  cases hr : (pb.apply g).apply f
  rw [hl, hr] at hpositions
  exact congrArg PositionBook.mk hpositions

/-- Permuted fills make the same positions. -/
theorem foldl_apply_perm (pb : PositionBook) {fs fs' : List Fill} (h : fs.Perm fs') :
    fs.foldl apply pb = fs'.foldl apply pb := by
  have : RightCommutative apply := ⟨apply_comm⟩
  exact h.foldl_eq pb

end PositionBook

/-! ### One order -/

namespace Order

/-- The order without the time of its ack. -/
def withoutAck (o : Order) : Order := { o with tsAckNs := 0 }

/-- The order without its state and the time of its ack: what no `Ack` changes. -/
def unacked (o : Order) : Order := { o with state := .new, tsAckNs := 0 }

variable {o o' : Order} {r : ExecutionReport}

theorem unacked_of_withoutAck (h : o.withoutAck = o'.withoutAck) : o.unacked = o'.unacked := by
  simp only [withoutAck, Order.mk.injEq] at h
  simp only [unacked, Order.mk.injEq]
  tauto

theorem clientOrderId_congr (h : o.withoutAck = o'.withoutAck) :
    o.clientOrderId = o'.clientOrderId := by
  change o.withoutAck.clientOrderId = o'.withoutAck.clientOrderId
  rw [h]

/-- A report that is no ack overwrites the state, whatever it was. -/
theorem withoutAck_report (hr : r.type ≠ .ack) (h : o.unacked = o'.unacked) :
    (o.report r).withoutAck = (o'.report r).withoutAck := by
  simp only [unacked, Order.mk.injEq] at h
  obtain ⟨hintent, hid, hex, hfilled, -, hsent, -, hdone, herr⟩ := h
  unfold report
  cases htype : r.type with
  | ack => exact absurd htype hr
  | fill =>
    dsimp only
    rw [hfilled, hintent]
    split_ifs <;> simp [withoutAck, hid, hex, hsent, hdone, herr]
  | reject => simp [withoutAck, hid, hex, hintent, hsent, hfilled]
  | expire => simp [withoutAck, hid, hex, hintent, hsent, hfilled]
  | cancel => simp [withoutAck, hid, hex, hintent, hsent, hfilled, herr]

theorem state_report_ne (hr : r.type ≠ .ack) : (o.report r).state ≠ .sent := by
  unfold report
  cases htype : r.type with
  | ack => exact absurd htype hr
  | fill => dsimp only; split_ifs <;> simp
  | reject => dsimp only; split_ifs <;> simp
  | expire => dsimp only; split_ifs <;> simp
  | cancel => simp

theorem report_ack (hr : r.type = .ack) :
    o.report r = if o.state = .sent then { o with state := .acked, tsAckNs := r.tsNs } else o := by
  simp [report, hr]

theorem unacked_report_ack (hr : r.type = .ack) : (o.report r).unacked = o.unacked := by
  rw [report_ack hr]
  split_ifs <;> rfl

/-- One report moves orders that differ in their ack time alike. -/
theorem withoutAck_report_congr (h : o.withoutAck = o'.withoutAck) (r : ExecutionReport) :
    (o.report r).withoutAck = (o'.report r).withoutAck := by
  by_cases hr : r.type = .ack
  · have hstate : o.withoutAck.state = o'.withoutAck.state := congrArg Order.state h
    change o.state = o'.state at hstate
    rw [report_ack hr, report_ack hr, hstate]
    split_ifs
    · simp only [withoutAck, Order.mk.injEq] at h ⊢
      tauto
    · exact h
  · exact withoutAck_report hr (unacked_of_withoutAck h)

theorem withoutAck_foldl_congr (rs : List ExecutionReport) (h : o.withoutAck = o'.withoutAck) :
    (rs.foldl report o).withoutAck = (rs.foldl report o').withoutAck := by
  induction rs generalizing o o' with
  | nil => exact h
  | cons r rs ih => exact ih (withoutAck_report_congr h r)

/-- An order that is not `Sent` ignores its acks. -/
theorem foldl_of_state_ne (rs : List ExecutionReport) (h : o.state ≠ .sent) :
    rs.foldl report o = (rs.filter fun r => r.type ≠ .ack).foldl report o := by
  induction rs generalizing o with
  | nil => rfl
  | cons r rs ih =>
    by_cases hr : r.type = .ack
    · rw [List.foldl_cons, report_ack hr, if_neg h, List.filter_cons_of_neg (by simp [hr])]
      exact ih h
    · rw [List.filter_cons_of_pos (by simp [hr]), List.foldl_cons, List.foldl_cons]
      exact ih (state_report_ne hr)

/-- With another report among them, acks leave nothing but their time. -/
theorem withoutAck_foldl_filter (rs : List ExecutionReport) (h : o.unacked = o'.unacked)
    (hrs : (rs.filter fun r => r.type ≠ .ack) ≠ []) : (rs.foldl report o).withoutAck =
      ((rs.filter fun r => r.type ≠ .ack).foldl report o').withoutAck := by
  induction rs generalizing o with
  | nil => exact absurd rfl hrs
  | cons r rs ih =>
    by_cases hr : r.type = .ack
    · rw [List.filter_cons_of_neg (by simp [hr])] at hrs ⊢
      exact ih ((unacked_report_ack hr).trans h) hrs
    · rw [List.filter_cons_of_pos (by simp [hr]), List.foldl_cons, List.foldl_cons,
        foldl_of_state_ne rs (state_report_ne hr)]
      exact withoutAck_foldl_congr _ (withoutAck_report hr h)

/-- Acks alone make a sent order acked. -/
theorem withoutAck_foldl_acks (rs : List ExecutionReport)
    (hrs : (rs.filter fun r => r.type ≠ .ack) = []) : (rs.foldl report o).withoutAck =
      { o with
        state := if o.state = .sent ∧ rs ≠ [] then .acked else o.state
        tsAckNs := 0 } := by
  cases rs with
  | nil => simp [withoutAck]
  | cons r rs =>
    have hacks : ∀ r' ∈ r :: rs, r'.type = .ack := by simpa using List.filter_eq_nil_iff.1 hrs
    have hr : r.type = .ack := hacks r List.mem_cons_self
    have hrest : (rs.filter fun r => r.type ≠ .ack) = [] := by
      refine List.filter_eq_nil_iff.2 fun r' hr' => ?_
      simp [hacks r' (List.mem_cons_of_mem r hr')]
    have hne : (o.report r).state ≠ .sent := by
      rw [report_ack hr]
      split_ifs with hsent
      · simp
      · exact hsent
    rw [List.foldl_cons, foldl_of_state_ne rs hne, hrest, List.foldl_nil, report_ack hr]
    by_cases hsent : o.state = .sent
    · simp [hsent, withoutAck]
    · simp [hsent, withoutAck]

/-- **The reports on one order.**  The ack time apart, they can be told from their reports other
than acks and the number of acks. -/
theorem withoutAck_foldl {rs rs' : List ExecutionReport} (h : o.withoutAck = o'.withoutAck)
    (hown : (rs.filter fun r => r.type ≠ .ack) = rs'.filter fun r => r.type ≠ .ack)
    (hacks : rs.countP (fun r => r.type = .ack) = rs'.countP fun r => r.type = .ack) :
    (rs.foldl report o).withoutAck = (rs'.foldl report o').withoutAck := by
  rw [withoutAck_foldl_congr rs h]
  by_cases hnone : (rs.filter fun r => r.type ≠ .ack) = []
  · -- acks alone: only whether there are any matters
    have hempty : ∀ l : List ExecutionReport, (l.filter fun r => r.type ≠ .ack) = [] →
        (l = [] ↔ l.countP (fun r => r.type = .ack) = 0) := by
      intro l hl
      cases l with
      | nil => simp
      | cons r l =>
        have hr : r.type = .ack := by
          have := List.filter_eq_nil_iff.1 hl r List.mem_cons_self
          simpa using this
        simp [hr]
    have hnil : rs ≠ [] ↔ rs' ≠ [] := by
      rw [ne_eq, ne_eq, hempty rs hnone, hempty rs' (hown ▸ hnone), hacks]
    rw [withoutAck_foldl_acks rs hnone, withoutAck_foldl_acks rs' (hown ▸ hnone)]
    simp only [hnil]
  · -- some other report overwrites the state, so the acks before and after it are forgotten
    rw [withoutAck_foldl_filter rs rfl hnone, withoutAck_foldl_filter rs' rfl (hown ▸ hnone), hown]

end Order

/-! ### All orders -/

namespace OrderManager

variable {m m' : OrderManager}

theorem foldl_map_report (o : Option Order) (rs : List ExecutionReport) :
    rs.foldl (fun o r => o.map fun o => o.report r) o = o.map fun o => rs.foldl Order.report o := by
  cases o with
  | none =>
    induction rs with
    | nil => rfl
    | cons r rs ih => exact ih
  | some o =>
    induction rs generalizing o with
    | nil => rfl
    | cons r rs ih => exact ih (o.report r)

/-- An order is what its own reports make of it. -/
theorem orders_foldl (m : OrderManager) (rs : List ExecutionReport) (id : String) :
    (rs.foldl onReport m).orders[id]? = (m.orders[id]?).map fun o =>
      (rs.filter fun r => r.clientOrderId = id).foldl Order.report o := by
  have hcomponent : (rs.foldl onReport m).orders[id]? =
      (rs.filterMap fun r => if r.clientOrderId = id then some r else none).foldl
        (fun o r => o.map fun o => o.report r) m.orders[id]? := by
    have hnone : ∀ (m : OrderManager) (r : ExecutionReport),
        (if r.clientOrderId = id then some r else none) = none →
          (m.onReport r).orders[id]? = m.orders[id]? := by
      intro m r hr
      have hne : r.clientOrderId ≠ id := by simpa using hr
      rw [orders_onReport, if_neg (Ne.symm hne)]
    have hsome : ∀ (m : OrderManager) (r r' : ExecutionReport),
        (if r.clientOrderId = id then some r else none) = some r' →
          (m.onReport r).orders[id]? = (m.orders[id]?).map fun o => o.report r' := by
      intro m r r' hr
      by_cases hid : r.clientOrderId = id
      · obtain rfl : r = r' := by simpa [hid] using hr
        rw [orders_onReport, if_pos hid.symm]
      · simp [hid] at hr
    exact @foldl_component _ _ _ _ _ (fun m : OrderManager => m.orders[id]?) _
      (fun (o : Option Order) r => o.map fun o => o.report r) hnone hsome m rs
  have hfilter : rs.filterMap (fun r => if r.clientOrderId = id then some r else none) =
      rs.filter fun r => r.clientOrderId = id := by
    rw [← List.filterMap_eq_filter]
    refine List.filterMap_congr fun r _ => ?_
    simp [Option.guard]
  rw [hcomponent, hfilter]
  exact foldl_map_report _ _

/-- The fill that a report records. -/
def fillBy (m : OrderManager) (r : ExecutionReport) : Option Fill :=
  if r.type = .fill then (m.orders[r.clientOrderId]?).map fun o => o.fillOf r else none

/-- Reports do not change what a fill is recorded as. -/
theorem fillBy_onReport (m : OrderManager) (r r' : ExecutionReport) :
    (m.onReport r).fillBy r' = m.fillBy r' := by
  unfold fillBy
  rw [orders_onReport]
  split_ifs
  · cases m.orders[r'.clientOrderId]? with
    | none => rfl
    | some o => simp [Order.fillOf]
  · rfl
  · rfl

theorem onReport_fills (m : OrderManager) (r : ExecutionReport) :
    (m.onReport r).fills = m.fills ++ (m.fillBy r).toList ∧
      (m.onReport r).positions = (m.fillBy r).toList.foldl PositionBook.apply m.positions := by
  unfold onReport fillBy
  cases m.orders[r.clientOrderId]? with
  | none => simp
  | some o =>
    by_cases hfill : r.type = .fill
    · simp [hfill]
    · simp [hfill]

/-- Fills and positions after any number of reports. -/
theorem fills_foldl (m : OrderManager) (rs : List ExecutionReport) :
    (rs.foldl onReport m).fills = m.fills ++ rs.filterMap m.fillBy ∧
      (rs.foldl onReport m).positions =
        (rs.filterMap m.fillBy).foldl PositionBook.apply m.positions := by
  induction rs generalizing m with
  | nil => simp
  | cons r rs ih =>
    obtain ⟨hfills, hpositions⟩ := onReport_fills m r
    obtain ⟨hf, hp⟩ := ih (m.onReport r)
    have hsame : (m.onReport r).fillBy = m.fillBy := funext fun r' => fillBy_onReport m r r'
    rw [hsame] at hf hp
    have hcons : (r :: rs).filterMap m.fillBy =
        (m.fillBy r).toList ++ rs.filterMap m.fillBy := by
      rw [List.filterMap_cons]
      cases m.fillBy r <;> rfl
    rw [List.foldl_cons, hf, hp, hfills, hpositions, hcons, List.foldl_append, List.append_assoc]
    exact ⟨rfl, rfl⟩

/-- What is recorded comes from the fills among the reports. -/
theorem filterMap_fillBy (m : OrderManager) (rs : List ExecutionReport) :
    rs.filterMap m.fillBy = (rs.filter fun r => r.type = .fill).filterMap m.fillBy := by
  rw [List.filterMap_filter]
  refine List.filterMap_congr fun r _ => ?_
  unfold fillBy
  by_cases hfill : r.type = .fill <;> simp [hfill]

/-! ### Two sequences of reports -/

/-- For every order the same reports other than acks in the same order, and as many acks. -/
structure SameReports (rs rs' : List ExecutionReport) : Prop where
  own : ∀ id, (rs.filter fun r => r.clientOrderId = id ∧ r.type ≠ .ack) =
    rs'.filter fun r => r.clientOrderId = id ∧ r.type ≠ .ack
  acks : ∀ id, rs.countP (fun r => r.clientOrderId = id ∧ r.type = .ack) =
    rs'.countP fun r => r.clientOrderId = id ∧ r.type = .ack

/-- The same orders up to the ack time, the same position in every instrument, and the same fills
in some order. -/
structure SameOutcome (m m' : OrderManager) : Prop where
  orders : ∀ id : String,
    (m.orders[id]?).map Order.withoutAck = (m'.orders[id]?).map Order.withoutAck
  netQty : ∀ i, m.positions.netQty i = m'.positions.netQty i
  cashPaise : ∀ i, m.positions.cashPaise i = m'.positions.cashPaise i
  fills : m.fills.Perm m'.fills

/-- The reports other than acks are the same up to their order. -/
theorem SameReports.perm {rs rs' : List ExecutionReport} (h : SameReports rs rs') :
    (rs.filter fun r => r.type ≠ .ack).Perm (rs'.filter fun r => r.type ≠ .ack) := by
  rw [List.perm_iff_count]
  intro r
  have hcount : ∀ l : List ExecutionReport, (l.filter fun r => r.type ≠ .ack).count r =
      (l.filter fun r' => r'.clientOrderId = r.clientOrderId ∧ r'.type ≠ .ack).count r := by
    intro l
    by_cases hr : r.type = .ack
    · rw [List.count_eq_zero.2 (by simp [hr]), List.count_eq_zero.2 (by simp [hr])]
    · rw [List.count_filter (by simp [hr]), List.count_filter (by simp [hr])]
  rw [hcount, hcount, h.own]

/-- The same reports recorded by managers whose orders differ in their ack times only. -/
theorem SameReports.orders {rs rs' : List ExecutionReport} (h : SameReports rs rs')
    (hm : ∀ id : String,
      (m.orders[id]?).map Order.withoutAck = (m'.orders[id]?).map Order.withoutAck)
    (id : String) : ((rs.foldl onReport m).orders[id]?).map Order.withoutAck =
      ((rs'.foldl onReport m').orders[id]?).map Order.withoutAck := by
  have hid := hm id
  have hown : ∀ l : List ExecutionReport,
      ((l.filter fun r => r.clientOrderId = id).filter fun r => r.type ≠ .ack) =
        l.filter fun r => r.clientOrderId = id ∧ r.type ≠ .ack := by
    intro l
    rw [List.filter_filter]
    refine List.filter_congr fun r _ => ?_
    simp [Bool.and_comm]
  have hacks : ∀ l : List ExecutionReport,
      (l.filter fun r => r.clientOrderId = id).countP (fun r => r.type = .ack) =
        l.countP fun r => r.clientOrderId = id ∧ r.type = .ack := by
    intro l
    rw [List.countP_filter]
    refine List.countP_congr fun r _ => ?_
    rw [Bool.and_eq_true, decide_eq_true_eq, decide_eq_true_eq, decide_eq_true_eq, and_comm]
  rw [orders_foldl, orders_foldl]
  cases ho : m.orders[id]? with
  | none =>
    rw [ho] at hid
    rw [Option.map_eq_none_iff.1 hid.symm]
    rfl
  | some o =>
    rw [ho] at hid
    obtain ⟨o', ho', he⟩ := Option.map_eq_some_iff.1 hid.symm
    rw [ho', Option.map_some, Option.map_some, Option.map_some, Option.map_some]
    refine congrArg some (Order.withoutAck_foldl he.symm ?_ ?_)
    · rw [hown, hown, h.own]
    · rw [hacks, hacks, h.acks]

/-- **Acks and the reports on other orders can come at any time.** -/
theorem SameReports.outcome {rs rs' : List ExecutionReport} (h : SameReports rs rs')
    (m : OrderManager) : SameOutcome (rs.foldl onReport m) (rs'.foldl onReport m) := by
  have hnonack : ∀ l : List ExecutionReport, (l.filter fun r => r.type = .fill) =
      (l.filter fun r => r.type ≠ .ack).filter fun r => r.type = .fill := by
    intro l
    rw [List.filter_filter]
    refine List.filter_congr fun r _ => ?_
    cases r.type <;> rfl
  have hperm : (rs.filterMap m.fillBy).Perm (rs'.filterMap m.fillBy) := by
    rw [filterMap_fillBy, filterMap_fillBy m rs', hnonack, hnonack rs']
    exact (h.perm.filter _).filterMap _
  have hpositions : (rs.foldl onReport m).positions = (rs'.foldl onReport m).positions := by
    rw [(fills_foldl m rs).2, (fills_foldl m rs').2]
    exact PositionBook.foldl_apply_perm m.positions hperm
  refine ⟨h.orders fun _ => rfl, fun i => by rw [hpositions], fun i => by rw [hpositions], ?_⟩
  rw [(fills_foldl m rs).1, (fills_foldl m rs').1]
  exact hperm.append_left m.fills

/-! ### Acks at another time -/

/-- The same ids issued, the same fills and positions, and, ack times apart, the same orders. -/
structure LateAck (m m' : OrderManager) : Prop where
  orders : ∀ id : String,
    (m.orders[id]?).map Order.withoutAck = (m'.orders[id]?).map Order.withoutAck
  fills : m.fills = m'.fills
  positions : m.positions = m'.positions
  ids : m.ids = m'.ids

theorem ids_foldl (m : OrderManager) (rs : List ExecutionReport) :
    (rs.foldl onReport m).ids = m.ids := by
  induction rs generalizing m with
  | nil => rfl
  | cons r rs ih => exact (ih (m.onReport r)).trans (ids_onReport m r)

/-- What is recorded of a fill does not depend on ack times. -/
theorem LateAck.fillBy (h : LateAck m m') : m.fillBy = m'.fillBy := by
  funext r
  have horder := h.orders r.clientOrderId
  unfold OrderManager.fillBy
  cases ho : m.orders[r.clientOrderId]? with
  | none =>
    rw [ho] at horder
    rw [Option.map_eq_none_iff.1 horder.symm]
  | some o =>
    rw [ho] at horder
    obtain ⟨o', ho', he⟩ := Option.map_eq_some_iff.1 horder.symm
    have hfill : o'.withoutAck.fillOf r = o.withoutAck.fillOf r := by rw [he]
    change o'.fillOf r = o.fillOf r at hfill
    rw [ho', Option.map_some, Option.map_some, hfill]

/-- Reports that differ in the place of acks only, with the fills in the same order. -/
structure SameButAcks (rs rs' : List ExecutionReport) : Prop extends SameReports rs rs' where
  fills : (rs.filter fun r => r.type = .fill) = rs'.filter fun r => r.type = .fill

theorem SameButAcks.refl (rs : List ExecutionReport) : SameButAcks rs rs :=
  ⟨⟨fun _ => rfl, fun _ => rfl⟩, rfl⟩

/-- An ack can come before other reports or after them. -/
theorem SameButAcks.move {a b : ExecutionReport} (ha : a.type = .ack) (hb : b.type = .ack)
    (hid : a.clientOrderId = b.clientOrderId) (rs rest : List ExecutionReport) :
    SameButAcks (rs ++ [a] ++ rest) ([b] ++ rs ++ rest) := by
  refine ⟨⟨fun id => ?_, fun id => ?_⟩, ?_⟩
  · simp [ha, hb]
  · simp only [List.countP_append, List.countP_singleton, ha, hb, hid]
    omega
  · simp [ha, hb]

/-- The place of acks among the reports makes no difference but in the ack times. -/
theorem LateAck.foldl (h : LateAck m m') {rs rs' : List ExecutionReport}
    (hrs : SameButAcks rs rs') : LateAck (rs.foldl onReport m) (rs'.foldl onReport m') := by
  have hfills : rs.filterMap m.fillBy = rs'.filterMap m'.fillBy := by
    rw [filterMap_fillBy, filterMap_fillBy m', hrs.fills, h.fillBy]
  refine ⟨hrs.toSameReports.orders h.orders, ?_, ?_, ?_⟩
  · rw [(fills_foldl m rs).1, (fills_foldl m' rs').1, h.fills, hfills]
  · rw [(fills_foldl m rs).2, (fills_foldl m' rs').2, h.positions, hfills]
  · rw [ids_foldl, ids_foldl, h.ids]

/-- The manager without the record of position books. -/
def untracked (m : OrderManager) : OrderManager := { m with trail := [] }

theorem untracked_onReport (m : OrderManager) (r : ExecutionReport) :
    (m.onReport r).untracked = m.untracked.onReport r := by
  unfold onReport untracked
  dsimp only
  cases m.orders[r.clientOrderId]? with
  | none => rfl
  | some o =>
    dsimp only
    split_ifs <;> rfl

/-- The reports `submit` takes in. -/
theorem untracked_foldl (m : OrderManager) (id parent : String) (rs : List ExecutionReport) :
    (rs.foldl (fun m r => (m.onReport (r.completed id parent)).observed) m).untracked =
      (rs.map fun r => r.completed id parent).foldl onReport m.untracked := by
  induction rs generalizing m with
  | nil => rfl
  | cons r rs ih =>
    have hobserved : (m.onReport (r.completed id parent)).observed.untracked =
        m.untracked.onReport (r.completed id parent) := untracked_onReport m _
    rw [List.foldl_cons, ih, hobserved, List.map_cons, List.foldl_cons]

theorem lateAck_untracked : LateAck m.untracked m'.untracked ↔ LateAck m m' :=
  ⟨fun h => ⟨h.orders, h.fills, h.positions, h.ids⟩,
    fun h => ⟨h.orders, h.fills, h.positions, h.ids⟩⟩

/-- The manager with an order stored under an id. -/
def stored (m : OrderManager) (ids : IdGenerator) (id : String) (o : Order) : OrderManager :=
  { m with ids := ids, orders := m.orders.insert id o }

theorem LateAck.stored (h : LateAck m m') {o o' : Order} (ho : o.withoutAck = o'.withoutAck)
    (ids : IdGenerator) (id : String) : LateAck (m.stored ids id o) (m'.stored ids id o') := by
  refine ⟨fun k => ?_, h.fills, h.positions, rfl⟩
  simp only [OrderManager.stored, ExtTreeMap.getElem?_insert]
  split_ifs
  · rw [Option.map_some, Option.map_some, ho]
  · exact h.orders k

/-- The order under an id, or a new one. -/
theorem LateAck.order (h : LateAck m m') (id : String) (o : Order) :
    ((m.orders[id]?).getD o).withoutAck = ((m'.orders[id]?).getD o).withoutAck := by
  have horder := h.orders id
  cases ho : m.orders[id]? with
  | none =>
    rw [ho] at horder
    rw [Option.map_eq_none_iff.1 horder.symm]
  | some o₁ =>
    rw [ho] at horder
    obtain ⟨o₂, ho', he⟩ := Option.map_eq_some_iff.1 horder.symm
    rw [ho']
    exact he.symm

/-- A submission keeps managers alike, if their gateways report alike on orders that differ in the
ack time only. -/
theorem LateAck.submit {γ : Type} (h : LateAck m m') (intent : OrderIntent)
    (send : γ → Order → List ExecutionReport × γ) {g g' : γ} {R : γ → γ → Prop} (nowNs : ℕ)
    (hsend : ∀ (o o' : Order) (parent : String), o.withoutAck = o'.withoutAck →
      SameButAcks ((send g o).1.map fun r => r.completed o.clientOrderId parent)
        ((send g' o').1.map fun r => r.completed o'.clientOrderId parent) ∧
      R (send g o).2 (send g' o').2) :
    LateAck (m.submit intent send g nowNs).1 (m'.submit intent send g' nowNs).1 ∧
      R (m.submit intent send g nowNs).2.1 (m'.submit intent send g' nowNs).2.1 := by
  unfold OrderManager.submit
  rw [← h.ids]
  dsimp only
  generalize m.ids.nextOrder intent.parentArbId intent.venue intent.side intent.role = next
  have ho := h.order next.1 (newOrder intent next.1 nowNs)
  obtain ⟨hreports, hgateway⟩ := hsend _ _ intent.parentArbId ho
  refine ⟨?_, hgateway⟩
  have hstored := lateAck_untracked.2 (h.stored ho next.2 next.1)
  rw [← lateAck_untracked, untracked_foldl, untracked_foldl]
  exact hstored.foldl hreports

end OrderManager

end Hft
