import HftArb.Oms.OrderManager

/-!
# What a submission does to the order manager

`Reported` relates the order manager before and after some reports of one order: they appended
fills, and the position book, at every moment, is the old one with the fills so far applied.
`submit_spec` gives it for a whole submission through any gateway that reports on the order it was
given.  It needs the order's id to be new, which `KnownIds` provides.
-/

namespace Hft

open Std (ExtTreeMap LawfulEqCmp)

namespace OrderManager

variable {m m' m'' : OrderManager} {intent : OrderIntent} {id : String}

/-- The fills among the reports of an order. -/
def fillsOf (intent : OrderIntent) (id : String) (reports : List ExecutionReport) : List Fill :=
  (reports.filter fun r => r.type = .fill).map (newOrder intent id 0).fillOf

/-- From `m` to `m'` the order `id` has got the fills `new`. -/
structure Reported (id : String) (intent : OrderIntent) (m : OrderManager) (new : List Fill)
    (m' : OrderManager) : Prop where
  fills : m'.fills = m.fills ++ new
  positions : m'.positions = new.foldl PositionBook.apply m.positions
  consumed : m'.consumedFills = m.consumedFills
  ids : m'.ids = m.ids
  order : ∃ o, m'.orders[id]? = some o ∧ o.intent = intent ∧ o.clientOrderId = id
  keys : ∀ k, k ∈ m'.orders ↔ k ∈ m.orders
  trail : ∃ t, m'.trail = m.trail ++ t ∧
    ∀ pb ∈ t, ∃ pre, pre <+: new ∧ pb = pre.foldl PositionBook.apply m.positions

theorem Reported.refl (h : ∃ o, m.orders[id]? = some o ∧ o.intent = intent ∧ o.clientOrderId = id) :
    Reported id intent m [] m :=
  ⟨by simp, rfl, rfl, rfl, h, fun _ => Iff.rfl, [], by simp, by simp⟩

theorem Reported.trans {new new' : List Fill} (h : Reported id intent m new m')
    (h' : Reported id intent m' new' m'') : Reported id intent m (new ++ new') m'' := by
  obtain ⟨t, ht, hpre⟩ := h.trail
  obtain ⟨t', ht', hpre'⟩ := h'.trail
  refine ⟨?_, ?_, h'.consumed.trans h.consumed, h'.ids.trans h.ids, h'.order,
    fun k => (h'.keys k).trans (h.keys k), t ++ t', ?_, ?_⟩
  · rw [h'.fills, h.fills, List.append_assoc]
  · rw [h'.positions, h.positions, List.foldl_append]
  · rw [ht', ht, List.append_assoc]
  · intro pb hpb
    rcases List.mem_append.1 hpb with hpb | hpb
    · obtain ⟨pre, hle, rfl⟩ := hpre pb hpb
      exact ⟨pre, hle.trans (List.prefix_append _ _), rfl⟩
    · obtain ⟨pre, hle, rfl⟩ := hpre' pb hpb
      refine ⟨new ++ pre, (List.prefix_append_right_inj new).2 hle, ?_⟩
      rw [h.positions, List.foldl_append]

@[simp]
theorem intent_report (o : Order) (r : ExecutionReport) : (o.report r).intent = o.intent := by
  unfold Order.report
  cases r.type <;> dsimp only <;> split_ifs <;> rfl

@[simp]
theorem clientOrderId_report (o : Order) (r : ExecutionReport) :
    (o.report r).clientOrderId = o.clientOrderId := by
  unfold Order.report
  cases r.type <;> dsimp only <;> split_ifs <;> rfl

theorem orders_onReport (m : OrderManager) (r : ExecutionReport) (id : String) :
    (m.onReport r).orders[id]? =
      if id = r.clientOrderId then (m.orders[id]?).map fun o => o.report r else m.orders[id]? := by
  unfold onReport
  cases ho : m.orders[r.clientOrderId]? with
  | none =>
    by_cases hid : id = r.clientOrderId
    · simp [hid, ho]
    · simp [hid]
  | some o =>
    by_cases hid : id = r.clientOrderId
    · subst hid
      by_cases hfill : r.type = .fill <;> simp [hfill, ho]
    · have hne : compare r.clientOrderId id ≠ .eq := fun h =>
        hid (LawfulEqCmp.eq_of_compare h).symm
      by_cases hfill : r.type = .fill <;> simp [hfill, hid, ExtTreeMap.getElem?_insert, hne]

/-- One report on the order. -/
theorem reported_onReport {r : ExecutionReport}
    (h : ∃ o, m.orders[id]? = some o ∧ o.intent = intent ∧ o.clientOrderId = id)
    (hid : r.clientOrderId = id) :
    Reported id intent m (fillsOf intent id [r]) (m.onReport r).observed := by
  obtain ⟨o, ho, rfl, hcid⟩ := h
  have hmem : id ∈ m.orders := by
    rw [ExtTreeMap.mem_iff_isSome_getElem?, ho]
    rfl
  have hkeys : ∀ k, k ∈ m.orders.insert id (o.report r) ↔ k ∈ m.orders := fun k => by
    rw [ExtTreeMap.mem_insert, LawfulEqCmp.compare_eq_iff_eq]
    refine ⟨?_, Or.inr⟩
    rintro (rfl | hk)
    · exact hmem
    · exact hk
  have horder : ∃ o', (m.orders.insert id (o.report r))[id]? = some o' ∧ o'.intent = o.intent ∧
      o'.clientOrderId = id := ⟨o.report r, by simp, by simp, by simp [hcid]⟩
  by_cases hfill : r.type = .fill
  · have hon : m.onReport r =
        { m with
          orders := m.orders.insert id (o.report r)
          fills := m.fills ++ [o.fillOf r]
          positions := m.positions.apply (o.fillOf r) } := by
      simp [onReport, hid, ho, hfill]
    have hnew : fillsOf o.intent id [r] = [o.fillOf r] := by
      simp [fillsOf, hfill, newOrder, Order.fillOf, hcid]
    rw [hon, hnew]
    exact ⟨rfl, rfl, rfl, rfl, horder, hkeys, [m.positions.apply (o.fillOf r)], rfl, fun pb hpb =>
      ⟨[o.fillOf r], List.prefix_rfl, List.mem_singleton.1 hpb⟩⟩
  · have hon : m.onReport r = { m with orders := m.orders.insert id (o.report r) } := by
      simp [onReport, hid, ho, hfill]
    have hnew : fillsOf o.intent id [r] = [] := by simp [fillsOf, hfill]
    rw [hon, hnew]
    exact ⟨by simp [observed], rfl, rfl, rfl, horder, hkeys, [m.positions], rfl, fun pb hpb =>
      ⟨[], List.prefix_rfl, List.mem_singleton.1 hpb⟩⟩

/-- Any number of reports on the order. -/
theorem reported_foldl (parent : String) (reports : List ExecutionReport)
    (h : ∃ o, m.orders[id]? = some o ∧ o.intent = intent ∧ o.clientOrderId = id)
    (hid : ∀ r ∈ reports, r.clientOrderId = id) :
    Reported id intent m (fillsOf intent id reports)
      (reports.foldl (fun m r => (m.onReport (r.completed id parent)).observed) m) := by
  induction reports generalizing m with
  | nil => exact .refl h
  | cons r reports ih =>
    have hr : (r.completed id parent).clientOrderId = id := by
      simp [ExecutionReport.completed, hid r]
    have hone := reported_onReport h hr
    have hrest := ih hone.order fun r' hr' => hid r' (List.mem_cons_of_mem r hr')
    have hsame : fillsOf intent id [r.completed id parent] = fillsOf intent id [r] := by
      by_cases hfill : r.type = .fill <;>
        simp [fillsOf, ExecutionReport.completed, hfill, Order.fillOf]
    rw [hsame] at hone
    have happend : fillsOf intent id (r :: reports) =
        fillsOf intent id [r] ++ fillsOf intent id reports := by
      simp only [fillsOf, ← List.map_append, ← List.filter_append, List.singleton_append]
    rw [happend]
    exact hone.trans hrest

/-! ### Submission -/

/-- Every order id has been issued by the generator. -/
def KnownIds (m : OrderManager) : Prop :=
  ∀ k ∈ m.orders, ∃ parent venue side role n,
    k = orderIdText parent venue side role n ∧ n ≤ m.ids.orderSeq

/-- The id of the next order. -/
def nextId (m : OrderManager) (intent : OrderIntent) : String :=
  (m.ids.nextOrder intent.parentArbId intent.venue intent.side intent.role).1

theorem KnownIds.nextId_new (h : m.KnownIds) (intent : OrderIntent) :
    m.nextId intent ∉ m.orders := fun hmem => by
  obtain ⟨parent, venue, side, role, n, heq, hle⟩ := h _ hmem
  have := orderIdText_inj heq
  omega

/-- The order manager once `submit` has stored the new order. -/
def opened (m : OrderManager) (intent : OrderIntent) (nowNs : ℕ) : OrderManager :=
  { m with
    ids := { m.ids with orderSeq := m.ids.orderSeq + 1 }
    orders := m.orders.insert (m.nextId intent) (newOrder intent (m.nextId intent) nowNs) }

theorem KnownIds.opened (h : m.KnownIds) (intent : OrderIntent) (nowNs : ℕ) :
    (m.opened intent nowNs).KnownIds := by
  intro k hk
  simp only [OrderManager.opened, ExtTreeMap.mem_insert, LawfulEqCmp.compare_eq_iff_eq] at hk ⊢
  rcases hk with rfl | hk
  · exact ⟨intent.parentArbId, intent.venue, intent.side, intent.role, _, rfl, le_rfl⟩
  · obtain ⟨parent, venue, side, role, n, heq, hle⟩ := h k hk
    exact ⟨parent, venue, side, role, n, heq, by omega⟩

/-- A submission opens the order and then takes in what the gateway reports. -/
theorem submit_eq {γ : Type} (h : m.KnownIds) (intent : OrderIntent)
    (send : γ → Order → List ExecutionReport × γ) (g : γ) (nowNs : ℕ) :
    let sent := send g (newOrder intent (m.nextId intent) nowNs)
    let m' := sent.1.foldl
      (fun m' r => (m'.onReport (r.completed (m.nextId intent) intent.parentArbId)).observed)
      (m.opened intent nowNs)
    m.submit intent send g nowNs =
      (m', sent.2, (m'.orders[m.nextId intent]?).getD (newOrder intent (m.nextId intent) nowNs)) := by
  have hnew : m.orders[m.nextId intent]? = none :=
    ExtTreeMap.getElem?_eq_none (h.nextId_new intent)
  simp only [submit, nextId, IdGenerator.nextOrder, opened] at hnew ⊢
  simp only [hnew, Option.getD_none]
  rfl

/-- **A submission** through a gateway that reports on the order it is given. -/
theorem submit_spec {γ : Type} (h : m.KnownIds) (intent : OrderIntent)
    (send : γ → Order → List ExecutionReport × γ) (g : γ) (nowNs : ℕ)
    (hsend : ∀ r ∈ (send g (newOrder intent (m.nextId intent) nowNs)).1,
      r.clientOrderId = m.nextId intent) :
    let sent := send g (newOrder intent (m.nextId intent) nowNs)
    let res := m.submit intent send g nowNs
    Reported (m.nextId intent) intent (m.opened intent nowNs)
        (fillsOf intent (m.nextId intent) sent.1) res.1 ∧
      res.1.KnownIds ∧ res.2.1 = sent.2 ∧ res.1.orders[m.nextId intent]? = some res.2.2 := by
  intro sent res
  have horder : ∃ o, (m.opened intent nowNs).orders[m.nextId intent]? = some o ∧
      o.intent = intent ∧ o.clientOrderId = m.nextId intent :=
    ⟨newOrder intent (m.nextId intent) nowNs, by simp [opened], rfl, rfl⟩
  have hrep := reported_foldl intent.parentArbId sent.1 horder hsend
  have hres := submit_eq h intent send g nowNs
  dsimp only at hres
  simp only [res, hres]
  refine ⟨hrep, ?_, rfl, ?_⟩
  · intro k hk
    rw [hrep.ids]
    exact h.opened intent nowNs k ((hrep.keys k).1 hk)
  · obtain ⟨o, ho, -⟩ := hrep.order
    simp only [sent] at ho
    rw [ho]
    rfl

/-! ### Intents -/

/-- What was ordered under an id. -/
def intentOf (m : OrderManager) (id : String) : Option OrderIntent :=
  (m.orders[id]?).map Order.intent

/-- Nothing was ordered under the next id. -/
theorem intentOf_nextId (h : m.KnownIds) (intent : OrderIntent) :
    m.intentOf (m.nextId intent) = none := by
  rw [intentOf, ExtTreeMap.getElem?_eq_none (h.nextId_new intent)]
  rfl

/-- Reports do not change what was ordered. -/
theorem intentOf_onReport (m : OrderManager) (r : ExecutionReport) (id : String) :
    (m.onReport r).intentOf id = m.intentOf id := by
  unfold intentOf
  rw [orders_onReport]
  split_ifs
  · cases m.orders[id]? with
    | none => rfl
    | some o => exact congrArg some (intent_report o r)
  · rfl

/-- A submission adds its intent under the next id. -/
theorem intentOf_submit {γ : Type} (h : m.KnownIds) (intent : OrderIntent)
    (send : γ → Order → List ExecutionReport × γ) (g : γ) (nowNs : ℕ) (k : String) :
    (m.submit intent send g nowNs).1.intentOf k =
      if k = m.nextId intent then some intent else m.intentOf k := by
  have hreports : ∀ (reports : List ExecutionReport) (m' : OrderManager), (reports.foldl
      (fun m' r => (m'.onReport (r.completed (m.nextId intent) intent.parentArbId)).observed)
        m').intentOf k = m'.intentOf k := by
    intro reports
    induction reports with
    | nil => intro m'; rfl
    | cons r reports ih => intro m'; exact (ih _).trans (intentOf_onReport _ _ _)
  have hopened : (m.opened intent nowNs).intentOf k =
      if k = m.nextId intent then some intent else m.intentOf k := by
    by_cases hk : k = m.nextId intent
    · subst hk
      simp [intentOf, opened, newOrder]
    · have hne : compare (m.nextId intent) k ≠ .eq := fun h =>
        hk (LawfulEqCmp.eq_of_compare h).symm
      simp [intentOf, opened, hk, ExtTreeMap.getElem?_insert, hne]
  rw [submit_eq h]
  exact (hreports _ _).trans hopened

/-! ### Every order manager -/

/-- The order managers that any calls lead to, whatever the gateways report. -/
inductive Reachable : OrderManager → Prop
  | start (positions : PositionBook) (ids : IdGenerator) :
      Reachable { positions := positions, ids := ids }
  | submit {m : OrderManager} (h : Reachable m) {γ : Type} (intent : OrderIntent)
      (send : γ → Order → List ExecutionReport × γ) (g : γ) (nowNs : ℕ) :
      Reachable (m.submit intent send g nowNs).1
  | onReport {m : OrderManager} (h : Reachable m) (r : ExecutionReport) : Reachable (m.onReport r)
  | takeNewFills {m : OrderManager} (h : Reachable m) : Reachable m.takeNewFills.2

theorem mem_orders_onReport (m : OrderManager) (r : ExecutionReport) (k : String) :
    k ∈ (m.onReport r).orders ↔ k ∈ m.orders := by
  rw [ExtTreeMap.mem_iff_isSome_getElem?, ExtTreeMap.mem_iff_isSome_getElem?, orders_onReport]
  split_ifs
  · rw [Option.isSome_map]
  · exact Iff.rfl

theorem ids_onReport (m : OrderManager) (r : ExecutionReport) : (m.onReport r).ids = m.ids := by
  unfold onReport
  cases m.orders[r.clientOrderId]? with
  | none => rfl
  | some o =>
    dsimp only
    split_ifs <;> rfl

theorem KnownIds.onReport (h : m.KnownIds) (r : ExecutionReport) : (m.onReport r).KnownIds := by
  intro k hk
  rw [ids_onReport]
  exact h k ((mem_orders_onReport m r k).1 hk)

/-- No order is stored under an id that is still to be issued. -/
theorem Reachable.knownIds (h : m.Reachable) : m.KnownIds := by
  induction h with
  | start positions ids => exact fun k hk => by simp at hk
  | @submit m _ γ intent send g nowNs ih =>
    rw [submit_eq ih]
    dsimp only
    generalize (send g (newOrder intent (m.nextId intent) nowNs)).1 = reports
    have hopened := ih.opened intent nowNs
    generalize m.opened intent nowNs = m' at hopened
    induction reports generalizing m' with
    | nil => exact hopened
    | cons r reports ihr => exact ihr _ (hopened.onReport _)
  | onReport _ r ih => exact ih.onReport r
  | takeNewFills _ ih => exact ih

end OrderManager

end Hft
