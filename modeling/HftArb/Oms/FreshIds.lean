import HftArb.Oms.Reporting

/-!
# Ids of a 64-bit generator

The counters of an `IdGenerator` are atomics of 64 bits.  `nextParent64` and `nextOrder64` wrap
them.  Fewer than `2 ^ 64` calls draw different numbers, and an id ends in its number, so no two
calls of one kind return the same id (`pairwise_returned`).  Until the counter wraps, an order
manager with these ids does what the one over the natural numbers does (`submit64_eq`), and so it
never finds an older order under a new id (`ids_unique`).
-/

namespace Hft

open Std (ExtTreeMap)

namespace IdGenerator

/-- `next_parent` on a counter of 64 bits. -/
def nextParent64 (g : IdGenerator) (instrumentId : ℕ) : String × IdGenerator :=
  let n := (g.parentSeq + 1) % 2 ^ 64
  (parentIdText g.idPrefix instrumentId n, { g with parentSeq := n })

/-- `next_order` on a counter of 64 bits. -/
def nextOrder64 (g : IdGenerator) (parentId : String) (venue : Venue) (side : Side)
    (role : OrderRole) : String × IdGenerator :=
  let n := (g.orderSeq + 1) % 2 ^ 64
  (orderIdText parentId venue side role n, { g with orderSeq := n })

end IdGenerator

/-! ### Calls of a generator -/

/-- A call of an `IdGenerator`. -/
inductive IdCall
  | nextParent (instrumentId : ℕ)
  | nextOrder (parentId : String) (venue : Venue) (side : Side) (role : OrderRole)
  deriving DecidableEq, Repr

namespace IdCall

/-- The call asks for an order id. -/
def isOrder : IdCall → Bool
  | .nextParent _ => false
  | .nextOrder _ _ _ _ => true

/-- The id with number `n`. -/
def text (idPrefix : String) (n : ℕ) : IdCall → String
  | .nextParent instrumentId => parentIdText idPrefix instrumentId n
  | .nextOrder parentId venue side role => orderIdText parentId venue side role n

theorem text_inj {c c' : IdCall} {p p' : String} {n n' : ℕ} (hkind : c.isOrder = c'.isOrder)
    (h : c.text p n = c'.text p' n') : n = n' := by
  cases c with
  | nextParent i =>
    cases c' with
    | nextParent i' => exact parentIdText_inj h
    | nextOrder _ _ _ _ => cases hkind
  | nextOrder p v s r =>
    cases c' with
    | nextParent _ => cases hkind
    | nextOrder p' v' s' r' => exact orderIdText_inj h

end IdCall

namespace IdGenerator

/-- Make one call. -/
def exec64 (g : IdGenerator) : IdCall → String × IdGenerator
  | .nextParent instrumentId => g.nextParent64 instrumentId
  | .nextOrder parentId venue side role => g.nextOrder64 parentId venue side role

/-- The calls of a run, each with what it returns. -/
def returned : IdGenerator → List IdCall → List (IdCall × String)
  | _, [] => []
  | g, c :: calls => (c, (g.exec64 c).1) :: returned (g.exec64 c).2 calls

/-- The counter of order ids or of parent ids. -/
def seq (g : IdGenerator) (isOrder : Bool) : ℕ := if isOrder then g.orderSeq else g.parentSeq

theorem exec64_fst (g : IdGenerator) (c : IdCall) :
    (g.exec64 c).1 = c.text g.idPrefix ((g.seq c.isOrder + 1) % 2 ^ 64) := by
  cases c <;> rfl

theorem idPrefix_exec64 (g : IdGenerator) (c : IdCall) : (g.exec64 c).2.idPrefix = g.idPrefix := by
  cases c <;> rfl

/-- A call moves the counter of its kind. -/
theorem seq_exec64 (g : IdGenerator) (c : IdCall) (isOrder : Bool) :
    (g.exec64 c).2.seq isOrder =
      if c.isOrder = isOrder then (g.seq isOrder + 1) % 2 ^ 64 else g.seq isOrder := by
  cases c <;> cases isOrder <;> rfl

/-- What is returned has a number between the next one and the one after all calls. -/
theorem number_of_returned {g : IdGenerator} {calls : List IdCall} {c : IdCall} {id : String}
    (h : (c, id) ∈ returned g calls) :
    ∃ k, 1 ≤ k ∧ k ≤ calls.length ∧ id = c.text g.idPrefix ((g.seq c.isOrder + k) % 2 ^ 64) := by
  induction calls generalizing g with
  | nil => cases h
  | cons c' calls ih =>
    rcases List.mem_cons.1 h with heq | hmem
    · cases heq
      exact ⟨1, le_rfl, Nat.succ_pos _, exec64_fst g c⟩
    · obtain ⟨k, hone, hle, rfl⟩ := ih hmem
      rw [idPrefix_exec64, seq_exec64]
      split_ifs with hkind
      · refine ⟨k + 1, by omega, Nat.succ_le_succ hle, ?_⟩
        rw [Nat.mod_add_mod, Nat.add_right_comm, Nat.add_assoc]
      · exact ⟨k, hone, hle.trans (Nat.le_succ _), rfl⟩

/-- **No id is drawn twice**: of fewer than `2 ^ 64` calls, two of one kind return different ids. -/
theorem pairwise_returned {g : IdGenerator} {calls : List IdCall} (h : calls.length < 2 ^ 64) :
    (returned g calls).Pairwise fun a b => a.1.isOrder = b.1.isOrder → a.2 ≠ b.2 := by
  induction calls generalizing g with
  | nil => exact List.Pairwise.nil
  | cons c calls ih =>
    rw [List.length_cons] at h
    refine List.pairwise_cons.2 ⟨?_, ih (by omega)⟩
    rintro ⟨c', id⟩ hmem hkind heq
    obtain ⟨k, hone, hle, rfl⟩ := number_of_returned hmem
    dsimp only at hkind heq
    rw [exec64_fst, seq_exec64, if_pos hkind, hkind] at heq
    have hnumber := IdCall.text_inj hkind heq
    omega

end IdGenerator

/-! ### Orders under 64-bit ids -/

namespace OrderManager

variable {m : OrderManager}

/-- The id of the next order, with counters of 64 bits. -/
def nextId64 (m : OrderManager) (intent : OrderIntent) : String :=
  (m.ids.nextOrder64 intent.parentArbId intent.venue intent.side intent.role).1

/-- The order that `submit` sends: the one under the new id, should there be one already. -/
def sentOrder64 (m : OrderManager) (intent : OrderIntent) (nowNs : ℕ) : Order :=
  (m.orders[m.nextId64 intent]?).getD (newOrder intent (m.nextId64 intent) nowNs)

/-- `submit` with counters of 64 bits. -/
def submit64 {γ : Type} (m : OrderManager) (intent : OrderIntent)
    (send : γ → Order → List ExecutionReport × γ) (gateway : γ) (nowNs : ℕ) :
    OrderManager × γ × Order :=
  let (id, ids) := m.ids.nextOrder64 intent.parentArbId intent.venue intent.side intent.role
  let o := m.sentOrder64 intent nowNs
  let m := { m with ids := ids, orders := m.orders.insert id o }
  let (reports, gateway) := send gateway o
  let m := reports.foldl
    (fun m r => (m.onReport (r.completed o.clientOrderId intent.parentArbId)).observed) m
  (m, gateway, (m.orders[id]?).getD o)

/-- The order managers with 64-bit ids after any calls, `n` of them submissions. -/
inductive Issued : ℕ → OrderManager → Prop
  | start (positions : PositionBook) : Issued 0 { positions := positions }
  | submit {n : ℕ} {m : OrderManager} (h : Issued n m) {γ : Type} (intent : OrderIntent)
      (send : γ → Order → List ExecutionReport × γ) (g : γ) (nowNs : ℕ) :
      Issued (n + 1) (m.submit64 intent send g nowNs).1
  | onReport {n : ℕ} {m : OrderManager} (h : Issued n m) (r : ExecutionReport) :
      Issued n (m.onReport r)
  | takeNewFills {n : ℕ} {m : OrderManager} (h : Issued n m) : Issued n m.takeNewFills.2

theorem nextOrder64_eq {g : IdGenerator} (h : g.orderSeq + 1 < 2 ^ 64) (parentId : String)
    (venue : Venue) (side : Side) (role : OrderRole) :
    g.nextOrder64 parentId venue side role = g.nextOrder parentId venue side role := by
  rw [IdGenerator.nextOrder64, Nat.mod_eq_of_lt h]
  rfl

/-- Before the counter wraps, nothing is different. -/
theorem submit64_eq {γ : Type} (h : m.ids.orderSeq + 1 < 2 ^ 64) (intent : OrderIntent)
    (send : γ → Order → List ExecutionReport × γ) (g : γ) (nowNs : ℕ) :
    m.submit64 intent send g nowNs = m.submit intent send g nowNs := by
  unfold submit64 submit sentOrder64 nextId64
  rw [nextOrder64_eq h]

theorem orderSeq_submit {γ : Type} (h : m.KnownIds) (intent : OrderIntent)
    (send : γ → Order → List ExecutionReport × γ) (g : γ) (nowNs : ℕ) :
    (m.submit intent send g nowNs).1.ids.orderSeq = m.ids.orderSeq + 1 := by
  have hreports : ∀ (reports : List ExecutionReport) (m' : OrderManager), (reports.foldl
      (fun m' r => (m'.onReport (r.completed (m.nextId intent) intent.parentArbId)).observed)
        m').ids = m'.ids := by
    intro reports
    induction reports with
    | nil => intro m'; rfl
    | cons r reports ih => intro m'; exact (ih _).trans (ids_onReport _ _)
  rw [submit_eq h]
  exact congrArg IdGenerator.orderSeq (hreports _ _)

/-- Fewer than `2 ^ 64` submissions are those of the order manager over the natural numbers. -/
theorem Issued.reachable {n : ℕ} (h : Issued n m) (hn : n < 2 ^ 64) :
    m.Reachable ∧ m.ids.orderSeq = n := by
  induction h with
  | start positions => exact ⟨.start positions _, rfl⟩
  | @submit n m _ γ intent send g nowNs ih =>
    obtain ⟨hreach, hseq⟩ := ih (by omega)
    rw [submit64_eq (by omega)]
    exact ⟨hreach.submit intent send g nowNs,
      (orderSeq_submit hreach.knownIds intent send g nowNs).trans (by rw [hseq])⟩
  | onReport _ r ih =>
    obtain ⟨hreach, hseq⟩ := ih hn
    exact ⟨hreach.onReport r, by rw [ids_onReport, hseq]⟩
  | takeNewFills _ ih =>
    obtain ⟨hreach, hseq⟩ := ih hn
    exact ⟨hreach.takeNewFills, hseq⟩

end OrderManager

/-- **Ids are unique.**  Of fewer than `2 ^ 64` calls of one generator no two of one kind return the
same id; and after fewer than `2 ^ 64 - 1` submissions the next one finds no older order under its
id and sends the order it has made. -/
theorem ids_unique (g : IdGenerator) (calls : List IdCall) (h : calls.length < 2 ^ 64) :
    ((g.returned calls).Pairwise fun a b => a.1.isOrder = b.1.isOrder → a.2 ≠ b.2) ∧
    ∀ (n : ℕ) (m : OrderManager), m.Issued n → n + 1 < 2 ^ 64 → ∀ (intent : OrderIntent)
      (nowNs : ℕ), m.nextId64 intent ∉ m.orders ∧
        m.sentOrder64 intent nowNs =
          OrderManager.newOrder intent (m.nextId64 intent) nowNs := by
  refine ⟨IdGenerator.pairwise_returned h, fun n m hissued hn intent nowNs => ?_⟩
  obtain ⟨hreach, hseq⟩ := hissued.reachable (by omega)
  have hnew : m.nextId64 intent ∉ m.orders := by
    rw [OrderManager.nextId64, OrderManager.nextOrder64_eq (by omega)]
    exact hreach.knownIds.nextId_new intent
  refine ⟨hnew, ?_⟩
  rw [OrderManager.sentOrder64, ExtTreeMap.getElem?_eq_none hnew, Option.getD_none]

/-- Two parents and an order, and the first submission. -/
theorem ids_unique_first :
    (IdGenerator.returned {} [.nextParent 7, .nextOrder "HFT-ARB-7-1" .nse .buy .alphaBuy,
      .nextParent 7]).Pairwise (fun a b => a.1.isOrder = b.1.isOrder → a.2 ≠ b.2) ∧
    OrderManager.sentOrder64 {} {} 5 =
      OrderManager.newOrder {} (OrderManager.nextId64 {} {}) 5 := by
  have h := ids_unique {} [.nextParent 7, .nextOrder "HFT-ARB-7-1" .nse .buy .alphaBuy,
    .nextParent 7] (by decide)
  exact ⟨h.1, (h.2 0 {} (.start {}) (by decide) {} 5).2⟩

end Hft
