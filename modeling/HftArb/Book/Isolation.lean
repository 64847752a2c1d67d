import HftArb.Book.BookManager
import HftArb.Book.Run

/-!
# Books do not mix

A run of the book manager feeds events of many venues and instruments and matches against single
books in between.  `toBook` is what such a call means to one book.  Every other call leaves that
book alone (`book_exec`), so after any run it is what a fresh book becomes on its own calls
(`book_run`).
-/

namespace Hft

open FiniteMap Transition

/-- A call that reaches the books: an event, or a `match_ioc` on the book of a venue and
instrument. -/
inductive ManagerCall
  | onEvent (ev : BookEvent ℤ)
  | matchIoc (venue : Venue) (instrumentId : ℕ) (walk : WalkOrder ℤ) (aggressor : Side)
      (limitPx qty : ℤ)

namespace ManagerCall

/-- What the call does to the book of `venue` and `instrumentId`. -/
def toBook (venue : Venue) (instrumentId : ℕ) : ManagerCall → Option BookOp
  | .onEvent ev =>
      if ev.venue = venue ∧ ev.instrumentId = instrumentId then some (.apply ev) else none
  | .matchIoc v i walk aggressor limitPx qty =>
      if v = venue ∧ i = instrumentId then some (.matchIoc walk aggressor limitPx qty) else none

/-- The call is an event of `venue` and `instrumentId`. -/
def IsEventOf (venue : Venue) (instrumentId : ℕ) : ManagerCall → Prop
  | .onEvent ev => ev.venue = venue ∧ ev.instrumentId = instrumentId
  | .matchIoc _ _ _ _ _ _ => False

end ManagerCall

namespace OrderBook

/-- Nothing is matched against an empty book. -/
theorem matchIoc_new (venue : Venue) (instrumentId : ℕ) (walk : WalkOrder ℤ) (aggressor : Side)
    (limitPx qty : ℤ) :
    ((new venue instrumentId).matchIoc walk aggressor limitPx qty).1 = new venue instrumentId := by
  have hbest : (new venue instrumentId : OrderBook ℤ).best (opposite aggressor) = none := by
    cases hb : (new venue instrumentId : OrderBook ℤ).best (opposite aggressor) with
    | none => rfl
    | some e =>
      have hlevel := level_of_best hb
      rw [level_empty] at hlevel
      cases hlevel
  unfold matchIoc
  split_ifs with hbad
  · rfl
  · dsimp only
    rw [runLoop, matchBody_eq, hbest]
    split_ifs <;> rfl

end OrderBook

namespace BookManager

/-- `match_ioc` on the book of a venue and instrument, if there is one. -/
def matchIoc (m : BookManager) (venue : Venue) (instrumentId : ℕ) (walk : WalkOrder ℤ)
    (aggressor : Side) (limitPx qty : ℤ) : BookManager :=
  match m.book venue instrumentId with
  | none => m
  | some b => m.setBook venue instrumentId (b.matchIoc walk aggressor limitPx qty).1

/-- Make one call. -/
def exec (m : BookManager) : ManagerCall → BookManager
  | .onEvent ev => m.onEvent ev
  | .matchIoc venue instrumentId walk aggressor limitPx qty =>
      m.matchIoc venue instrumentId walk aggressor limitPx qty

variable {m : BookManager} {v : Venue} {i : ℕ} {call : ManagerCall}

/-! ### One call -/

theorem book_onEvent (m : BookManager) (ev : BookEvent ℤ) (v : Venue) (i : ℕ) :
    (m.onEvent ev).book v i =
      if ev.venue = v ∧ ev.instrumentId = i then some (((m.book v i).getD (.new v i)).apply ev)
      else m.book v i := by
  unfold onEvent
  rw [book_setBook]
  split_ifs with hev
  · rw [hev.1, hev.2]
  · rfl

theorem book_matchIoc (m : BookManager) (v v' : Venue) (i i' : ℕ) (walk : WalkOrder ℤ)
    (aggressor : Side) (limitPx qty : ℤ) :
    (m.matchIoc v' i' walk aggressor limitPx qty).book v i =
      if v' = v ∧ i' = i then
        (m.book v i).map fun b => (b.matchIoc walk aggressor limitPx qty).1
      else m.book v i := by
  unfold matchIoc
  by_cases hat : v' = v ∧ i' = i
  · obtain ⟨rfl, rfl⟩ := hat
    cases hb : m.book v' i' with
    | none => simp [hb]
    | some b => simp [book_setBook]
  · cases hb : m.book v' i' with
    | none => simp [hat]
    | some b => simp [book_setBook, hat]

/-- A call that does not concern a book leaves it alone. -/
theorem book_exec (hcall : call.toBook v i = none) : (m.exec call).book v i = m.book v i := by
  cases call with
  | onEvent ev =>
    have hev : ¬(ev.venue = v ∧ ev.instrumentId = i) := by
      simpa [ManagerCall.toBook] using hcall
    simp only [exec, book_onEvent, if_neg hev]
  | matchIoc v' i' walk aggressor limitPx qty =>
    have hat : ¬(v' = v ∧ i' = i) := by simpa [ManagerCall.toBook] using hcall
    simp only [exec, book_matchIoc, if_neg hat]

/-- A call that concerns a book is made on it.  Before the first event there is no book yet, and a
match does nothing: as on an empty book. -/
theorem getD_book_exec {op : BookOp} (hcall : call.toBook v i = some op) :
    ((m.exec call).book v i).getD (.new v i) = ((m.book v i).getD (.new v i)).exec op := by
  cases call with
  | onEvent ev =>
    simp only [ManagerCall.toBook] at hcall
    split_ifs at hcall with hev
    cases hcall
    simp only [exec, book_onEvent, if_pos hev, Option.getD_some, OrderBook.exec]
  | matchIoc v' i' walk aggressor limitPx qty =>
    simp only [ManagerCall.toBook] at hcall
    split_ifs at hcall with hat
    cases hcall
    simp only [exec, book_matchIoc, if_pos hat, OrderBook.exec]
    cases m.book v i with
    | none => exact (OrderBook.matchIoc_new v i walk aggressor limitPx qty).symm
    | some b => rfl

/-- A book comes into being with its first event. -/
theorem book_exec_eq_none :
    (m.exec call).book v i = none ↔ m.book v i = none ∧ ¬ call.IsEventOf v i := by
  cases call with
  | onEvent ev =>
    simp only [exec, book_onEvent, ManagerCall.IsEventOf]
    split_ifs with hev <;> simp [hev]
  | matchIoc v' i' walk aggressor limitPx qty =>
    simp only [exec, book_matchIoc, ManagerCall.IsEventOf]
    split_ifs <;> simp

/-! ### Runs -/

theorem getD_book_run (m : BookManager) (calls : List ManagerCall) (v : Venue) (i : ℕ) :
    ((calls.foldl exec m).book v i).getD (.new v i) =
      (calls.filterMap (ManagerCall.toBook v i)).foldl OrderBook.exec
        ((m.book v i).getD (.new v i)) :=
  @foldl_component _ _ _ _ _ (fun m : BookManager => (m.book v i).getD (.new v i))
    (ManagerCall.toBook v i) OrderBook.exec (fun _ _ hcall => by rw [book_exec hcall])
    (fun _ _ _ hcall => getD_book_exec hcall) m calls

theorem book_run_eq_none (m : BookManager) (calls : List ManagerCall) (v : Venue) (i : ℕ) :
    (calls.foldl exec m).book v i = none ↔
      m.book v i = none ∧ ∀ call ∈ calls, ¬ call.IsEventOf v i := by
  induction calls generalizing m with
  | nil => simp
  | cons call calls ih =>
    rw [List.foldl_cons, ih, book_exec_eq_none]
    simp [and_assoc]

/-- After a run the book of a venue and instrument is what its own calls make of a fresh one. -/
theorem book_run (calls : List ManagerCall) {b : OrderBook ℤ}
    (hb : (calls.foldl exec {}).book v i = some b) :
    b = (calls.filterMap (ManagerCall.toBook v i)).foldl OrderBook.exec (.new v i) := by
  have hrun := getD_book_run {} calls v i
  have hempty : (({} : BookManager).book v i).getD (.new v i) = .new v i := by simp [book]
  rwa [hb, Option.getD_some, hempty] at hrun

/-- The book and the quotes of `venue` and `instrumentId` are those of a fresh book on which only
their own calls were made. -/
structure Isolated (venue : Venue) (instrumentId : ℕ) (calls : List ManagerCall) : Prop where
  book : ∀ b, (calls.foldl exec {}).book venue instrumentId = some b →
    b = (calls.filterMap (ManagerCall.toBook venue instrumentId)).foldl OrderBook.exec
      (.new venue instrumentId)
  quote : ∀ nowNs q, (calls.foldl exec {}).quote venue instrumentId nowNs = some q →
    q = ((calls.filterMap (ManagerCall.toBook venue instrumentId)).foldl OrderBook.exec
      (.new venue instrumentId)).bestQuote nowNs
  absent : (calls.foldl exec {}).book venue instrumentId = none ↔
    ∀ call ∈ calls, ¬ call.IsEventOf venue instrumentId
  unquoted : ∀ nowNs, (calls.foldl exec {}).quote venue instrumentId nowNs = none ↔
    ∀ call ∈ calls, ¬ call.IsEventOf venue instrumentId

theorem isolated (venue : Venue) (instrumentId : ℕ) (calls : List ManagerCall) :
    Isolated venue instrumentId calls := by
  have habsent : (calls.foldl exec {}).book venue instrumentId = none ↔
      ∀ call ∈ calls, ¬ call.IsEventOf venue instrumentId := by
    rw [book_run_eq_none]
    simp [BookManager.book]
  refine ⟨fun b hb => book_run calls hb, fun nowNs q hq => ?_, habsent, fun nowNs => ?_⟩
  · obtain ⟨b, hb, rfl⟩ := Option.map_eq_some_iff.1 hq
    rw [book_run calls hb]
  · rw [quote, Option.map_eq_none_iff]
    exact habsent

theorem isEventOf_iff : call.IsEventOf v i ↔ ∃ ev, call.toBook v i = some (.apply ev) := by
  cases call with
  | onEvent ev => simp [ManagerCall.IsEventOf, ManagerCall.toBook]
  | matchIoc v' i' walk aggressor limitPx qty =>
    simp only [ManagerCall.IsEventOf, ManagerCall.toBook, false_iff, not_exists]
    intro ev hev
    split_ifs at hev
    cases hev

/-- Two runs that agree on the calls of a venue and instrument agree on its book. -/
theorem book_run_congr {calls calls' : List ManagerCall}
    (h : calls.filterMap (ManagerCall.toBook v i) = calls'.filterMap (ManagerCall.toBook v i)) :
    (calls.foldl exec {}).book v i = (calls'.foldl exec {}).book v i := by
  have hevents : ∀ l : List ManagerCall, (∀ call ∈ l, ¬ call.IsEventOf v i) ↔
      ∀ ev, BookOp.apply ev ∉ l.filterMap (ManagerCall.toBook v i) := by
    intro l
    simp only [isEventOf_iff, List.mem_filterMap, not_exists, not_and]
    exact ⟨fun hl ev call hcall => hl call hcall ev, fun hl call hcall ev => hl ev call hcall⟩
  have hnone : (calls.foldl exec {}).book v i = none ↔
      (calls'.foldl exec {}).book v i = none := by
    rw [(isolated v i calls).absent, (isolated v i calls').absent, hevents, hevents, h]
  cases hb : (calls.foldl exec {}).book v i with
  | none => exact (hnone.1 hb).symm
  | some b =>
    cases hb' : (calls'.foldl exec {}).book v i with
    | none => rw [hnone.2 hb'] at hb; cases hb
    | some b' => rw [book_run calls hb, book_run calls' hb', h]

/-- **Venues and instruments do not mix.**  After any run of events and matches the book of a venue
and instrument, and every quote from it, are those of a fresh book on which its own calls were made
in their order; there is none exactly when it had no event.  So two runs in which each book gets
the same calls in the same order end in the same books, however the calls of different books are
interleaved. -/
theorem run_isolated (calls calls' : List ManagerCall) :
    (∀ venue instrumentId, Isolated venue instrumentId calls) ∧
      ((∀ venue instrumentId, calls.filterMap (ManagerCall.toBook venue instrumentId) =
          calls'.filterMap (ManagerCall.toBook venue instrumentId)) →
        ∀ venue instrumentId,
          (calls.foldl exec {}).book venue instrumentId =
              (calls'.foldl exec {}).book venue instrumentId ∧
            ∀ nowNs, (calls.foldl exec {}).quote venue instrumentId nowNs =
              (calls'.foldl exec {}).quote venue instrumentId nowNs) := by
  refine ⟨fun venue instrumentId => isolated venue instrumentId calls, ?_⟩
  intro h venue instrumentId
  have hbook := book_run_congr (h venue instrumentId)
  refine ⟨hbook, fun nowNs => ?_⟩
  rw [quote, quote, hbook]

/-- A resting bid of one venue and instrument. -/
def bidOf (venue : Venue) (instrumentId id : ℕ) : ManagerCall :=
  .onEvent
    { tsExchangeNs := 0
      tsIngestNs := 1
      venue := venue
      instrumentId := instrumentId
      nativeToken := 0
      eventType := .add
      orderId := id
      side := .buy
      pricePaise := 100
      qty := 10
      nativePayload := [] }

/-- Instrument 11 of NSE and instrument 1 of BSE in either order, with a match on the former. -/
theorem run_isolated_swap :
    ([bidOf .nse 11 7, bidOf .bse 1 7, .matchIoc .nse 11 .byId .sell 100 4].foldl exec {}).book
        .bse 1 =
      ([bidOf .bse 1 7, bidOf .nse 11 7, .matchIoc .nse 11 .byId .sell 100 4].foldl exec {}).book
        .bse 1 := by
  refine (((run_isolated _ _).2 fun venue instrumentId => ?_) .bse 1).1
  by_cases hnse : Venue.nse = venue ∧ 11 = instrumentId
  · obtain ⟨rfl, rfl⟩ := hnse
    rfl
  · simp [List.filterMap_cons, ManagerCall.toBook, bidOf, hnse]

end BookManager

end Hft
