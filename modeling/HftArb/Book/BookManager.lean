import HftArb.Book.OrderBook
import HftArb.Common.Ids

/-!
# `book/book_manager`: one book for each venue and instrument

`books_` is keyed by the text `"<venue>:<instrument>"`.  Its iteration order is never observed by
the operations modelled here.
-/

namespace Hft

open Std (ExtTreeMap LawfulEqCmp)

/-- `BookManager::key`. -/
def bookKey (venue : Venue) (instrumentId : ℕ) : String :=
  toString venue.toInt ++ ":" ++ toString instrumentId

/-- `class BookManager`. -/
structure BookManager where
  books : ExtTreeMap String (OrderBook ℤ) := ∅

namespace BookManager

/-- `book`. -/
def book (m : BookManager) (venue : Venue) (instrumentId : ℕ) : Option (OrderBook ℤ) :=
  m.books[bookKey venue instrumentId]?

/-- Store the book of a venue and instrument. -/
def setBook (m : BookManager) (venue : Venue) (instrumentId : ℕ) (b : OrderBook ℤ) : BookManager :=
  ⟨m.books.insert (bookKey venue instrumentId) b⟩

/-- `on_event`, without the quote it returns, which its caller discards. -/
def onEvent (m : BookManager) (ev : BookEvent ℤ) : BookManager :=
  let b := (m.book ev.venue ev.instrumentId).getD (.new ev.venue ev.instrumentId)
  m.setBook ev.venue ev.instrumentId (b.apply ev)

/-- `quote`. -/
def quote (m : BookManager) (venue : Venue) (instrumentId nowNs : ℕ) : Option BestQuote :=
  (m.book venue instrumentId).map fun b => b.bestQuote nowNs

end BookManager

/-! ### Keys -/

/-- The key of a book determines venue and instrument. -/
theorem bookKey_inj {v v' : Venue} {i i' : ℕ} : bookKey v i = bookKey v' i' ↔ v = v' ∧ i = i' := by
  constructor
  · intro h
    obtain ⟨hvenue, rfl⟩ := numeral_inj (c := ':') (by decide) (by decide) h
    refine ⟨?_, rfl⟩
    cases v <;> cases v' <;> first | rfl | exact absurd hvenue (by decide)
  · rintro ⟨rfl, rfl⟩
    rfl

namespace BookManager

theorem book_setBook (m : BookManager) (v v' : Venue) (i i' : ℕ) (b : OrderBook ℤ) :
    (m.setBook v i b).book v' i' = if v = v' ∧ i = i' then some b else m.book v' i' := by
  simp only [book, setBook, ExtTreeMap.getElem?_insert, LawfulEqCmp.compare_eq_iff_eq, bookKey_inj]

end BookManager

end Hft
