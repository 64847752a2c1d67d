import HftArb.Book.MachineBook

/-!
# Overflow of a level

Level quantities are unchecked 64-bit sums.  While every sum fits, the book is one over the
integers (`Refines`), so levels are positive and a `match_ioc` ends with positive fills
(`Refines.safe`).  The first sum that does not fit leaves a negative level behind
(`Refines.not_safe`), which a match would report as a negative fill.
-/

namespace Hft

open FiniteMap Transition MachineInt
open Std (ExtTreeMap TransCmp LawfulEqCmp)

namespace OrderBook

theorem Refines.best {b : OrderBook Int64} {B : OrderBook ℤ} (h : Refines b B) (side : Side) :
    B.best side = (b.best side).map fun e => (e.1, e.2.toInt) := by
  cases side with
  | buy => exact h.bids.front
  | sell => exact h.asks.front
  | unknown => rfl

end OrderBook

/-! ### The loop of `match_ioc` -/

section Loop

variable {walk : WalkOrder Int64} {aggressor : Side} {limitPx : ℤ} {s s' : MatchState Int64}

/-- The loop stays a book over the integers, and its fills are positive. -/
structure MachineMatch (s : MatchState Int64) : Prop where
  book : ∃ B, s.book.Refines B ∧ B.Wf
  qty_nonneg : 0 ≤ s.qty.toInt
  fills : ∀ f ∈ s.fills, 0 < f.qty.toInt

theorem MachineMatch.turn (h : MachineMatch s)
    (hbody : matchBody walk aggressor limitPx s = .yield s') :
    MachineMatch s' ∧ s'.qty.toInt.toNat < s.qty.toInt.toNat := by
  obtain ⟨px, level, hbest, hopen, -, rfl⟩ := matchBody_yield hbody
  have hpos : 0 < s.qty.toInt := not_le.1 fun hle => hopen (le_zero_iff.2 hle)
  obtain ⟨B, hB, hwf⟩ := h.book
  have hBbest : B.best (opposite aggressor) = some (px, level.toInt) := by
    rw [hB.best, hbest]
    rfl
  have hBlevel := OrderBook.level_of_best hBbest
  have hl0 : 0 < level.toInt := hwf.levels.pos hBlevel
  have hmin : (min s.qty level).toInt = min s.qty.toInt level.toInt := toInt_min
  have hmin0 : 0 < (min s.qty level).toInt := by
    rw [hmin]
    exact lt_min hpos hl0
  have hdepth : B.depthAt (opposite aggressor) px = level.toInt := by
    rw [OrderBook.depthAt_eq, hBlevel, Option.getD_some]
  -- the walk through the machine's index is also one through the exact index
  have hids := (walk.perm s.walks s.book.orders).trans hB.orders.keys_perm
  have htaken := OrderBook.consume_taken hwf (opposite aggressor) px hids hmin0.le
    (by rw [hdepth, hmin]; exact min_le_right _ _)
  have hsub : (s.qty - min s.qty level).toInt = s.qty.toInt - (min s.qty level).toInt :=
    toInt_sub_of_nonneg h.qty_nonneg hmin0.le
  refine ⟨⟨⟨_, hB.consume hwf _ _ px hmin0.le, htaken.keeps.wf⟩, ?_, ?_⟩, ?_⟩
  · simp only [MatchState.fill]
    omega
  · intro f hf
    rcases List.mem_append.1 hf with hmem | hmem
    · exact h.fills f hmem
    · rw [List.mem_singleton.1 hmem]
      exact hmin0
  · simp only [MatchState.fill]
    omega

end Loop

namespace OrderBook

/-- `match_ioc` in 64-bit arithmetic.  As long as levels are positive `qty` bounds the number of
turns (`MachineMatch.turn`). -/
def machineMatchIoc (b : OrderBook Int64) (walk : WalkOrder Int64) (aggressor : Side)
    (limitPx : ℤ) (qty : Int64) : OrderBook Int64 × List (LevelFill Int64) :=
  if qty ≤ 0 ∨ limitPx ≤ 0 then (b, [])
  else
    let s := runLoop (matchBody walk aggressor limitPx) (qty.toInt.toNat + 1) ⟨b, qty, [], 0⟩
    (s.book, s.fills)

/-- Levels are positive, and every `match_ioc` ends and reports positive quantities only. -/
structure Safe (b : OrderBook Int64) : Prop where
  levels : ∀ side px qty, b.level side px = some qty → 0 < qty
  matching : ∀ walk aggressor limitPx qty, 0 < limitPx → 0 < qty →
    ∃ s, Ends (matchBody walk aggressor limitPx) ⟨b, qty, [], 0⟩ s ∧ ∀ f ∈ s.fills, 0 < f.qty

variable {b : OrderBook Int64} {B : OrderBook ℤ}

/-- The loop of `match_ioc` on a refined book ends. -/
theorem Refines.matchLoop (h : Refines b B) (hwf : B.Wf) (walk : WalkOrder Int64)
    (aggressor : Side) (limitPx : ℤ) {qty : Int64} (hqty : 0 ≤ qty.toInt) :
    Ends (matchBody walk aggressor limitPx) ⟨b, qty, [], 0⟩
        (runLoop (matchBody walk aggressor limitPx) (qty.toInt.toNat + 1) ⟨b, qty, [], 0⟩) ∧
      MachineMatch
        (runLoop (matchBody walk aggressor limitPx) (qty.toInt.toNat + 1) ⟨b, qty, [], 0⟩) := by
  have hstart : MachineMatch ⟨b, qty, [], 0⟩ := ⟨⟨B, h, hwf⟩, hqty, by simp⟩
  have hends : Ends (matchBody walk aggressor limitPx) ⟨b, qty, [], 0⟩
      (runLoop (matchBody walk aggressor limitPx) (qty.toInt.toNat + 1) ⟨b, qty, [], 0⟩) :=
    runLoop_ends (I := MachineMatch) (μ := fun s => s.qty.toInt.toNat)
      (fun _ _ hs hb => (hs.turn hb).1) (fun _ _ hs hb => (hs.turn hb).2) hstart
      (Nat.lt_succ_self _)
  refine ⟨hends, hends.induct (I := MachineMatch) hstart (fun _ _ hs hb => (hs.turn hb).1) ?_⟩
  intro s t hs hb
  rwa [matchBody_done hb]

theorem Refines.safe (h : Refines b B) (hwf : B.Wf) : b.Safe := by
  constructor
  · intro side px qty hl
    have hL : B.level side px = some qty.toInt := by
      rw [← h.level, hl]
      rfl
    exact Int64.lt_iff_toInt_lt.2 (hwf.levels.pos hL)
  · intro walk aggressor limitPx qty _ hqty
    obtain ⟨hends, hloop⟩ := h.matchLoop hwf walk aggressor limitPx
      (Int64.lt_iff_toInt_lt.1 hqty).le
    exact ⟨_, hends, fun f hf => Int64.lt_iff_toInt_lt.2 (hloop.fills f hf)⟩

/-! ### A sum that does not fit -/

theorem level_rest {id : ℕ} {o : RestingOrder Int64} (hside : o.side ≠ .unknown) :
    (b.rest id o).level o.side o.pricePaise =
      some (b.shown o.side o.pricePaise + o.qty) := by
  unfold rest addLevel
  cases ho : o.side with
  | buy => simp [level, shown, addToLevel]
  | sell => simp [level, shown, addToLevel]
  | unknown => exact absurd ho hside

/-- An order comes to rest by an add, or by the modify of an order that is not there, or of one
that is. -/
theorem rested_cases {ev : BookEvent Int64} {o : RestingOrder Int64} (h : b.rested ev = some o) :
    ((ev.eventType = .add ∨ ev.eventType = .modify ∧ b.orders[ev.orderId]? = none) ∧
      ¬(ev.orderId = 0 ∨ ev.side = .unknown ∨ ev.pricePaise ≤ 0 ∨ ev.qty ≤ 0) ∧
      o = ⟨ev.side, ev.pricePaise, ev.qty⟩) ∨
    ∃ old, ev.eventType = .modify ∧ b.orders[ev.orderId]? = some old ∧ ¬ ev.qty ≤ 0 ∧
      o = ⟨if ev.side = .unknown then old.side else ev.side, ev.pricePaise, ev.qty⟩ := by
  unfold rested at h
  cases hev : ev.eventType with
  | add =>
    rw [hev] at h
    dsimp only at h
    split_ifs at h with hbad
    cases h
    exact Or.inl ⟨Or.inl rfl, hbad, rfl⟩
  | modify =>
    rw [hev] at h
    dsimp only at h
    cases ho : b.orders[ev.orderId]? with
    | none =>
      rw [ho] at h
      dsimp only at h
      split_ifs at h with hbad
      cases h
      exact Or.inl ⟨Or.inr ⟨rfl, rfl⟩, hbad, rfl⟩
    | some old =>
      rw [ho] at h
      dsimp only at h
      by_cases hle : ev.qty ≤ 0
      · rw [if_pos hle] at h
        cases h
      · rw [if_neg hle] at h
        cases h
        exact Or.inr ⟨old, rfl, rfl, hle, rfl⟩
  | cancel => rw [hev] at h; cases h
  | trade => rw [hev] at h; cases h
  | reset => rw [hev] at h; cases h
  | heartbeat => rw [hev] at h; cases h
  | unknown => rw [hev] at h; cases h

/-- An event that rests an order cancels the older one with the same id first. -/
theorem apply_rested {ev : BookEvent Int64} {o : RestingOrder Int64} (h : b.rested ev = some o) :
    b.apply ev = ((b.withHeader ev).cancel ev.orderId).rest ev.orderId o := by
  unfold OrderBook.apply
  rcases rested_cases h with ⟨hev | ⟨hev, ho⟩, hgood, rfl⟩ | ⟨old, hev, ho, hqty, rfl⟩
  · rw [hev]
    exact add_eq hgood
  · rw [hev]
    exact (modify_new (b := b.withHeader ev) ho).trans (add_eq hgood)
  · rw [hev]
    exact (modify_eq (b := b.withHeader ev) ho).trans (if_neg hqty)

/-- What an event rests has a known side. -/
theorem Refines.rested_side (h : Refines b B) (hwf : B.Wf) {ev : BookEvent Int64}
    {o : RestingOrder Int64} (ho : b.rested ev = some o) : o.side ≠ .unknown := by
  rcases rested_cases ho with ⟨-, hgood, rfl⟩ | ⟨old, -, hold, -, rfl⟩
  · exact fun hside => hgood (Or.inr (Or.inl hside))
  · dsimp only
    split_ifs with hside
    · exact (hwf.index ev.orderId old.exact (h.orders.some hold)).2
    · exact hside

/-- A sum that leaves the 64 bits leaves a negative level. -/
theorem Refines.not_safe (h : Refines b B) (hwf : B.Wf) {ev : BookEvent Int64}
    (hover : ¬ b.Fits ev) : ¬ (b.apply ev).Safe := by
  intro hsafe
  unfold Fits at hover
  push Not at hover
  obtain ⟨o, ho, hsum⟩ := hover
  have hlevel := @level_rest ((b.withHeader ev).cancel ev.orderId) ev.orderId o
    (h.rested_side hwf ho)
  rw [← apply_rested ho, shown_cancel_withHeader] at hlevel
  have hpos := Int64.lt_iff_toInt_lt.1 (hsafe.levels _ _ _ hlevel)
  have hneg := toInt_add_neg hsum
  rw [Int64.toInt_zero] at hpos
  omega

end OrderBook

/-! ### Runs -/

/-- An operation of a run in 64-bit arithmetic. -/
inductive MachineOp
  | apply (ev : BookEvent Int64)
  | matchIoc (walk : WalkOrder Int64) (aggressor : Side) (limitPx : ℤ) (qty : Int64)

namespace OrderBook

variable {b : OrderBook Int64}

/-- Perform one operation. -/
def machineExec (b : OrderBook Int64) : MachineOp → OrderBook Int64
  | .apply ev => b.apply ev
  | .matchIoc walk aggressor limitPx qty => (b.machineMatchIoc walk aggressor limitPx qty).1

/-- The operation adds nothing to a level that does not fit there. -/
def FitsOp (b : OrderBook Int64) : MachineOp → Prop
  | .apply ev => b.Fits ev
  | .matchIoc _ _ _ _ => True

/-- The book is one over the integers. -/
def Representable (b : OrderBook Int64) : Prop := ∃ B, Refines b B ∧ B.Wf

theorem Representable.exec (h : b.Representable) {op : MachineOp} (hfits : b.FitsOp op) :
    (b.machineExec op).Representable := by
  obtain ⟨B, hB, hwf⟩ := h
  cases op with
  | apply ev => exact ⟨_, hB.apply hwf hfits, wf_exec hwf (.apply ev.exact)⟩
  | matchIoc walk aggressor limitPx qty =>
    simp only [machineExec, machineMatchIoc]
    split_ifs with hbad
    · exact ⟨B, hB, hwf⟩
    · have hqty : 0 ≤ qty.toInt := by
        rw [not_or, le_zero_iff] at hbad
        omega
      exact (hB.matchLoop hwf walk aggressor limitPx hqty).2.book

/-- **When matching is safe.**  In 64-bit arithmetic, all along a run from the empty book levels are
positive and every `match_ioc` ends with positive fills, exactly when no event adds a quantity to a
level whose sum exceeds `2 ^ 63 - 1`. -/
theorem safe_iff (venue : Venue) (instrumentId : ℕ) (ops : List MachineOp) :
    (∀ pre, pre <+: ops → (pre.foldl machineExec (new venue instrumentId)).Safe) ↔
      AllSteps machineExec FitsOp (new venue instrumentId) ops := by
  have hnew : Refines (new venue instrumentId) (new venue instrumentId) := .new venue instrumentId
  refine forall_prefix_iff (I := Representable) (P := Safe)
    (fun b op h _ hfits => h.exec hfits) (fun b op h hsafe => ?_)
    ⟨_, hnew, .new venue instrumentId⟩ (hnew.safe (.new venue instrumentId)) ops
  constructor
  · intro hnext
    obtain ⟨B, hB, hwf⟩ := h
    cases op with
    | apply ev => exact not_not.1 fun hover => hB.not_safe hwf hover hnext
    | matchIoc walk aggressor limitPx qty => trivial
  · intro hfits
    obtain ⟨B, hB, hwf⟩ := h.exec hfits
    exact hB.safe hwf

/-- A bid for `qty` at 100. -/
def bidFor (id : ℕ) (qty : Int64) : MachineOp :=
  .apply
    { tsExchangeNs := 0
      tsIngestNs := 1
      venue := .nse
      instrumentId := 1
      nativeToken := 1594
      eventType := .add
      orderId := id
      side := .buy
      pricePaise := 100
      qty := qty
      nativePayload := [] }

/-- Two bids at one price: `2 ^ 63 - 1` and 1. -/
def fullLevel : List MachineOp := [bidFor 1 Int64.maxValue, bidFor 2 1]

/-- Their level is `-2 ^ 63`. -/
theorem not_safe_fullLevel :
    ¬ ∀ pre, pre <+: fullLevel → (pre.foldl machineExec (new .nse 1)).Safe := by
  intro h
  have hlevel := (h fullLevel List.prefix_rfl).levels .buy 100 Int64.minValue (by decide +kernel)
  exact absurd hlevel (by decide +kernel)

end OrderBook

end Hft
