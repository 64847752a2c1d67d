import HftArb.Book.IndexView
import HftArb.Book.Run

/-!
# What an IOC order takes

`Allocating` is the invariant of the loop of `match_ioc` price by price: what has been filled at a
price has left the level and the index there, and every better price is used up.  At the end of the
loop the fills are the allocation by price priority (`matchIoc_allocates`), and each of them is
taken from indexed orders in full (`Wf.takenFromIndex`).
-/

namespace Hft

open FiniteMap Transition
open Std (ExtTreeMap TransCmp LawfulEqCmp ReflCmp)

/-! ### Prices in order of priority -/

/-- An aggressor takes from `px` before `px'`. -/
def Better : Side → ℤ → ℤ → Prop
  | .buy, px, px' => px < px'
  | .sell, px, px' => px' < px
  | .unknown, _, _ => False

section Prices

variable {aggressor : Side} {px px' limitPx : ℤ}

theorem within_of_better (h : Better aggressor px px') : WithinLimit aggressor px' px := by
  cases aggressor with
  | buy => exact (show px < px' from h).le
  | sell => exact (show px' < px from h).le
  | unknown => exact h.elim

theorem Better.ne (h : Better aggressor px px') : px ≠ px' := by
  cases aggressor with
  | buy => exact (show px < px' from h).ne
  | sell => exact (show px' < px from h).ne'
  | unknown => exact h.elim

theorem WithinLimit.trans (h : WithinLimit aggressor limitPx px')
    (h' : WithinLimit aggressor px' px) : WithinLimit aggressor limitPx px := by
  cases aggressor with
  | buy => exact le_trans h' h
  | sell => exact le_trans h h'
  | unknown => exact h.elim

theorem not_within_of_better (h : Better aggressor px px') : ¬ WithinLimit aggressor px px' :=
  fun h' => h.ne (WithinLimit.antisymm h' (within_of_better h))

end Prices

/-- The quantity filled at a price. -/
def filledAt (fills : List (LevelFill ℤ)) (px : ℤ) : ℤ :=
  ((fills.filter fun f => f.pricePaise = px).map LevelFill.qty).sum

@[simp] theorem filledAt_nil (px : ℤ) : filledAt [] px = 0 := rfl

theorem filledAt_append (fills : List (LevelFill ℤ)) (f : LevelFill ℤ) (px : ℤ) :
    filledAt (fills ++ [f]) px = filledAt fills px + if px = f.pricePaise then f.qty else 0 := by
  simp only [filledAt, List.filter_append, List.map_append, List.sum_append]
  congr 1
  by_cases hpx : px = f.pricePaise
  · simp [hpx]
  · simp [hpx, Ne.symm hpx]

/-- The fills by price add up to all of them. -/
theorem sum_filledAt {S : Finset ℤ} {fills : List (LevelFill ℤ)}
    (hS : ∀ f ∈ fills, f.pricePaise ∈ S) :
    ∑ px ∈ S, filledAt fills px = (fills.map LevelFill.qty).sum := by
  induction fills using List.reverseRecOn with
  | nil => simp
  | append_singleton fills f ih =>
    simp only [filledAt_append, Finset.sum_add_distrib, Finset.sum_ite_eq']
    rw [ih fun g hg => hS g (by simp [hg]), if_pos (hS f (by simp))]
    simp

/-- A total over all prices loses what was filled, if each price loses what was filled there.  The
prices are those in use before and after, and those of the fills. -/
theorem total_sub_eq (S₁ S₂ : Finset ℤ) {g g' : ℤ → ℤ} {t t' : ℤ} {fills : List (LevelFill ℤ)}
    (h : ∀ px, g' px = g px - filledAt fills px) (ht : ∀ S, S₁ ⊆ S → t = ∑ px ∈ S, g px)
    (ht' : ∀ S, S₂ ⊆ S → t' = ∑ px ∈ S, g' px) : t - t' = (fills.map LevelFill.qty).sum := by
  set S := S₁ ∪ S₂ ∪ (fills.map LevelFill.pricePaise).toFinset with hS
  have hfills : ∀ f ∈ fills, f.pricePaise ∈ S := fun f hf => by
    rw [hS, Finset.mem_union, List.mem_toFinset]
    exact Or.inr (List.mem_map_of_mem hf)
  have hS₁ : S₁ ⊆ S := Finset.subset_union_left.trans Finset.subset_union_left
  have hS₂ : S₂ ⊆ S := Finset.subset_union_right.trans Finset.subset_union_left
  rw [ht S hS₁, ht' S hS₂, ← sum_filledAt hfills, ← Finset.sum_sub_distrib]
  refine Finset.sum_congr rfl fun px _ => ?_
  rw [h]
  omega

theorem filledAt_cons (f : LevelFill ℤ) (fills : List (LevelFill ℤ)) (px : ℤ) :
    filledAt (f :: fills) px = (if f.pricePaise = px then f.qty else 0) + filledAt fills px := by
  unfold filledAt
  by_cases hpx : f.pricePaise = px
  · simp [hpx]
  · simp [hpx]

/-- Where nothing was filled, nothing counts. -/
theorem filledAt_eq_zero {fills : List (LevelFill ℤ)} {px : ℤ}
    (h : ∀ f ∈ fills, f.pricePaise ≠ px) : filledAt fills px = 0 := by
  unfold filledAt
  rw [List.filter_eq_nil_iff.2 fun f hf => by simpa using h f hf]
  rfl

/-- With every price filled once, what was filled at a price is one of the fills. -/
theorem mem_of_filledAt {aggressor : Side} {fills : List (LevelFill ℤ)} {px : ℤ}
    (hworse : fills.Pairwise fun f g => Better aggressor f.pricePaise g.pricePaise)
    (hne : filledAt fills px ≠ 0) : ⟨px, filledAt fills px⟩ ∈ fills := by
  induction fills with
  | nil => exact absurd rfl hne
  | cons f fills ih =>
    rw [List.pairwise_cons] at hworse
    rw [filledAt_cons] at hne ⊢
    by_cases hpx : f.pricePaise = px
    · have hrest : filledAt fills px = 0 :=
        filledAt_eq_zero fun g hg => hpx ▸ (hworse.1 g hg).ne.symm
      rw [if_pos hpx, hrest, add_zero, ← hpx]
      exact List.mem_cons_self
    · rw [if_neg hpx, zero_add] at hne ⊢
      exact List.mem_cons_of_mem f (ih hworse.2 hne)

namespace OrderBook

variable {b b' : OrderBook ℤ} {side s : Side} {px p qty : ℤ}

/-- The prices of one side are finitely many. -/
theorem exists_prices (b : OrderBook ℤ) (side : Side) :
    ∃ S : Finset ℤ, ∀ px level, b.level side px = some level → px ∈ S := by
  cases side with
  | buy =>
    refine ⟨b.bids.keys.toFinset, fun px level hl => ?_⟩
    have hsome : b.bids[px]? = some level := hl
    rw [List.mem_toFinset, ExtTreeMap.mem_keys, ExtTreeMap.mem_iff_isSome_getElem?, hsome]
    rfl
  | sell =>
    refine ⟨b.asks.keys.toFinset, fun px level hl => ?_⟩
    have hsome : b.asks[px]? = some level := hl
    rw [List.mem_toFinset, ExtTreeMap.mem_keys, ExtTreeMap.mem_iff_isSome_getElem?, hsome]
    rfl
  | unknown => exact ⟨∅, fun px level hl => by cases hl⟩

theorem level_of_best_none (h : b.best side = none) (px : ℤ) : b.level side px = none := by
  cases side with
  | buy => exact front_eq_none_iff.1 h px
  | sell => exact front_eq_none_iff.1 h px
  | unknown => rfl

/-! ### One turn -/

/-- Orders of the other side are untouched when a level is consumed. -/
theorem getElem?_consume_of_ne (h : b.Wf) (side : Side) (px : ℤ) (ids : List ℕ) (hqty : 0 ≤ qty)
    {id : ℕ} {o : RestingOrder ℤ} (hside : o.side ≠ side) :
    (b.consumeOrdersAtPrice ids side px qty).orders[id]? = some o ↔ b.orders[id]? = some o := by
  have hspec := OrderIndex.consumeLoop_spec side px ids b.orders qty [] hqty (.of_ok h.index)
  unfold consumeOrdersAtPrice
  generalize consumeLoop side px ids b.orders qty [] = res at hspec ⊢
  obtain ⟨m, remaining, eraseIds⟩ := res
  dsimp only at hspec ⊢
  rw [orders_removeFromLevel, OrderIndex.getElem?_eraseAll]
  have hsame := hspec.shrunk id
  constructor
  · intro ho
    split_ifs at ho
    obtain ⟨o₀, ho₀, hs, -⟩ := hspec.shrunk.exists_of_some ho
    rw [ho₀, ho] at hsame
    rw [ho₀, hsame.2.2.2 fun hat => hside (hs.trans hat.1)]
  · intro ho
    cases hm : m[id]? with
    | none => rw [ho, hm] at hsame; exact hsame.elim
    | some o' =>
      rw [ho, hm] at hsame
      have he : o' = o := hsame.2.2.2 fun hat => hside hat.1
      -- an order with something left is not marked for erasure
      have hpos := (h.index id o ho).1
      have hmark := ((hspec.walking id o' hm).2.2).2
      rw [he] at hmark ⊢
      rw [if_neg fun hin => by have := hmark hin; omega]

end OrderBook

/-! ### The depth within a limit -/

namespace OrderBook

/-- The depth that an aggressor with this limit can see. -/
def depthWithin (b : OrderBook ℤ) (aggressor : Side) (limitPx : ℤ) : ℤ :=
  match aggressor with
  | .buy => total b.asks fun px qty => if px ≤ limitPx then qty else 0
  | .sell => total b.bids fun px qty => if limitPx ≤ px then qty else 0
  | .unknown => 0

/-- The depth within a limit, level by level. -/
theorem depthWithin_eq_sum {b : OrderBook ℤ} {aggressor : Side} {S : Finset ℤ}
    (hS : ∀ px level, b.level (opposite aggressor) px = some level → px ∈ S) (limitPx : ℤ) :
    b.depthWithin aggressor limitPx = ∑ px ∈ S,
      if WithinLimit aggressor limitPx px then b.depthAt (opposite aggressor) px else 0 := by
  cases aggressor with
  | buy =>
    change total b.asks (fun px qty => if px ≤ limitPx then qty else 0) = _
    rw [total_eq_sum (m := b.asks) hS]
    refine Finset.sum_congr rfl fun px _ => ?_
    simp only [WithinLimit, depthAt, opposite]
    cases b.asks[px]? <;> by_cases hpx : px ≤ limitPx <;> simp [hpx]
  | sell =>
    change total b.bids (fun px qty => if limitPx ≤ px then qty else 0) = _
    rw [total_eq_sum (m := b.bids) hS]
    refine Finset.sum_congr rfl fun px _ => ?_
    simp only [WithinLimit, depthAt, opposite]
    cases b.bids[px]? <;> by_cases hpx : limitPx ≤ px <;> simp [hpx]
  | unknown => simp [depthWithin, WithinLimit]

/-- The depth of a side, level by level. -/
theorem totalDepth_eq_sum {b : OrderBook ℤ} {side : Side} {S : Finset ℤ}
    (hS : ∀ px level, b.level side px = some level → px ∈ S) :
    b.totalDepth side = ∑ px ∈ S, b.depthAt side px := by
  cases side with
  | buy =>
    change total b.bids (fun _ qty => qty) = _
    rw [total_eq_sum (m := b.bids) hS]
    refine Finset.sum_congr rfl fun px _ => ?_
    simp only [depthAt]
    cases b.bids[px]? <;> rfl
  | sell =>
    change total b.asks (fun _ qty => qty) = _
    rw [total_eq_sum (m := b.asks) hS]
    refine Finset.sum_congr rfl fun px _ => ?_
    simp only [depthAt]
    cases b.asks[px]? <;> rfl
  | unknown => simp [totalDepth]

end OrderBook

/-! ### The loop -/

/-- The loop of a `match_ioc` on `b`, price by price. -/
structure Allocating (b : OrderBook ℤ) (aggressor : Side) (s : MatchState ℤ) : Prop where
  depthAt : ∀ px, s.book.depthAt (opposite aggressor) px =
    b.depthAt (opposite aggressor) px - filledAt s.fills px
  qtyAt : ∀ px, OrderIndex.qtyAt s.book.orders (opposite aggressor) px =
    OrderIndex.qtyAt b.orders (opposite aggressor) px - filledAt s.fills px
  ownDepth : ∀ px, s.book.depthAt aggressor px = b.depthAt aggressor px
  ownOrders : ∀ (id : ℕ) o, o.side = aggressor →
    (s.book.orders[id]? = some o ↔ b.orders[id]? = some o)
  worsening : s.fills.Pairwise fun f g => Better aggressor f.pricePaise g.pricePaise
  exhausted : ∀ f ∈ s.fills, ∀ px, Better aggressor px f.pricePaise →
    s.book.depthAt (opposite aggressor) px = 0
  -- while something is wanted, the last level is used up too
  last : 0 < s.qty → ∀ f ∈ s.fills, s.book.depthAt (opposite aggressor) f.pricePaise = 0

section Loop

variable {walk : WalkOrder ℤ} {aggressor : Side} {limitPx qty : ℤ} {b : OrderBook ℤ}
  {s s' : MatchState ℤ}

theorem Allocating.start (b : OrderBook ℤ) (aggressor : Side) (qty : ℤ) :
    Allocating b aggressor ⟨b, qty, [], 0⟩ := by
  constructor <;> simp

theorem opposite_ne (h : WithinLimit aggressor limitPx px) : opposite aggressor ≠ aggressor := by
  cases aggressor with
  | buy => decide
  | sell => decide
  | unknown => exact h.elim

/-- The best level of a book from which every better price was taken is worse than all fills. -/
theorem Allocating.worse (h : Allocating b aggressor s) (hwf : s.book.Wf) (hqty : 0 < s.qty)
    {px level : ℤ} (hbest : s.book.best (opposite aggressor) = some (px, level))
    (hlimit : WithinLimit aggressor limitPx px) {f : LevelFill ℤ} (hf : f ∈ s.fills)
    (hfill : WithinLimit aggressor limitPx f.pricePaise) : Better aggressor f.pricePaise px := by
  have hlevel := OrderBook.level_of_best hbest
  have hdepth : 0 < s.book.depthAt (opposite aggressor) px := by
    rw [OrderBook.depthAt_eq, hlevel, Option.getD_some]
    exact hwf.levels.pos hlevel
  by_contra hnot
  -- otherwise the level is at or before a price already filled, hence used up
  have hzero : s.book.depthAt (opposite aggressor) px = 0 := by
    by_cases hpx : px = f.pricePaise
    · rw [hpx]
      exact h.last hqty f hf
    · refine h.exhausted f hf px ?_
      cases aggressor with
      | buy => exact lt_of_le_of_ne (not_lt.1 hnot) hpx
      | sell => exact lt_of_le_of_ne (not_lt.1 hnot) (Ne.symm hpx)
      | unknown => exact hlimit.elim
  omega

theorem Allocating.turn (hinv : MatchInv b aggressor limitPx qty s) (h : Allocating b aggressor s)
    (hbody : matchBody walk aggressor limitPx s = .yield s') : Allocating b aggressor s' := by
  obtain ⟨px, level, hbest, hopen, hlimit, rfl⟩ := matchBody_yield hbody
  have hpos : 0 < s.qty := not_le.1 hopen
  have hwf := hinv.keeps.wf
  have hlevel := OrderBook.level_of_best hbest
  have hl0 : 0 < level := hwf.levels.pos hlevel
  have hdepth : s.book.depthAt (opposite aggressor) px = level := by
    rw [OrderBook.depthAt_eq, hlevel, Option.getD_some]
  have hfill0 : 0 ≤ min s.qty level := le_min hpos.le hl0.le
  have htaken := OrderBook.consume_taken hwf (opposite aggressor) px
    (walk.perm s.walks s.book.orders) hfill0 (by rw [hdepth]; exact min_le_right _ _)
  have hopp : opposite aggressor ≠ aggressor := opposite_ne hlimit
  have hworse : ∀ f ∈ s.fills, Better aggressor f.pricePaise px := fun f hf =>
    h.worse hwf hpos hbest hlimit hf (hinv.fills f hf).2
  have hrest : ∀ p, (s.fill walk (opposite aggressor) px (min s.qty level)).book.depthAt
      (opposite aggressor) p = s.book.depthAt (opposite aggressor) p -
        if p = px then min s.qty level else 0 := by
    intro p
    have hd := htaken.depthAt (opposite aggressor) p
    simp only [true_and] at hd
    exact hd
  constructor
  · intro p
    rw [hrest, h.depthAt]
    simp only [MatchState.fill, filledAt_append]
    omega
  · intro p
    have hq := htaken.qtyAt (opposite aggressor) p
    simp only [true_and] at hq
    simp only [MatchState.fill, filledAt_append]
    rw [hq, h.qtyAt]
    omega
  · intro p
    have hd := htaken.depthAt aggressor p
    rw [if_neg fun hat => hopp hat.1.symm, sub_zero, h.ownDepth] at hd
    exact hd
  · intro id o hside
    rw [← h.ownOrders id o hside]
    exact OrderBook.getElem?_consume_of_ne hwf (opposite aggressor) px _ hfill0
      (by rw [hside]; exact hopp.symm)
  · simp only [MatchState.fill]
    refine List.pairwise_append.2 ⟨h.worsening, List.pairwise_singleton _ _, fun f hf g hg => ?_⟩
    rw [List.mem_singleton.1 hg]
    exact hworse f hf
  · intro f hf p hbetter
    rw [hrest]
    rcases List.mem_append.1 hf with hmem | hmem
    · have hp : p ≠ px := by
        rintro rfl
        exact not_within_of_better hbetter (within_of_better (hworse f hmem))
      rw [h.exhausted f hmem p hbetter, if_neg hp, sub_zero]
    · -- a level better than the best one does not exist
      rw [List.mem_singleton.1 hmem] at hbetter
      have hp : p ≠ px := hbetter.ne
      rw [if_neg hp, sub_zero]
      have hd0 := hwf.levels.depthAt_nonneg (opposite aggressor) p
      by_contra hne
      have hold : s.book.level (opposite aggressor) p =
          some (s.book.depthAt (opposite aggressor) p) := by
        rw [hwf.levels, visible_of_pos (by omega)]
      exact not_within_of_better hbetter (OrderBook.best_within hbest hold)
  · intro hleft f hf
    rw [hrest]
    change 0 < s.qty - min s.qty level at hleft
    rcases List.mem_append.1 hf with hf | hf
    · rw [h.last hpos f hf, if_neg (hworse f hf).ne, sub_zero]
    · -- more is still wanted, so the level was the smaller of the two and is taken in full
      rw [List.mem_singleton.1 hf, if_pos rfl, hdepth]
      omega

/-- What `match_ioc` has done when its loop stops. -/
structure Allocation (b : OrderBook ℤ) (aggressor : Side) (limitPx qty : ℤ)
    (res : OrderBook ℤ × List (LevelFill ℤ)) : Prop where
  fills : ∀ f ∈ res.2, 0 < f.qty ∧ WithinLimit aggressor limitPx f.pricePaise
  worsening : res.2.Pairwise fun f g => Better aggressor f.pricePaise g.pricePaise
  inFull : ∀ f ∈ res.2, ∀ px level, Better aggressor px f.pricePaise →
    b.level (opposite aggressor) px = some level → ⟨px, level⟩ ∈ res.2
  filled : (res.2.map LevelFill.qty).sum = min qty (b.depthWithin aggressor limitPx)
  taken : ∀ px, res.1.depthAt (opposite aggressor) px =
    b.depthAt (opposite aggressor) px - filledAt res.2 px
  beyond : ∀ px, ¬ WithinLimit aggressor limitPx px →
    res.1.level (opposite aggressor) px = b.level (opposite aggressor) px
  ownLevels : ∀ px, res.1.level aggressor px = b.level aggressor px
  ownOrders : ∀ (id : ℕ) o, o.side = aggressor →
    (res.1.orders[id]? = some o ↔ b.orders[id]? = some o)

/-- Levels of well formed books with the same depth are the same. -/
theorem OrderBook.Wf.level_eq {b b' : OrderBook ℤ} (h : b.Wf) (h' : b'.Wf) {side : Side} {px : ℤ}
    (hd : b'.depthAt side px = b.depthAt side px) : b'.level side px = b.level side px := by
  rw [h.levels, h'.levels, hd]

/-- The loop stops when nothing is wanted, or when no level is within the limit. -/
theorem matchBody_done_cases (hbody : matchBody walk aggressor limitPx s = .done s') :
    s.qty ≤ 0 ∨ ∀ px level, s.book.level (opposite aggressor) px = some level →
      ¬ WithinLimit aggressor limitPx px := by
  rw [matchBody_eq] at hbody
  by_cases hqty : s.qty ≤ 0
  · exact Or.inl hqty
  · right
    intro px level hlevel hlimit
    rw [if_neg hqty] at hbody
    cases hbest : s.book.best (opposite aggressor) with
    | none =>
      rw [OrderBook.level_of_best_none hbest] at hlevel
      cases hlevel
    | some e =>
      rw [hbest] at hbody
      dsimp only at hbody
      rw [if_pos (hlimit.trans (OrderBook.best_within hbest hlevel))] at hbody
      cases hbody

/-- What is filled is what the depth within the limit loses. -/
theorem Allocating.depthWithin (hinv : MatchInv b aggressor limitPx qty s)
    (h : Allocating b aggressor s) : b.depthWithin aggressor limitPx =
      s.book.depthWithin aggressor limitPx + (s.fills.map LevelFill.qty).sum := by
  obtain ⟨S₁, hS₁⟩ := b.exists_prices (opposite aggressor)
  obtain ⟨S₂, hS₂⟩ := s.book.exists_prices (opposite aggressor)
  -- nothing is filled beyond the limit, so the depth within it loses all that is filled
  have hwithin : ∀ px, (if WithinLimit aggressor limitPx px then
      s.book.depthAt (opposite aggressor) px else 0) =
        (if WithinLimit aggressor limitPx px then b.depthAt (opposite aggressor) px else 0) -
          filledAt s.fills px := by
    intro px
    by_cases hlimit : WithinLimit aggressor limitPx px
    · rw [if_pos hlimit, if_pos hlimit, h.depthAt]
    · have hzero : filledAt s.fills px = 0 :=
        filledAt_eq_zero fun f hf hpx => hlimit (hpx ▸ (hinv.fills f hf).2)
      rw [if_neg hlimit, if_neg hlimit, hzero, sub_zero]
  have hloss := @total_sub_eq S₁ S₂ _ _ (b.depthWithin aggressor limitPx)
    (s.book.depthWithin aggressor limitPx) s.fills hwithin
    (fun S hS => OrderBook.depthWithin_eq_sum (fun px level hl => hS (hS₁ px level hl)) limitPx)
    (fun S hS => OrderBook.depthWithin_eq_sum (fun px level hl => hS (hS₂ px level hl)) limitPx)
  omega

theorem OrderBook.Wf.depthWithin_nonneg (h : b.Wf) (aggressor : Side) (limitPx : ℤ) :
    0 ≤ b.depthWithin aggressor limitPx := by
  obtain ⟨S, hS⟩ := b.exists_prices (opposite aggressor)
  rw [OrderBook.depthWithin_eq_sum hS]
  refine Finset.sum_nonneg fun px _ => ?_
  split_ifs
  · exact h.levels.depthAt_nonneg _ _
  · exact le_rfl

/-- Without a level within the limit there is no depth within it. -/
theorem OrderBook.depthWithin_eq_zero
    (h : ∀ px level, b.level (opposite aggressor) px = some level →
      ¬ WithinLimit aggressor limitPx px) : b.depthWithin aggressor limitPx = 0 := by
  obtain ⟨S, hS⟩ := b.exists_prices (opposite aggressor)
  rw [OrderBook.depthWithin_eq_sum hS]
  refine Finset.sum_eq_zero fun px _ => ?_
  split_ifs with hlimit
  · rw [OrderBook.depthAt_eq]
    cases hl : b.level (opposite aggressor) px with
    | none => rfl
    | some level => exact absurd hlimit (h px level hl)
  · rfl

theorem Allocating.allocation (hwf : b.Wf) (hinv : MatchInv b aggressor limitPx qty s)
    (h : Allocating b aggressor s) (hdone : matchBody walk aggressor limitPx s = .done s') :
    Allocation b aggressor limitPx qty (s.book, s.fills) := by
  have hwf' := hinv.keeps.wf
  refine ⟨hinv.fills, h.worsening, ?_, ?_, h.depthAt, ?_, ?_, h.ownOrders⟩
  · intro f hf px level hbetter hlevel
    have hpos := hwf.levels.pos hlevel
    have hdepth : b.depthAt (opposite aggressor) px = level := by
      rw [OrderBook.depthAt_eq, hlevel, Option.getD_some]
    have hzero := h.exhausted f hf px hbetter
    -- a better price is exhausted, so its one fill is the whole level
    rw [h.depthAt, hdepth] at hzero
    have hfilled : filledAt s.fills px = level := by omega
    have hne : filledAt s.fills px ≠ 0 := by omega
    have hmem := mem_of_filledAt h.worsening hne
    rwa [hfilled] at hmem
  · have hsplit := h.depthWithin hinv
    have hsum := hinv.sum
    have hqty := hinv.qty_nonneg
    have hrest := hwf'.depthWithin_nonneg aggressor limitPx
    dsimp only
    -- all is filled, or the limit has nothing left to give
    rcases matchBody_done_cases hdone with hall | hnone
    · omega
    · have hzero := OrderBook.depthWithin_eq_zero hnone
      omega
  · intro px hbeyond
    refine hwf.level_eq hwf' ?_
    have hzero : filledAt s.fills px = 0 :=
      filledAt_eq_zero fun f hf hpx => hbeyond (hpx ▸ (hinv.fills f hf).2)
    rw [h.depthAt, hzero, sub_zero]
  · exact fun px => hwf.level_eq hwf' (h.ownDepth px)

/-- The invariants of the loop, in the state in which `match_ioc` returns. -/
theorem matchIoc_allocating (hwf : b.Wf) (walk : WalkOrder ℤ) (aggressor : Side)
    (hlimit : 0 < limitPx) (hqty : 0 < qty) :
    ∃ s s', b.matchIoc walk aggressor limitPx qty = (s.book, s.fills) ∧
      MatchInv b aggressor limitPx qty s ∧ Allocating b aggressor s ∧
      matchBody walk aggressor limitPx s = .done s' := by
  have hends := matchLoop_ends walk aggressor limitPx hwf hqty.le
  unfold OrderBook.matchIoc
  rw [if_neg (by omega)]
  refine hends.induct
    (I := fun s => MatchInv b aggressor limitPx qty s ∧ Allocating b aggressor s)
    (R := fun t => ∃ s s', (t.book, t.fills) = (s.book, s.fills) ∧
      MatchInv b aggressor limitPx qty s ∧ Allocating b aggressor s ∧
      matchBody walk aggressor limitPx s = .done s')
    ⟨.start hwf hqty.le, .start b aggressor qty⟩
    (fun _ _ hs hbody => ⟨(hs.1.turn hbody).1, hs.2.turn hs.1 hbody⟩) fun s t hs hbody => ?_
  have ht := matchBody_done hbody
  exact ⟨s, t, by rw [ht], hs.1, hs.2, hbody⟩

theorem matchIoc_allocation (hwf : b.Wf) (walk : WalkOrder ℤ) (aggressor : Side)
    (hlimit : 0 < limitPx) (hqty : 0 < qty) :
    Allocation b aggressor limitPx qty (b.matchIoc walk aggressor limitPx qty) := by
  obtain ⟨s, s', hres, hinv, halloc, hdone⟩ :=
    matchIoc_allocating hwf walk aggressor hlimit hqty
  rw [hres]
  exact halloc.allocation hwf hinv hdone

end Loop

/-! ### The index -/

namespace OrderIndex

/-- The quantity of one side, price by price. -/
theorem sideQty_eq_sum {orders : OrderIndex ℤ} {side : Side} {S : Finset ℤ}
    (hS : ∀ (id : ℕ) o, orders[id]? = some o → o.side = side → o.pricePaise ∈ S) :
    sideQty orders side = ∑ px ∈ S, qtyAt orders side px := by
  have hshare : ∀ (id : ℕ) o, orders[id]? = some o →
      (if o.side = side then o.qty else 0) = ∑ px ∈ S, o.share side px := by
    intro id o ho
    simp only [RestingOrder.share]
    by_cases hside : o.side = side
    · simp only [hside, true_and, if_true]
      rw [Finset.sum_ite_eq S o.pricePaise, if_pos (hS id o ho hside)]
    · simp [hside]
  unfold sideQty qtyAt
  rw [total_congr hshare, total_sum_comm]

/-- The prices of the orders are finitely many. -/
theorem exists_prices (orders : OrderIndex ℤ) :
    ∃ S : Finset ℤ, ∀ (id : ℕ) o, orders[id]? = some o → o.pricePaise ∈ S := by
  refine ⟨(orders.toList.map fun e => e.2.pricePaise).toFinset, fun id o ho => ?_⟩
  rw [List.mem_toFinset]
  exact List.mem_map.2 ⟨(id, o), ExtTreeMap.mem_toList_iff_getElem?_eq_some.2 ho, rfl⟩

end OrderIndex

namespace OrderBook

/-- What `match_ioc` reports is taken from the index: price by price, and in sum. -/
structure TakenFromIndex (b : OrderBook ℤ) (aggressor : Side)
    (res : OrderBook ℤ × List (LevelFill ℤ)) : Prop where
  qtyAt : ∀ px, OrderIndex.qtyAt b.orders (opposite aggressor) px -
    OrderIndex.qtyAt res.1.orders (opposite aggressor) px = filledAt res.2 px
  sideQty : OrderIndex.sideQty b.orders (opposite aggressor) -
    OrderIndex.sideQty res.1.orders (opposite aggressor) = (res.2.map LevelFill.qty).sum

/-- The index loses at each price what was filled there, so in sum what was filled. -/
theorem TakenFromIndex.of_qtyAt {b : OrderBook ℤ} {aggressor : Side}
    {res : OrderBook ℤ × List (LevelFill ℤ)}
    (h : ∀ px, OrderIndex.qtyAt res.1.orders (opposite aggressor) px =
      OrderIndex.qtyAt b.orders (opposite aggressor) px - filledAt res.2 px) :
    TakenFromIndex b aggressor res := by
  obtain ⟨S₁, hS₁⟩ := OrderIndex.exists_prices b.orders
  obtain ⟨S₂, hS₂⟩ := OrderIndex.exists_prices res.1.orders
  refine ⟨fun px => by rw [h]; omega, total_sub_eq S₁ S₂ h (fun S hS => ?_) fun S hS => ?_⟩
  · exact OrderIndex.sideQty_eq_sum fun id o ho _ => hS (hS₁ id o ho)
  · exact OrderIndex.sideQty_eq_sum fun id o ho _ => hS (hS₂ id o ho)

theorem Wf.takenFromIndex {b : OrderBook ℤ} (h : b.Wf) (walk : WalkOrder ℤ) (aggressor : Side)
    (limitPx qty : ℤ) : TakenFromIndex b aggressor (b.matchIoc walk aggressor limitPx qty) := by
  by_cases hbad : qty ≤ 0 ∨ limitPx ≤ 0
  · rw [matchIoc, if_pos hbad]
    exact .of_qtyAt fun px => by simp
  · have hpos : 0 < limitPx ∧ 0 < qty := by omega
    obtain ⟨s, s', hres, -, halloc, -⟩ := matchIoc_allocating h walk aggressor hpos.1 hpos.2
    rw [hres]
    exact .of_qtyAt halloc.qtyAt

/-- What `match_ioc` reports is what the other side of the book loses, price by price and in sum, and
its own side loses nothing. -/
structure TakenFromDepth (b : OrderBook ℤ) (aggressor : Side)
    (res : OrderBook ℤ × List (LevelFill ℤ)) : Prop where
  depthAt : ∀ px, b.depthAt (opposite aggressor) px - res.1.depthAt (opposite aggressor) px =
    filledAt res.2 px
  totalDepth : b.totalDepth (opposite aggressor) - res.1.totalDepth (opposite aggressor) =
    (res.2.map LevelFill.qty).sum
  own : ∀ px, res.1.depthAt aggressor px = b.depthAt aggressor px

theorem TakenFromDepth.of_depthAt {b : OrderBook ℤ} {aggressor : Side}
    {res : OrderBook ℤ × List (LevelFill ℤ)}
    (h : ∀ px, res.1.depthAt (opposite aggressor) px =
      b.depthAt (opposite aggressor) px - filledAt res.2 px)
    (hown : ∀ px, res.1.depthAt aggressor px = b.depthAt aggressor px) :
    TakenFromDepth b aggressor res := by
  obtain ⟨S₁, hS₁⟩ := b.exists_prices (opposite aggressor)
  obtain ⟨S₂, hS₂⟩ := res.1.exists_prices (opposite aggressor)
  refine ⟨fun px => by rw [h]; omega, total_sub_eq S₁ S₂ h (fun S hS => ?_) fun S hS => ?_, hown⟩
  · exact totalDepth_eq_sum fun px level hl => hS (hS₁ px level hl)
  · exact totalDepth_eq_sum fun px level hl => hS (hS₂ px level hl)

theorem Wf.takenFromDepth {b : OrderBook ℤ} (h : b.Wf) (walk : WalkOrder ℤ) (aggressor : Side)
    (limitPx qty : ℤ) : TakenFromDepth b aggressor (b.matchIoc walk aggressor limitPx qty) := by
  by_cases hbad : qty ≤ 0 ∨ limitPx ≤ 0
  · rw [matchIoc, if_pos hbad]
    exact .of_depthAt (fun px => by simp) fun px => rfl
  · have hpos : 0 < limitPx ∧ 0 < qty := by omega
    obtain ⟨s, s', hres, -, halloc, -⟩ := matchIoc_allocating h walk aggressor hpos.1 hpos.2
    rw [hres]
    exact .of_depthAt halloc.depthAt halloc.ownDepth

/-! ### Every reachable book -/

/-- **IOC matching allocates by price priority**, in every book that a run of events and matches
reaches. -/
theorem matchIoc_allocates (venue : Venue) (instrumentId : ℕ) (ops : List BookOp)
    (walk : WalkOrder ℤ) (aggressor : Side) {limitPx qty : ℤ} (hlimit : 0 < limitPx)
    (hqty : 0 < qty) :
    Allocation (ops.foldl exec (new venue instrumentId)) aggressor limitPx qty
      ((ops.foldl exec (new venue instrumentId)).matchIoc walk aggressor limitPx qty) :=
  matchIoc_allocation (wf_run venue instrumentId ops) walk aggressor hlimit hqty

/-- Two ask levels, the better one damaged by a trade of an unknown id. -/
theorem matchIoc_allocates_damaged :
    Allocation
      ([.add 1 .sell 100 10, .add 2 .sell 101 10, .trade 0 .sell 100 4].foldl exec (new .nse 1))
      .buy 101 8
      (([.add 1 .sell 100 10, .add 2 .sell 101 10, .trade 0 .sell 100 4].foldl exec
        (new .nse 1)).matchIoc .byId .buy 101 8) :=
  matchIoc_allocates .nse 1 _ .byId .buy (by decide) (by decide)

/-- **No phantom liquidity.**  After any run of events and matches no level shows more than the
orders indexed there, and whatever `match_ioc` reports is taken from indexed orders in full. -/
theorem no_phantom_liquidity (venue : Venue) (instrumentId : ℕ) (ops : List BookOp) :
    (∀ side px qty, (ops.foldl exec (new venue instrumentId)).level side px = some qty →
        qty ≤ OrderIndex.qtyAt (ops.foldl exec (new venue instrumentId)).orders side px) ∧
      ∀ walk aggressor limitPx qty,
        TakenFromIndex (ops.foldl exec (new venue instrumentId)) aggressor
          ((ops.foldl exec (new venue instrumentId)).matchIoc walk aggressor limitPx qty) := by
  have hwf := wf_run venue instrumentId ops
  refine ⟨fun side px qty hlevel => ?_, fun walk aggressor limitPx qty =>
    hwf.takenFromIndex walk aggressor limitPx qty⟩
  have hhidden := hwf.hidden_nonneg side px
  rw [hidden, depthAt_eq, hlevel, Option.getD_some] at hhidden
  omega

end OrderBook

end Hft
