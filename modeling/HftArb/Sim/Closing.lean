import HftArb.Book.Allocation
import HftArb.Book.Isolation
import HftArb.Oms.Overfill
import HftArb.Sim.Submission

/-!
# Every submitted order is closed

The gateway reports a rejection, or an ack, the fills of the match and the expiry of what is left.
The ack comes first or between the other two, which only its own time remembers, so the state of the
order is that of its last other report (`state_matchReports`).  Together with what the match takes
from the book (`OrderBook.Wf.takenFromDepth`) this closes every order consistently
(`OrderManager.submit_closed`).
-/

namespace Hft

open Std (ExtTreeMap LawfulEqCmp)

namespace Order

/-! ### Reports on a new order -/

/-- The ids of a report do not matter to the order. -/
theorem foldl_completed (o : Order) (id parent : String) (rs : List ExecutionReport) :
    (rs.map fun r => r.completed id parent).foldl report o = rs.foldl report o := by
  rw [List.foldl_map]
  rfl

/-- The last report other than an ack. -/
theorem withoutAck_foldl_last {o : Order} {rs own : List ExecutionReport} {r : ExecutionReport}
    (hown : (rs.filter fun r => r.type ≠ .ack) = own ++ [r]) :
    (rs.foldl report o).withoutAck = ((own.foldl report o).report r).withoutAck := by
  have hne : (rs.filter fun r => r.type ≠ .ack) ≠ [] := by
    rw [hown]
    exact List.append_ne_nil_of_right_ne_nil _ (List.cons_ne_nil _ _)
  rw [withoutAck_foldl_filter rs rfl hne, hown, List.foldl_append]
  rfl

/-- A fill that reaches the quantity ends the order. -/
theorem report_fill {o : Order} {r : ExecutionReport} (hr : r.type = .fill)
    (hall : o.intent.qty ≤ o.filledQty + r.qty) :
    (o.report r).state = .filled ∧ (o.report r).tsDoneNs = r.tsNs := by
  simp [report, hr, hall]

theorem report_expire {o : Order} {r : ExecutionReport} (hr : r.type = .expire) :
    (o.report r).state = (if 0 < o.filledQty then .partial_ else .expired) ∧
      (o.report r).tsDoneNs = r.tsNs := by
  simp [report, hr]

theorem report_reject {o : Order} {r : ExecutionReport} (hr : r.type = .reject) :
    (o.report r).state = (if 0 < o.filledQty then .partial_ else .rejected) ∧
      (o.report r).tsDoneNs = r.tsNs := by
  simp [report, hr]

theorem state_congr {o o' : Order} (h : o.withoutAck = o'.withoutAck) : o.state = o'.state := by
  change o.withoutAck.state = o'.withoutAck.state
  rw [h]

theorem tsDoneNs_congr {o o' : Order} (h : o.withoutAck = o'.withoutAck) :
    o.tsDoneNs = o'.tsDoneNs := by
  change o.withoutAck.tsDoneNs = o'.withoutAck.tsDoneNs
  rw [h]

end Order

/-- What the reports expire together. -/
def expiredBy (rs : List ExecutionReport) : ℤ :=
  (rs.map fun r => if r.type = .expire then r.qty else 0).sum

/-- A reject was reported. -/
def Refused (rs : List ExecutionReport) : Prop := ∃ r ∈ rs, r.type = .reject

namespace MatchingEngine

open OrderManager

/-! ### The reports of a match -/

section MatchReports

variable {intent : OrderIntent} {id : String} {nowNs ts : ℕ} {delayedAck : Bool}
  {order : Order} {levelFills : List (LevelFill ℤ)}

theorem filledBy_fillReports :
    filledBy (fillReports order ts levelFills) = (levelFills.map LevelFill.qty).sum := by
  rw [filledBy, fillReports, List.map_map]
  rfl

theorem filledBy_matchReports : filledBy (matchReports delayedAck order ts levelFills) =
    (levelFills.map LevelFill.qty).sum := by
  rw [← filledBy_filter_fill, filter_fill_matchReports, filledBy_fillReports]

/-- What is reported as filled at a price was filled there. -/
theorem filledBy_matchReports_at (px : ℤ) :
    filledBy ((matchReports delayedAck order ts levelFills).filter fun r => r.pricePaise = px) =
      filledAt levelFills px := by
  rw [← filledBy_filter_fill, List.filter_comm, filter_fill_matchReports, fillReports,
    List.filter_map, filledBy, List.map_map]
  rfl

/-- What is not filled expires. -/
theorem expiredBy_matchReports (hle : (levelFills.map LevelFill.qty).sum ≤ order.intent.qty) :
    expiredBy (matchReports delayedAck order ts levelFills) =
      order.intent.qty - (levelFills.map LevelFill.qty).sum := by
  have hfills : ((levelFills.map fun lf => makeReport order ts .fill lf.pricePaise lf.qty "").map
      fun r => if r.type = .expire then r.qty else 0).sum = 0 := by
    rw [List.map_map]
    refine List.sum_eq_zero fun q hq => ?_
    obtain ⟨lf, -, rfl⟩ := List.mem_map.1 hq
    rfl
  have hack : ∀ px reason, (if (makeReport order ts .ack px 0 reason).type = .expire then
      (makeReport order ts .ack px 0 reason).qty else 0) = 0 := fun _ _ => rfl
  simp only [expiredBy, matchReports, List.map_append, List.sum_append, hfills]
  cases delayedAck <;> split_ifs <;> simp [makeReport] <;> omega

/-- All reports of a match have its time, and none is a rejection. -/
theorem mem_matchReports {r : ExecutionReport}
    (hr : r ∈ matchReports delayedAck order ts levelFills) : r.tsNs = ts ∧ r.type ≠ .reject := by
  simp only [matchReports, List.mem_append, List.mem_map] at hr
  rcases hr with ((hr | ⟨lf, hlf, rfl⟩) | hr) | hr
  · cases delayedAck <;> simp at hr
    subst hr
    exact ⟨rfl, by simp [makeReport]⟩
  · exact ⟨rfl, by simp [makeReport]⟩
  · cases delayedAck <;> simp at hr
    subst hr
    exact ⟨rfl, by simp [makeReport]⟩
  · split_ifs at hr
    · rw [List.mem_singleton.1 hr]
      exact ⟨rfl, by simp [makeReport]⟩
    · cases hr

/-- Apart from acks a match reports its fills and then the expiry of what is left. -/
theorem filter_matchReports : ((matchReports delayedAck order ts levelFills).filter
    fun r => r.type ≠ .ack) = fillReports order ts levelFills ++
      if (levelFills.map LevelFill.qty).sum < order.intent.qty then
        [makeReport order ts .expire order.intent.pricePaise
          (order.intent.qty - (levelFills.map LevelFill.qty).sum) "IOC_REMAINDER_EXPIRED"]
      else [] := by
  have hfills : (fillReports order ts levelFills).filter (fun r => r.type ≠ .ack) =
      fillReports order ts levelFills := by
    rw [List.filter_eq_self]
    intro r hr
    rw [type_fillReports r hr]
    rfl
  unfold fillReports at hfills ⊢
  simp only [matchReports, List.filter_append, hfills]
  cases delayedAck <;> split_ifs <;> simp [makeReport]

/-- The state a match leaves a new order in is that of its last report other than an ack. -/
theorem state_matchReports (hqty : 0 < intent.qty)
    (hle : (levelFills.map LevelFill.qty).sum ≤ intent.qty) :
    ((matchReports delayedAck (newOrder intent id nowNs) ts levelFills).foldl Order.report
        (newOrder intent id nowNs)).state =
      (if (levelFills.map LevelFill.qty).sum = intent.qty then .filled
        else if 0 < (levelFills.map LevelFill.qty).sum then .partial_ else .expired) ∧
    ((matchReports delayedAck (newOrder intent id nowNs) ts levelFills).foldl Order.report
        (newOrder intent id nowNs)).tsDoneNs = ts := by
  have hown := @filter_matchReports ts delayedAck (newOrder intent id nowNs) levelFills
  have hintent : (newOrder intent id nowNs).intent = intent := rfl
  rw [hintent] at hown
  by_cases hall : (levelFills.map LevelFill.qty).sum = intent.qty
  · -- everything is filled: the last fill makes the order `Filled`
    rw [if_neg (by rw [hall]; exact lt_irrefl _), List.append_nil] at hown
    rcases List.eq_nil_or_concat levelFills with rfl | ⟨init, lf, rfl⟩
    · rw [List.map_nil, List.sum_nil] at hall
      omega
    · rw [List.concat_eq_append] at hall hown ⊢
      rw [fillReports, List.map_append, List.map_cons, List.map_nil] at hown
      have hlast := @Order.withoutAck_foldl_last (newOrder intent id nowNs) _ _ _ hown
      rw [Order.state_congr hlast, Order.tsDoneNs_congr hlast, if_pos hall]
      refine Order.report_fill rfl ?_
      have hfilled := @filledBy_fillReports ts (newOrder intent id nowNs) init
      unfold fillReports at hfilled
      rw [Order.intent_foldl, Order.filledQty_foldl, hfilled]
      simp only [newOrder, zero_add]
      rw [← hall, List.map_append, List.sum_append]
      exact le_of_eq (by simp [makeReport])
  · -- something is left: the expiry goes by what was filled
    rw [if_pos (lt_of_le_of_ne hle hall)] at hown
    have hlast := @Order.withoutAck_foldl_last (newOrder intent id nowNs) _ _ _ hown
    rw [Order.state_congr hlast, Order.tsDoneNs_congr hlast, if_neg hall]
    have hexpired := @Order.report_expire
      ((fillReports (newOrder intent id nowNs) ts levelFills).foldl Order.report
        (newOrder intent id nowNs))
      (makeReport (newOrder intent id nowNs) ts .expire intent.pricePaise
        (intent.qty - (levelFills.map LevelFill.qty).sum) "IOC_REMAINDER_EXPIRED") rfl
    have hnew : (newOrder intent id nowNs).filledQty = 0 := rfl
    rw [Order.filledQty_foldl, filledBy_fillReports, hnew, zero_add] at hexpired
    exact hexpired

end MatchReports

end MatchingEngine

/-! ### Submission -/

/-- The order that `submit` returns is what the gateway's reports make of the new one. -/
theorem OrderManager.order_submit {γ : Type} {m : OrderManager} (h : m.KnownIds)
    (intent : OrderIntent) (send : γ → Order → List ExecutionReport × γ) (g : γ) (nowNs : ℕ)
    (hsend : ∀ r ∈ (send g (newOrder intent (m.nextId intent) nowNs)).1,
      r.clientOrderId = m.nextId intent) :
    (m.submit intent send g nowNs).1.orders[m.nextId intent]? =
        some (m.submit intent send g nowNs).2.2 ∧
      (m.submit intent send g nowNs).2.2 =
        (send g (newOrder intent (m.nextId intent) nowNs)).1.foldl Order.report
          (newOrder intent (m.nextId intent) nowNs) := by
  obtain ⟨-, -, -, hstored⟩ := submit_spec h intent send g nowNs hsend
  refine ⟨hstored, ?_⟩
  have hres := submit_eq h intent send g nowNs
  dsimp only at hres
  rw [hres] at hstored ⊢
  dsimp only at hstored ⊢
  generalize (send g (newOrder intent (m.nextId intent) nowNs)).1 = reports at hsend hstored ⊢
  have htracked := untracked_foldl (m.opened intent nowNs) (m.nextId intent) intent.parentArbId
    reports
  have hown : ((reports.map fun r => r.completed (m.nextId intent) intent.parentArbId).filter
      fun r => r.clientOrderId = m.nextId intent) =
        reports.map fun r => r.completed (m.nextId intent) intent.parentArbId := by
    rw [List.filter_eq_self, List.forall_mem_map]
    intro r hr
    simp [ExecutionReport.completed, hsend r hr]
  have horder := orders_foldl (m.opened intent nowNs).untracked
    (reports.map fun r => r.completed (m.nextId intent) intent.parentArbId) (m.nextId intent)
  have hopened : (m.opened intent nowNs).untracked.orders[m.nextId intent]? =
      some (newOrder intent (m.nextId intent) nowNs) := by
    simp [untracked, opened]
  rw [← htracked, hown, hopened, Option.map_some, Order.foldl_completed] at horder
  rw [show (reports.foldl (fun m' r =>
      (m'.onReport (r.completed (m.nextId intent) intent.parentArbId)).observed)
        (m.opened intent nowNs)).orders[m.nextId intent]? = _ from horder]
  rfl

/-- The book an intent is for; as long as there is none, nothing rests there. -/
def BookManager.target (m : BookManager) (intent : OrderIntent) : OrderBook ℤ :=
  (m.book intent.venue intent.instrumentId).getD (.new intent.venue intent.instrumentId)

/-- **A closed order**: what the reports of the gateway, the order and the books say about a
submission agree. -/
structure Closed (intent : OrderIntent) (scenario : ScenarioConfig) (books : BookManager)
    (reports : List ExecutionReport) (books' : BookManager) (o : Order) : Prop where
  filledQty : o.filledQty = filledBy reports
  totalDepth : (books.target intent).totalDepth (opposite intent.side) -
    (books'.target intent).totalDepth (opposite intent.side) = o.filledQty
  depthAt : ∀ px, (books.target intent).depthAt (opposite intent.side) px -
    (books'.target intent).depthAt (opposite intent.side) px =
      filledBy (reports.filter fun r => r.pricePaise = px)
  ownDepth : ∀ px, (books'.target intent).depthAt intent.side px =
    (books.target intent).depthAt intent.side px
  otherBooks : ∀ v i, ¬(intent.venue = v ∧ intent.instrumentId = i) →
    books'.book v i = books.book v i
  nonneg : 0 ≤ o.filledQty
  le_qty : o.filledQty ≤ intent.qty
  le_cap : ∀ cap, scenario.maxFillQtyByRole intent.role = some cap → o.filledQty ≤ max 0 cap
  within : ∀ r ∈ reports, r.type = .fill → WithinLimit intent.side intent.pricePaise r.pricePaise
  filled_iff : o.state = .filled ↔ o.filledQty = intent.qty
  rejected_iff : o.state = .rejected ↔ Refused reports
  expired_iff : o.state = .expired ↔ ¬ Refused reports ∧ o.filledQty = 0
  partial_iff : o.state = .partial_ ↔ o.state ≠ .filled ∧ o.state ≠ .rejected ∧ o.state ≠ .expired
  tsDoneNs : reports ≠ [] ∧ ∀ r ∈ reports, o.tsDoneNs = r.tsNs
  remainder : ¬ Refused reports → filledBy reports + expiredBy reports = intent.qty
  unchanged : Refused reports → books' = books

namespace MatchingEngine

open OrderManager

variable {intent : OrderIntent} {id : String} {nowNs ts : ℕ} {g : MatchingEngine}

/-- A rejected order. -/
theorem closed_reject (hqty : 0 < intent.qty) (books : BookManager) (scenario : ScenarioConfig)
    (reason : String) (id : String) (nowNs ts : ℕ) : Closed intent scenario books
      [makeReport (newOrder intent id nowNs) ts .reject intent.pricePaise 0 reason] books
      ((newOrder intent id nowNs).report
        (makeReport (newOrder intent id nowNs) ts .reject intent.pricePaise 0 reason)) := by
  have hrefused : Refused
      [makeReport (newOrder intent id nowNs) ts .reject intent.pricePaise 0 reason] :=
    ⟨_, List.mem_singleton_self _, rfl⟩
  have hfilled : ((newOrder intent id nowNs).report
      (makeReport (newOrder intent id nowNs) ts .reject intent.pricePaise 0 reason)).filledQty = 0 :=
    Order.filledQty_report _ _
  obtain ⟨hstate, hdone⟩ := @Order.report_reject (newOrder intent id nowNs)
    (makeReport (newOrder intent id nowNs) ts .reject intent.pricePaise 0 reason) rfl
  have hrejected : ((newOrder intent id nowNs).report
      (makeReport (newOrder intent id nowNs) ts .reject intent.pricePaise 0 reason)).state =
        .rejected := hstate
  refine ⟨hfilled, by rw [hfilled, sub_self], fun px => ?_, fun px => rfl, fun v i _ => rfl,
    hfilled.ge, by rw [hfilled]; exact hqty.le, fun cap _ => by rw [hfilled]; exact le_max_left _ _,
    fun r hr hfill => ?_, ?_, ?_, ?_, ?_, ⟨List.cons_ne_nil _ _, fun r hr => ?_⟩,
    fun h => absurd hrefused h, fun _ => rfl⟩
  · rw [sub_self, ← filledBy_filter_fill, List.filter_comm]
    rfl
  · rw [List.mem_singleton.1 hr] at hfill
    cases hfill
  · rw [hrejected, hfilled]
    exact iff_of_false (by simp) hqty.ne
  · exact iff_of_true hrejected hrefused
  · rw [hrejected]
    exact iff_of_false (by simp) fun h => h.1 hrefused
  · rw [hrejected]
    simp
  · rw [List.mem_singleton.1 hr]
    exact hdone

/-- What the state of a matched order says of the quantity filled. -/
theorem state_of_filled {st : OrderState} {filled qty : ℤ} (hqty : 0 < qty) (hfilled : 0 ≤ filled)
    (h : st = if filled = qty then .filled else if 0 < filled then .partial_ else .expired) :
    (st = .filled ↔ filled = qty) ∧ (st = .expired ↔ filled = 0) ∧
      (st = .partial_ ↔ st ≠ .filled ∧ st ≠ .rejected ∧ st ≠ .expired) ∧
      st ≠ .rejected ∧ st ≠ .sent := by
  rw [h]
  split_ifs with hall hsome
  · exact ⟨iff_of_true rfl hall, iff_of_false (by simp) (by omega), by simp, by simp, by simp⟩
  · exact ⟨iff_of_false (by simp) hall, iff_of_false (by simp) (by omega), by simp, by simp,
      by simp⟩
  · exact ⟨iff_of_false (by simp) hall, iff_of_true rfl (by omega), by simp, by simp, by simp⟩

/-- A matched order. -/
theorem closed_matched (hqty : 0 < intent.qty) {books : BookManager} (hbooks : books.Wf)
    {b : OrderBook ℤ} (hbook : books.book intent.venue intent.instrumentId = some b)
    (walk : WalkOrder ℤ) (scenario : ScenarioConfig) (id : String) (nowNs ts : ℕ) :
    let res := b.matchIoc walk intent.side intent.pricePaise
      (scenario.capFillQty intent.role intent.qty)
    let reports := matchReports scenario.delayedAck (newOrder intent id nowNs) ts res.2
    Closed intent scenario books reports (books.setBook intent.venue intent.instrumentId res.1)
      (reports.foldl Order.report (newOrder intent id nowNs)) := by
  intro res reports
  have hwf := hbooks.book hbook
  have hm : Matched b intent.side intent.pricePaise
      (scenario.capFillQty intent.role intent.qty) res := matchIoc_spec hwf walk _ _ _
  have htaken : OrderBook.TakenFromDepth b intent.side res := hwf.takenFromDepth walk _ _ _
  have hle : (res.2.map LevelFill.qty).sum ≤ intent.qty :=
    hm.sum_le.trans (max_le hqty.le (capFillQty_le _ _ _))
  have hnonneg : 0 ≤ (res.2.map LevelFill.qty).sum := by
    refine List.sum_nonneg fun q hq => ?_
    obtain ⟨lf, hlf, rfl⟩ := List.mem_map.1 hq
    exact (hm.fills lf hlf).1.le
  have htarget : books.target intent = b := by rw [BookManager.target, hbook, Option.getD_some]
  have htarget' :
      (books.setBook intent.venue intent.instrumentId res.1).target intent = res.1 := by
    rw [BookManager.target, BookManager.book_setBook, if_pos ⟨rfl, rfl⟩, Option.getD_some]
  have hreported : filledBy reports = (res.2.map LevelFill.qty).sum := filledBy_matchReports
  have hfilled : (reports.foldl Order.report (newOrder intent id nowNs)).filledQty =
      (res.2.map LevelFill.qty).sum := by
    rw [Order.filledQty_foldl, hreported]
    exact zero_add _
  have hnotRefused : ¬ Refused reports := fun ⟨r, hr, hreject⟩ => (mem_matchReports hr).2 hreject
  obtain ⟨hstate, hdone⟩ := @state_matchReports intent id nowNs ts scenario.delayedAck res.2
    hqty hle
  have hstate' : (reports.foldl Order.report (newOrder intent id nowNs)).state =
      if (res.2.map LevelFill.qty).sum = intent.qty then .filled
        else if 0 < (res.2.map LevelFill.qty).sum then .partial_ else .expired := hstate
  obtain ⟨hfull, hexpired, hpartial, hnotRejected, hnotSent⟩ :=
    state_of_filled hqty hnonneg hstate'
  refine ⟨by rw [hfilled, hreported], ?_, fun px => ?_, fun px => ?_, fun v i hne => ?_, ?_, ?_,
    fun cap hcap => ?_, fun r hr hfill => ?_, ?_, iff_of_false hnotRejected hnotRefused, ?_, hpartial,
    ⟨?_, fun r hr => ?_⟩, fun _ => ?_, fun h => absurd h hnotRefused⟩
  · rw [htarget, htarget', hfilled]
    exact htaken.totalDepth
  · rw [htarget, htarget', htaken.depthAt]
    exact (filledBy_matchReports_at px).symm
  · rw [htarget, htarget']
    exact htaken.own px
  · rw [BookManager.book_setBook, if_neg hne]
  · rw [hfilled]
    exact hnonneg
  · rw [hfilled]
    exact hle
  · rw [hfilled]
    have hcapped := hm.sum_le
    rw [ScenarioConfig.capFillQty, hcap] at hcapped
    exact hcapped.trans (max_le_max le_rfl (min_le_right _ _))
  · have hmem : r ∈ reports.filter fun r => r.type = .fill :=
      List.mem_filter.2 ⟨hr, decide_eq_true hfill⟩
    rw [filter_fill_matchReports] at hmem
    obtain ⟨lf, hlf, rfl⟩ := List.mem_map.1 hmem
    exact (hm.fills lf hlf).2
  · rw [hfilled]
    exact hfull
  · rw [hfilled, hexpired]
    exact ⟨fun h => ⟨hnotRefused, h⟩, And.right⟩
  · -- without a report the order would not have come to an end
    intro hnone
    refine hnotSent ?_
    rw [hnone]
    rfl
  · rw [(mem_matchReports hr).1]
    exact hdone
  · have hrest : expiredBy reports = intent.qty - (res.2.map LevelFill.qty).sum :=
      expiredBy_matchReports hle
    rw [hreported, hrest]
    omega

end MatchingEngine

namespace BookManager

theorem Wf.exec {m : BookManager} (h : m.Wf) (call : ManagerCall) : (m.exec call).Wf := by
  cases call with
  | onEvent ev => exact h.onEvent ev
  | matchIoc venue instrumentId walk aggressor limitPx qty =>
    change (m.matchIoc venue instrumentId walk aggressor limitPx qty).Wf
    unfold BookManager.matchIoc
    cases hb : m.book venue instrumentId with
    | none => exact h
    | some b => exact h.setBook (matchIoc_spec (h.book hb) walk aggressor limitPx qty).keeps.wf

/-- The books that events and matches lead to are well formed. -/
theorem wf_run (calls : List ManagerCall) : (calls.foldl exec {}).Wf := by
  induction calls using List.reverseRecOn with
  | nil => exact wf_empty
  | append_singleton calls call ih =>
    rw [List.foldl_append]
    exact ih.exec call

end BookManager

namespace OrderManager

/-- **Every submitted order is closed**, whatever the books, the scenario and the orders before
it. -/
theorem submit_closed {m : OrderManager} (hm : m.Reachable) {g : MatchingEngine}
    {calls : List ManagerCall} (hbooks : g.books = calls.foldl BookManager.exec {}) (env : Env)
    {intent : OrderIntent} (hqty : 0 < intent.qty) (nowNs : ℕ) :
    (m.submit intent (MatchingEngine.send env) g nowNs).1.orders[m.nextId intent]? =
        some (m.submit intent (MatchingEngine.send env) g nowNs).2.2 ∧
      Closed intent g.scenario g.books
        (g.send env (newOrder intent (m.nextId intent) nowNs)).1
        (m.submit intent (MatchingEngine.send env) g nowNs).2.1.books
        (m.submit intent (MatchingEngine.send env) g nowNs).2.2 := by
  have hwf : g.books.Wf := by
    rw [hbooks]
    exact BookManager.wf_run calls
  have hknown := hm.knownIds
  have hsent := MatchingEngine.send_spec hwf env intent (m.nextId intent) nowNs
  obtain ⟨-, -, hgateway, -⟩ :=
    submit_spec hknown intent (MatchingEngine.send env) g nowNs hsent.ids
  obtain ⟨hstored, horder⟩ :=
    order_submit hknown intent (MatchingEngine.send env) g nowNs hsent.ids
  refine ⟨hstored, ?_⟩
  rw [horder, hgateway]
  have hsending := MatchingEngine.send_sending env g (newOrder intent (m.nextId intent) nowNs)
  generalize g.send env (newOrder intent (m.nextId intent) nowNs) = res at hsending ⊢
  cases hsending with
  | @reject ts reason scenario hrefusal =>
    exact MatchingEngine.closed_reject hqty g.books g.scenario reason _ nowNs ts
  | matched ts hdisc hrole hbook =>
    exact MatchingEngine.closed_matched hqty hwf hbook (env.walk g.sends) g.scenario _ nowNs ts

/-- A sale of twelve. -/
def saleOfTwelve : OrderIntent :=
  { parentArbId := "SIM-ARB-1-1", instrumentId := 1, venue := .nse, side := .sell,
    role := .alphaSell, pricePaise := 90, qty := 12 }

/-- A gateway with a bid of ten that lets eight through and acks late. -/
def eightThrough : MatchingEngine where
  books := [BookManager.bidOf .nse 1 7].foldl BookManager.exec {}
  scenario := { delayedAck := true, maxFillQtyByRole := fun _ => some 8 }

/-- The sale is filled in part. -/
theorem submit_closed_capped :
    (({} : OrderManager).submit saleOfTwelve (MatchingEngine.send ⟨fun _ => 5, fun _ => .byId⟩)
        eightThrough 3).2.2.state = .partial_ ∧
      Closed saleOfTwelve eightThrough.scenario eightThrough.books
        (eightThrough.send ⟨fun _ => 5, fun _ => .byId⟩
          (newOrder saleOfTwelve (({} : OrderManager).nextId saleOfTwelve) 3)).1
        (({} : OrderManager).submit saleOfTwelve
          (MatchingEngine.send ⟨fun _ => 5, fun _ => .byId⟩) eightThrough 3).2.1.books
        (({} : OrderManager).submit saleOfTwelve
          (MatchingEngine.send ⟨fun _ => 5, fun _ => .byId⟩) eightThrough 3).2.2 :=
  ⟨by decide +kernel, (submit_closed (.start {} _) rfl _ (by decide) 3).2⟩

end OrderManager

end Hft
