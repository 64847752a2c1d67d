import HftArb.Common.Rows
import HftArb.Sim.Closing

/-!
# The texts of a run

Rules, reasons, error codes and ids are all that a run prints besides numbers and names of
enumerators.  Each of them is `Printable`: it can stand in a row of a log file without being escaped.
-/

namespace Hft

/-- A `std::string` that can be printed as a column. -/
def Printable (s : String) : Prop := RowText s.toList

instance (s : String) : Decidable (Printable s) := inferInstanceAs (Decidable (RowText s.toList))

/-! ### Ids -/

theorem word_append {s t : String} (hs : Word s.toList) (ht : Word t.toList) :
    Word (s ++ t).toList := by
  rw [String.toList_append]
  exact hs.append ht

theorem word_role (r : OrderRole) : Word r.text.toList :=
  word_of_all (by cases r <;> decide)

theorem word_parentIdText {idPrefix : String} (h : Word idPrefix.toList) (instrumentId n : ℕ) :
    Word (parentIdText idPrefix instrumentId n).toList :=
  word_append (word_append (word_append (word_append h (word_of_all (by decide)))
    (word_nat instrumentId)) (word_of_all (by decide))) (word_nat n)

theorem word_orderIdText {parentId : String} (h : Word parentId.toList) (v : Venue) (s : Side)
    (r : OrderRole) (n : ℕ) : Word (orderIdText parentId v s r n).toList := by
  have hdash : Word "-".toList := word_of_all (by decide)
  exact word_append (word_append (word_append (word_append (word_append (word_append (word_append
    (word_append h hdash) (word_venue v)) hdash) (word_side s)) hdash) (word_role r)) hdash)
      (word_nat n)

/-! ### Verdicts -/

namespace RiskEngine

variable {e : RiskEngine} {positions : PositionBook} {o : OrderIntent} {q : BestQuote} {nowNs : ℕ}

/-- What holds of every verdict of `check_order`. -/
theorem forall_checkOrder {P : RiskDecision → Prop} (happrove : P .approve)
    (hrate : P (.block "ORDER_RATE" "order rate exceeded"))
    (hblock : ∀ rd ∈ e.staticBlock id positions o q, P rd) :
    P (e.checkOrder positions o q nowNs).1 := by
  unfold checkOrder checkOrderIn
  split
  · next rd hrd => exact hblock rd hrd
  · dsimp only
    split_ifs
    · exact happrove
    · exact hrate

theorem printable_rule : Printable (e.checkOrder positions o q nowNs).1.rule := by
  refine forall_checkOrder (P := fun rd => Printable rd.rule) (by decide) (by decide) ?_
  unfold staticBlock
  iterate 9 refine forall_mem_ite_some (by dsimp only [RiskDecision.block]; decide) ?_
  exact fun rd h => absurd h (Option.not_mem_none rd)

/-- The details are those of the rule; the reason of the kill switch is one of them. -/
theorem printable_details (h : Printable e.kill.reason) :
    Printable (e.checkOrder positions o q nowNs).1.details := by
  refine forall_checkOrder (P := fun rd => Printable rd.details) (by decide) (by decide) ?_
  unfold staticBlock
  refine forall_mem_ite_some h ?_
  iterate 8 refine forall_mem_ite_some (by decide) ?_
  exact fun rd h => absurd h (Option.not_mem_none rd)

end RiskEngine

theorem printable_candidate (cfg : RiskConfig) (p : PairTrade) (v : Venue) (q : BestQuote) :
    Printable (candidateForVenue cfg p v q).reason := by
  unfold candidateForVenue
  dsimp only
  split_ifs <;> dsimp only <;> decide

theorem printable_nextOrder (cfg : RiskConfig) (p : PairTrade) (nse bse : BestQuote) :
    Printable (nextOrder cfg p nse bse).reason := by
  unfold nextOrder
  generalize (if p.residual > 0 then p.intendedSellVenue else p.intendedBuyVenue) = preferred
  dsimp only
  split_ifs
  · decide
  · decide
  · exact printable_candidate _ _ _ _
  · exact printable_candidate _ _ _ _
  · decide

theorem printable_evaluate (cfg : StrategyConfig) (nse bse : BestQuote) (costs : CostModel)
    (nowNs : ℕ) : Printable (evaluate cfg nse bse costs nowNs).reason ∧
      Printable (evaluate cfg nse bse costs nowNs).opportunity.reason := by
  unfold evaluate
  dsimp only
  -- both directions give the same reason
  have ha : Printable (tryDirection cfg costs nowNs nse.instrumentId .bse .nse bse.askPxPaise
    bse.askQty nse.bidPxPaise nse.bidQty).reason := show Printable "NET_EDGE_POSITIVE" by decide
  have hb : Printable (tryDirection cfg costs nowNs nse.instrumentId .nse .bse nse.askPxPaise
    nse.askQty bse.bidPxPaise bse.bidQty).reason := show Printable "NET_EDGE_POSITIVE" by decide
  generalize tryDirection cfg costs nowNs nse.instrumentId .bse .nse _ _ _ _ = a at ha ⊢
  generalize tryDirection cfg costs nowNs nse.instrumentId .nse .bse _ _ _ _ = b at hb ⊢
  have hbest : Printable (if a.netEdgePaise ≥ b.netEdgePaise then a else b).reason := by
    split_ifs
    · exact ha
    · exact hb
  generalize (if a.netEdgePaise ≥ b.netEdgePaise then a else b) = best at hbest ⊢
  have hnone : Printable ({} : ArbOpportunity).reason := by decide
  split_ifs
  · exact ⟨show Printable "INVALID_QUOTE" by decide, hnone⟩
  · exact ⟨show Printable "INSTRUMENT_MISMATCH" by decide, hnone⟩
  · exact ⟨show Printable "STALE_BOOK" by decide, hnone⟩
  · exact ⟨show Printable "INSUFFICIENT_DEPTH" by decide, hnone⟩
  · exact ⟨show Printable "EDGE_TOO_SMALL" by decide, hnone⟩
  · exact ⟨hbest, hbest⟩

/-! ### Orders -/

theorem printable_empty : Printable "" := by decide

theorem printable_matchReports (delayedAck : Bool) (order : Order) (ts : ℕ)
    (levelFills : List (LevelFill ℤ)) :
    ∀ r ∈ MatchingEngine.matchReports delayedAck order ts levelFills, Printable r.reason := by
  simp only [MatchingEngine.matchReports, List.forall_mem_append, List.forall_mem_map]
  refine ⟨⟨⟨?_, fun _ _ => printable_empty⟩, ?_⟩, ?_⟩
  · cases delayedAck
    · exact List.forall_mem_singleton.2 printable_empty
    · exact List.forall_mem_nil _
  · cases delayedAck
    · exact List.forall_mem_nil _
    · exact List.forall_mem_singleton.2 (show Printable "DELAYED_ACK" by decide)
  · split_ifs
    · exact List.forall_mem_singleton.2 (show Printable "IOC_REMAINDER_EXPIRED" by decide)
    · exact List.forall_mem_nil _

theorem printable_send (env : Env) (g : MatchingEngine) (order : Order) :
    ∀ r ∈ (g.send env order).1, Printable r.reason := by
  unfold MatchingEngine.send
  dsimp only
  split_ifs
  · exact List.forall_mem_singleton.2 (show Printable "GATEWAY_DISCONNECT" by decide)
  · exact List.forall_mem_singleton.2 (show Printable "SCENARIO_REJECT" by decide)
  · split
    · exact List.forall_mem_singleton.2 (show Printable "NO_BOOK" by decide)
    · exact printable_matchReports _ _ _ _

theorem Order.printable_report {o : Order} {r : ExecutionReport} (ho : Printable o.errCode)
    (hr : Printable r.reason) : Printable (o.report r).errCode := by
  unfold Order.report
  cases r.type with
  | ack => dsimp only; split_ifs <;> exact ho
  | fill => dsimp only; split_ifs <;> exact ho
  | reject => exact hr
  | expire =>
    dsimp only
    split_ifs
    · decide
    · exact hr
  | cancel => exact ho

/-- The order that a submission leaves, with its own id. -/
theorem OrderManager.submit_order {m : OrderManager} (hm : m.KnownIds) (env : Env)
    {g : MatchingEngine} (hbooks : g.books.Wf) (intent : OrderIntent) (nowNs : ℕ) :
    let o := (m.submit intent (MatchingEngine.send env) g nowNs).2.2
    o.intent = intent ∧ o.clientOrderId = m.nextId intent ∧ Printable o.errCode := by
  have hsent := MatchingEngine.send_spec hbooks env intent (m.nextId intent) nowNs
  have horder := (order_submit hm intent (MatchingEngine.send env) g nowNs hsent.ids).2
  have hreasons := printable_send env g (newOrder intent (m.nextId intent) nowNs)
  dsimp only
  rw [horder]
  generalize (g.send env (newOrder intent (m.nextId intent) nowNs)).1 = reports at hreasons ⊢
  -- along the reports
  have hall : ∀ (reports : List ExecutionReport) (o : Order), (∀ r ∈ reports, Printable r.reason) →
      o.intent = intent ∧ o.clientOrderId = m.nextId intent ∧ Printable o.errCode →
      (reports.foldl Order.report o).intent = intent ∧
        (reports.foldl Order.report o).clientOrderId = m.nextId intent ∧
        Printable (reports.foldl Order.report o).errCode := by
    intro reports
    induction reports with
    | nil => exact fun o _ ho => ho
    | cons r reports ih =>
      rintro o hr ⟨hintent, hid, herr⟩
      exact ih _ (fun r' hr' => hr r' (List.mem_cons_of_mem r hr'))
        ⟨(intent_report o r).trans hintent, (clientOrderId_report o r).trans hid,
          Order.printable_report herr (hr r List.mem_cons_self)⟩
  exact hall reports _ hreasons ⟨rfl, rfl, printable_empty⟩

end Hft
