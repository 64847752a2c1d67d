import HftArb.Sim.FillBook
import HftArb.Sim.Texts

/-!
# What a run writes

Whatever path a run takes, its log files and counters change in the few ways of `Write`: a row of one
of the five files at a time, with the counter that goes with it.  `executed_wrote` splits the branches
of an execution and `onItem_writes` those of a turn; the invariants of the log files are then proved
over `Write` (`run_writes`).
-/

namespace Hft

open Transition

namespace ReplayState

/-- Nothing was written, and no order was sent. -/
structure Unwritten (s s' : ReplayState) : Prop where
  logs : s'.logs = s.logs
  result : s'.result = s.result
  oms : s'.oms = s.oms
  idPrefix : s'.ids.idPrefix = s.ids.idPrefix
  scenario : s'.gateway.scenario = s.gateway.scenario
  kill : Printable s.risk.kill.reason → Printable s'.risk.kill.reason

/-- The run after it has sent an order and logged it with its fills. -/
def sendOrder (env : Env) (nowNs : ℕ) (s : ReplayState) (intent : OrderIntent) : ReplayState :=
  (Execution.submit env nowNs ⟨s, {}⟩ intent).1.run

/-- The run after it has logged a pair and counted its trade. -/
def logPair (s : ReplayState) (p : PairTrade) : ReplayState :=
  { s with
    logs := { s.logs with pairs := s.logs.pairs ++ [p] }
    result :=
      { s.result with finalState := p.state.text, trades := s.result.trades + 1 } }

/-- An order that the run may send. -/
structure Sendable (s : ReplayState) (intent : OrderIntent) : Prop where
  sound : s.Sound
  side : intent.side ≠ .unknown
  qty : 0 < intent.qty
  parent : Word intent.parentArbId.toList
  book : ∃ b, s.gateway.books.book intent.venue intent.instrumentId = some b

/-- There are books for the instrument at both venues. -/
def Listed (s : ReplayState) (instrumentId : ℕ) : Prop :=
  ∀ v, v ≠ .unknown → ∃ b, s.gateway.books.book v instrumentId = some b

/-- What an execution writes. -/
inductive Note (env : Env) : ReplayState → ReplayState → Prop
  | silent {s s' : ReplayState} (h : Unwritten s s') : Note env s s'
  | block {s : ReplayState} (ts : ℕ) (severity rule : String) (instrumentId : ℕ) (details : String)
      (htexts : Printable s.risk.kill.reason →
        Printable severity ∧ Printable rule ∧ Printable details) :
      Note env s (s.riskBlock ts severity rule instrumentId details)
  | leg {s : ReplayState} (nowNs : ℕ) (intent : OrderIntent) (hsend : s.Sendable intent)
      (hrole : intent.role ≠ .hedge) : Note env s (s.sendOrder env nowNs intent)
  | hedge {s : ReplayState} (nowNs : ℕ) (intent : OrderIntent) (hsend : s.Sendable intent)
      (hrole : intent.role = .hedge) :
      Note env s { s.sendOrder env nowNs intent with
        result := { s.result with hedges := s.result.hedges + 1 } }

/-- What a run writes. -/
inductive Write (env : Env) : ReplayState → ReplayState → Prop
  | note {s s' : ReplayState} (h : Note env s s') : Write env s s'
  | watched {s : ReplayState} (d : StrategyDecision) (htrade : d.shouldTrade = false)
      (hreason : Printable d.reason) : Write env s (s.logOpportunity d)
  | announced {s : ReplayState} (d : StrategyDecision) (htrade : d.shouldTrade = true)
      (hreason : Printable d.opportunity.reason) : Write env s (s.announce d).2
  | pair {s : ReplayState} (p : PairTrade) (hparent : Word p.parentId.toList)
      (herror : Printable p.lastError) : Write env s (s.logPair p)

abbrev Notes (env : Env) : ReplayState → ReplayState → Prop := Relation.ReflTransGen (Note env)

abbrev Writes (env : Env) : ReplayState → ReplayState → Prop := Relation.ReflTransGen (Write env)

variable {env : Env} {s s' : ReplayState}

theorem Unwritten.note (h : Unwritten s s') : Notes env s s' := .single (.silent h)

theorem Notes.writes (h : Notes env s s') : Writes env s s' :=
  Relation.ReflTransGen.lift id (fun _ _ hnote => Write.note hnote) _ _ h

theorem Writes.idPrefix (h : Writes env s s') : s'.ids.idPrefix = s.ids.idPrefix := by
  induction h with
  | refl => rfl
  | tail _ hwrite ih =>
    refine Eq.trans ?_ ih
    cases hwrite with
    | note h =>
      cases h with
      | silent h => exact h.idPrefix
      | block => rfl
      | leg => rfl
      | hedge => rfl
    | watched => rfl
    | announced => rfl
    | pair => rfl

/-- The orders of the legs. -/
def legOrders (s : ReplayState) : ℕ := s.logs.orders.countP fun o => o.intent.role ≠ .hedge

/-- The orders of the hedges. -/
def hedgeOrders (s : ReplayState) : ℕ := s.logs.orders.countP fun o => o.intent.role = .hedge

/-- The fills that sending an order leads to. -/
def newFills (env : Env) (nowNs : ℕ) (s : ReplayState) (intent : OrderIntent) : List Fill :=
  Execution.newFills env nowNs ⟨s, {}⟩ intent

/-- The row of a sent order. -/
def sentRow (env : Env) (nowNs : ℕ) (s : ReplayState) (intent : OrderIntent) : Order :=
  (s.oms.submit intent (MatchingEngine.send env) s.gateway nowNs).2.2

/-- What a sent order adds to the logs. -/
theorem logs_sendOrder {intent : OrderIntent} (h : s.Sound) (nowNs : ℕ) :
    (s.sendOrder env nowNs intent).logs =
      { s.logs with
        orders := s.logs.orders ++ [s.sentRow env nowNs intent]
        fills := s.logs.fills ++ (s.newFills env nowNs intent).map Fill.row } := by
  have hsubmitted := Execution.submit_submitted (x := ⟨s, {}⟩) h env nowNs intent
  have hfills := hsubmitted.logs.1
  have hrest : (s.sendOrder env nowNs intent).logs =
      { s.logs with
        orders := s.logs.orders ++ [s.sentRow env nowNs intent]
        fills := (s.sendOrder env nowNs intent).logs.fills } := rfl
  rw [hrest]
  exact congrArg (fun fills => { s.logs with
    orders := s.logs.orders ++ [s.sentRow env nowNs intent], fills := fills }) hfills

theorem sentRow_spec {intent : OrderIntent} (h : s.Sound) (nowNs : ℕ) :
    (s.sentRow env nowNs intent).intent = intent ∧
      (s.sentRow env nowNs intent).clientOrderId = s.oms.nextId intent ∧
      Printable (s.sentRow env nowNs intent).errCode :=
  OrderManager.submit_order h.known env h.books intent nowNs

/-- A sent order is logged as a leg or as a hedge. -/
theorem sendOrder_counts {intent : OrderIntent} (h : s.Sound) (nowNs : ℕ) :
    (s.sendOrder env nowNs intent).legOrders =
        s.legOrders + (if intent.role = .hedge then 0 else 1) ∧
      (s.sendOrder env nowNs intent).hedgeOrders =
        s.hedgeOrders + (if intent.role = .hedge then 1 else 0) := by
  have hintent := (@sentRow_spec env s intent h nowNs).1
  simp only [legOrders, hedgeOrders, logs_sendOrder h, List.countP_append, List.countP_singleton,
    hintent]
  by_cases hrole : intent.role = .hedge <;> simp [hrole]

end ReplayState

namespace Execution

open ReplayState

variable {env : Env} {cfg : RiskConfig} {nowNs : ℕ} {x x' x'' : Execution} {intent : OrderIntent}
  {k k' : ℕ}

/-- The execution may send orders. -/
structure Ready (x : Execution) : Prop where
  sound : x.run.Sound
  parent : Word x.pair.parentId.toList
  listed : x.run.Listed x.pair.instrumentId
  venues : x.pair.intendedBuyVenue ≠ .unknown ∧ x.pair.intendedSellVenue ≠ .unknown

theorem Ready.step (h : x.Ready) (hsame : x.pair.SameTrade x'.pair) (hsound : x'.run.Sound)
    (hlisted : ∀ i, x.run.Listed i → x'.run.Listed i) : x'.Ready where
  sound := hsound
  parent := by
    rw [hsame.parentId]
    exact h.parent
  listed := by
    rw [hsame.instrumentId]
    exact hlisted _ h.listed
  venues := by
    rw [hsame.intendedBuyVenue, hsame.intendedSellVenue]
    exact h.venues

theorem Ready.quiet (h : x.Ready) (hq : Quiet x x') : x'.Ready := by
  obtain ⟨hbooks, hknown, htaken⟩ := h.sound
  refine h.step hq.pair ⟨?_, ?_, ?_⟩ fun i hi => ?_
  · rw [hq.gateway]
    exact hbooks
  · rw [hq.oms]
    exact hknown
  · rw [hq.oms]
    exact htaken
  · unfold ReplayState.Listed at hi ⊢
    rw [hq.gateway]
    exact hi

/-- No order takes a book away. -/
theorem listed_send {g : MatchingEngine} {order : Order} {v : Venue} {i : ℕ}
    (h : ∃ b, g.books.book v i = some b) : ∃ b, (g.send env order).2.books.book v i = some b := by
  have hsending := MatchingEngine.send_sending env g order
  generalize g.send env order = res at hsending ⊢
  cases hsending with
  | reject ts hrefusal => exact h
  | matched ts hdisc hrole hbook =>
    dsimp only
    rw [BookManager.book_setBook]
    split_ifs
    · exact ⟨_, rfl⟩
    · exact h

theorem Ready.submit (h : x.Ready) (nowNs : ℕ) (intent : OrderIntent) :
    (x.submit env nowNs intent).1.Ready := by
  refine h.step (sameTrade_submit env nowNs x intent)
    (submit_submitted h.sound env nowNs intent).sound fun i hi v hv => ?_
  rw [gateway_submit h.sound]
  exact listed_send (hi v hv)

/-- A cleared order for one of the two venues may be sent. -/
theorem Ready.sendable (h : x.Ready) (hclear : Cleared x intent) (hvenue : intent.venue ≠ .unknown) :
    x.run.Sendable intent where
  sound := h.sound
  side := hclear.side
  qty := hclear.qty
  parent := by
    rw [hclear.parent]
    exact h.parent
  book := by
    rw [hclear.instrument]
    exact h.listed _ hvenue

/-- From `x` to `x'` the run wrote notes, `k` of them about legs at most, and used up an attempt for
every hedge. -/
structure Wrote (env : Env) (cfg : RiskConfig) (k : ℕ) (x x' : Execution) : Prop where
  notes : Notes env x.run x'.run
  ready : x.Ready → x'.Ready
  error : Printable x.pair.lastError → Printable x'.pair.lastError
  result : x'.run.result.opportunities = x.run.result.opportunities ∧
    x'.run.result.trades = x.run.result.trades
  legs : x'.run.legOrders ≤ x.run.legOrders + k
  hedges : (x'.run.result.hedges : ℤ) - x.run.result.hedges ≤
    x'.pair.hedgeAttempts - x.pair.hedgeAttempts
  attempts : x.pair.hedgeAttempts ≤ max 0 cfg.maxHedgeAttempts →
    x'.pair.hedgeAttempts ≤ max 0 cfg.maxHedgeAttempts

theorem Wrote.refl (x : Execution) : Wrote env cfg 0 x x :=
  ⟨.refl, id, id, ⟨rfl, rfl⟩, le_rfl, by omega, id⟩

theorem Wrote.trans (h : Wrote env cfg k x x') (h' : Wrote env cfg k' x' x'') :
    Wrote env cfg (k + k') x x'' where
  notes := h.notes.trans h'.notes
  ready := h'.ready ∘ h.ready
  error := h'.error ∘ h.error
  result := ⟨h'.result.1.trans h.result.1, h'.result.2.trans h.result.2⟩
  legs := by
    have hle := h.legs
    have hle' := h'.legs
    omega
  hedges := by
    have hle := h.hedges
    have hle' := h'.hedges
    omega
  attempts := h'.attempts ∘ h.attempts

/-- A step that writes nothing and keeps what the pair is about. -/
theorem wrote_silent (h : Unwritten x.run x'.run) (hq : Quiet x x')
    (herror : Printable x.pair.lastError → Printable x'.pair.lastError)
    (hattempts : x.pair.hedgeAttempts ≤ x'.pair.hedgeAttempts ∧
      (x.pair.hedgeAttempts ≤ max 0 cfg.maxHedgeAttempts →
        x'.pair.hedgeAttempts ≤ max 0 cfg.maxHedgeAttempts)) : Wrote env cfg 0 x x' where
  notes := h.note
  ready := fun hready => hready.quiet hq
  error := herror
  result := by
    rw [h.result]
    exact ⟨rfl, rfl⟩
  legs := by rw [legOrders, legOrders, h.logs, add_zero]
  hedges := by
    rw [h.result]
    omega
  attempts := hattempts.2

/-- A row of risk events. -/
theorem wrote_block {pair : PairTrade} (ts : ℕ) (severity rule : String) (instrumentId : ℕ)
    (details : String)
    (htexts : Printable x.run.risk.kill.reason →
      Printable severity ∧ Printable rule ∧ Printable details)
    (hq : Quiet x ⟨x.run.riskBlock ts severity rule instrumentId details, pair⟩)
    (herror : Printable x.pair.lastError → Printable pair.lastError)
    (hattempts : pair.hedgeAttempts = x.pair.hedgeAttempts) :
    Wrote env cfg 0 x ⟨x.run.riskBlock ts severity rule instrumentId details, pair⟩ where
  notes := .single (.block ts severity rule instrumentId details htexts)
  ready := fun hready => hready.quiet hq
  error := herror
  result := ⟨rfl, rfl⟩
  legs := le_rfl
  hedges := by
    rw [hattempts]
    exact (sub_self _).le.trans (sub_self _).ge
  attempts := by rw [hattempts]; exact id

theorem lastError_foldl (new : List Fill) (p : PairTrade) :
    (new.foldl PairTrade.takeFill p).lastError = p.lastError := by
  induction new generalizing p with
  | nil => rfl
  | cons f new ih =>
    rw [List.foldl_cons, ih, PairTrade.takeFill]
    split_ifs
    · rw [PairTrade.applyFill, PairTrade.count]
      cases f.side <;> rfl
    · rfl

/-- An order of a leg. -/
theorem wrote_leg (h : x.Ready) (hclear : Cleared x intent) (hvenue : intent.venue ≠ .unknown)
    (hrole : intent.role ≠ .hedge) : Wrote env cfg 1 x (x.submit env nowNs intent).1 where
  notes := .single (.leg nowNs intent (h.sendable hclear hvenue) hrole)
  ready := fun hready => hready.submit nowNs intent
  error := fun h => (lastError_foldl _ _).symm ▸ h
  result := ⟨rfl, rfl⟩
  legs := by
    have hcount := (@sendOrder_counts env _ intent h.sound nowNs).1
    rw [if_neg hrole] at hcount
    exact hcount.le
  hedges := by
    rw [hedgeAttempts_submit]
    exact (sub_self _).le.trans (sub_self _).ge
  attempts := by rw [hedgeAttempts_submit]; exact id

/-- A hedge order, which uses up an attempt. -/
theorem wrote_hedge {risk : RiskEngine} (h : x.Ready) (hkill : risk.kill = x.run.risk.kill)
    (hcfg : risk.cfg = x.run.risk.cfg) (hclear : Cleared (x.attempted risk) intent)
    (hvenue : intent.venue ≠ .unknown) (hrole : intent.role = .hedge)
    (hatt : x.pair.hedgeAttempts < cfg.maxHedgeAttempts) :
    Wrote env cfg 0 x ((x.attempted risk).submit env nowNs intent).1.countHedge where
  notes := by
    have hsilent : Unwritten x.run (x.attempted risk).run :=
      ⟨rfl, rfl, rfl, rfl, rfl, fun h => hkill.symm ▸ h⟩
    exact hsilent.note.tail
      (.hedge nowNs intent ((h.quiet (quiet_attempted hcfg)).sendable hclear hvenue) hrole)
  ready := fun hready =>
    ((hready.quiet (quiet_attempted hcfg)).submit nowNs intent).quiet quiet_countHedge
  error := fun h => (lastError_foldl _ (x.attempted risk).pair).symm ▸ h
  result := ⟨rfl, rfl⟩
  legs := by
    have hsound := (h.quiet (quiet_attempted hcfg)).sound
    have hcount := (@sendOrder_counts env _ intent hsound nowNs).1
    rw [if_pos hrole] at hcount
    exact hcount.le
  hedges := by
    show (((x.run.result.hedges + 1 : ℕ) : ℤ)) - x.run.result.hedges ≤
      ((x.attempted risk).submit env nowNs intent).1.pair.hedgeAttempts - x.pair.hedgeAttempts
    rw [hedgeAttempts_submit]
    simp only [attempted]
    omega
  attempts := fun _ => by
    show ((x.attempted risk).submit env nowNs intent).1.pair.hedgeAttempts ≤ _
    rw [hedgeAttempts_submit]
    simp only [attempted]
    omega

/-! ### The branches of an execution -/

theorem wrote_checkLeg (q : BestQuote) : Wrote env cfg 0 x (x.checkLeg nowNs q intent).2 :=
  wrote_silent
    ⟨rfl, rfl, rfl, rfl, rfl, fun h => (@RiskEngine.kill_checkOrder x.run.risk).symm ▸ h⟩
    (quiet_checkLeg q) id ⟨le_rfl, id⟩

theorem wrote_failLeg {o : Order} (ho : Printable o.errCode) : Wrote env cfg 0 x (x.failLeg o) := by
  have hq : Quiet x (x.failLeg o) := quiet_failLeg o
  unfold failLeg at hq ⊢
  split_ifs at hq ⊢
  · exact wrote_silent ⟨rfl, rfl, rfl, rfl, rfl, id⟩ hq (fun _ => ho) ⟨le_rfl, id⟩
  · exact .refl x

theorem sendOne_wrote (h : x.Ready) (nse bse : BestQuote) (hside : intent.side ≠ .unknown)
    (hown : intent.parentArbId = x.pair.parentId ∧ intent.instrumentId = x.pair.instrumentId)
    (hvenue : intent.venue ≠ .unknown) (hrole : intent.role ≠ .hedge) :
    Wrote env cfg 1 x (sendOne env nowNs nse bse x intent) := by
  have hchecked : Wrote env cfg 0 x
      (x.checkLeg nowNs (quoteFor nse bse intent.venue) intent).2 := wrote_checkLeg _
  have hready := hchecked.ready h
  rcases sendOne_cases env nowNs nse bse x intent with ⟨-, heq⟩ | ⟨happ, heq⟩
  · rw [heq]
    have hrule : Printable (x.checkLeg nowNs (quoteFor nse bse intent.venue) intent).1.rule :=
      RiskEngine.printable_rule
    have hdetails : Printable x.run.risk.kill.reason → Printable
        (x.checkLeg nowNs (quoteFor nse bse intent.venue) intent).1.details :=
      RiskEngine.printable_details
    have hkill : (x.checkLeg nowNs (quoteFor nse bse intent.venue) intent).2.run.risk.kill =
        x.run.risk.kill := RiskEngine.kill_checkOrder
    have hblock : Wrote env cfg 0 (x.checkLeg nowNs (quoteFor nse bse intent.venue) intent).2
        ((x.checkLeg nowNs (quoteFor nse bse intent.venue) intent).2.blockLeg nowNs intent
          (x.checkLeg nowNs (quoteFor nse bse intent.venue) intent).1) :=
      wrote_block _ _ _ _ _ (fun h => ⟨by decide, hrule, hdetails (hkill ▸ h)⟩)
        (quiet_blockLeg (verdictRule_checkLeg _)) (fun _ => hrule) rfl
    obtain ⟨hnotes, hready, herror, hresult, hlegs, hhedges, hattempts⟩ := hchecked.trans hblock
    exact ⟨hnotes, hready, herror, hresult, hlegs.trans (Nat.le_succ _), hhedges, hattempts⟩
  · rw [heq]
    have hclear : Cleared (x.checkLeg nowNs (quoteFor nse bse intent.venue) intent).2 intent :=
      cleared_of_approved x.run.risk happ RiskEngine.cfg_checkOrder hside hown
    have herr : Printable ((x.checkLeg nowNs (quoteFor nse bse intent.venue) intent).2.submit env
        nowNs intent).2.errCode := (@sentRow_spec env _ intent hready.sound nowNs).2.2
    exact (hchecked.trans (wrote_leg hready hclear hvenue hrole)).trans (wrote_failLeg herr)

/-- The loop gives up. -/
theorem wrote_stopHedging {state : PairState} {severity rule details : String}
    (hverdict : VerdictRule rule) (htexts : Printable x.run.risk.kill.reason →
      Printable severity ∧ Printable rule ∧ Printable details) (hrule : Printable rule) :
    Wrote env cfg 0 x (x.stopHedging nowNs state severity rule details) :=
  wrote_block _ _ _ _ _ htexts (quiet_stopHedging hverdict _ _ _) (fun _ => hrule) rfl

theorem wrote_asked : Wrote env cfg 0 x (x.asked nowNs) :=
  wrote_silent ⟨rfl, rfl, rfl, rfl, rfl, id⟩ (quiet_observe _) id ⟨le_rfl, id⟩

/-- A hedge is for one of the two venues. -/
theorem hedgePoint_venue (h : x.Ready)
    (hsend : ((x.hedgePoint nowNs).decision cfg).shouldSend = true) :
    ((x.hedgePoint nowNs).decision cfg).intent.venue ≠ .unknown := by
  have hvenue : (if x.pair.residual > 0 then x.pair.intendedSellVenue
      else x.pair.intendedBuyVenue) ≠ .unknown := by
    split_ifs
    · exact h.venues.2
    · exact h.venues.1
  have hother : ∀ v, v ≠ .unknown → otherVenue v ≠ .unknown := by
    intro v hv
    cases v with
    | nse => decide
    | bse => decide
    | unknown => exact absurd rfl hv
  have hcandidate : ∀ v q, v ≠ .unknown → (candidateForVenue cfg x.pair v q).shouldSend = true →
      (candidateForVenue cfg x.pair v q).intent.venue ≠ .unknown := by
    intro v q hv hsend
    rw [(candidateForVenue_send hsend).1]
    exact hv
  have hpair : (x.hedgePoint nowNs).pair = x.pair := rfl
  unfold HedgePoint.decision nextOrder at hsend ⊢
  rw [hpair] at hsend ⊢
  generalize (if x.pair.residual > 0 then x.pair.intendedSellVenue
    else x.pair.intendedBuyVenue) = preferred at hvenue hsend ⊢
  dsimp only at hsend ⊢
  split_ifs at hsend ⊢
  · exact hcandidate _ _ hvenue hsend
  · exact hcandidate _ _ (hother _ hvenue) hsend

theorem hedgeBody_wrote (h : x.Ready) :
    ∀ r, hedgeBody env cfg nowNs x = r →
      match r with
      | .done y => Wrote env cfg 0 x y
      | .yield y => Wrote env cfg 0 x y := by
  intro r hr
  have hturn := hedgeBody_turn env cfg nowNs x
  rw [hr] at hturn
  have hreason : Printable ((x.hedgePoint nowNs).decision cfg).reason := printable_nextOrder _ _ _ _
  have hverdict := (x.hedgePoint nowNs).verdictRule_reason cfg
  cases hturn with
  | finished h => exact .refl x
  | kill hres hatt hkill =>
    have hdisable : Wrote env cfg 0 (x.asked nowNs)
        ((x.asked nowNs).disable ((x.hedgePoint nowNs).decision cfg).reason) :=
      wrote_silent ⟨rfl, rfl, rfl, rfl, rfl, fun _ => hreason⟩ (quiet_disable _) id ⟨le_rfl, id⟩
    exact (wrote_asked.trans hdisable).trans
      (wrote_stopHedging hverdict (fun _ => ⟨by decide, hreason, by decide⟩) hreason)
  | noOrder hres hatt hsend =>
    exact wrote_asked.trans
      (wrote_stopHedging hverdict (fun _ => ⟨by decide, hreason, by decide⟩) hreason)
  | blocked hres hatt hsend happ =>
    have hrule : Printable ((x.hedgePoint nowNs).check cfg).1.rule := RiskEngine.printable_rule
    have hdetails : Printable x.run.risk.kill.reason →
        Printable ((x.hedgePoint nowNs).check cfg).1.details := RiskEngine.printable_details
    have hkill : ((x.hedgePoint nowNs).check cfg).2.kill = x.run.risk.kill :=
      RiskEngine.kill_checkOrder
    have hattempted : Wrote env cfg 0 (x.asked nowNs)
        ((x.asked nowNs).attempted ((x.hedgePoint nowNs).check cfg).2) :=
      wrote_silent ⟨rfl, rfl, rfl, rfl, rfl, fun h => hkill.symm ▸ h⟩
        (quiet_attempted RiskEngine.cfg_checkOrder) id
        ⟨(lt_add_one _).le, fun _ => (Int.add_one_le_of_lt hatt).trans (le_max_right _ _)⟩
    exact (wrote_asked.trans hattempted).trans
      (wrote_stopHedging ((x.hedgePoint nowNs).verdictRule_check cfg)
        (fun h => ⟨by decide, hrule, hdetails (hkill ▸ h)⟩) hrule)
  | sent hres hatt hsend happ =>
    obtain ⟨v, q, hintent⟩ := hedgePoint_intent hsend
    have hrole : ((x.hedgePoint nowNs).decision cfg).intent.role = .hedge := by rw [hintent]; rfl
    exact wrote_asked.trans (wrote_hedge (h.quiet (quiet_observe _)) RiskEngine.kill_checkOrder
      RiskEngine.cfg_checkOrder (hedgePoint_cleared hsend happ) (hedgePoint_venue h hsend) hrole hatt)

theorem hedgeUntilFlat_wrote (h : x.Ready) : Wrote env cfg 0 x (x.hedgeUntilFlat env cfg nowNs) := by
  have hstep : ∀ y y', Wrote env cfg 0 x y → Wrote env cfg 0 y y' → Wrote env cfg 0 x y' :=
    fun _ _ hy hy' => hy.trans hy'
  have hloop : Wrote env cfg 0 x (runLoop (hedgeBody env cfg nowNs)
      ((cfg.maxHedgeAttempts - x.pair.hedgeAttempts).toNat + 1) x) := by
    refine (hedge_ends env cfg nowNs x).induct (I := fun y => Wrote env cfg 0 x y)
      (R := fun y => Wrote env cfg 0 x y) (.refl x) ?_ ?_
    · intro y y' hy hbody
      exact hstep y y' hy (hedgeBody_wrote (hy.ready h) _ hbody)
    · intro y y' hy hbody
      exact hstep y y' hy (hedgeBody_wrote (hy.ready h) _ hbody)
  refine hstep _ _ hloop ?_
  exact wrote_silent ⟨rfl, rfl, rfl, rfl, rfl, id⟩ quiet_settle id ⟨le_rfl, id⟩

end Execution

namespace ReplayState

open Execution

variable {env : Env} {cfg : SimConfig} {maxTrades : ℤ} {nowNs : ℕ} {s s' : ReplayState}
  {opp : ArbOpportunity} {item : MdResult}

theorem wrote_setState {x : Execution} {state : PairState} :
    Wrote env cfg.risk 0 x { x with pair := { x.pair with state := state } } :=
  wrote_silent ⟨rfl, rfl, rfl, rfl, rfl, id⟩ (quiet_setState state) id ⟨le_rfl, id⟩

theorem hedgeLegs_wrote {x : Execution} (h : x.Ready) :
    Wrote env cfg.risk 0 x (hedgeLegs env cfg.risk nowNs x) := by
  have hset : ∀ (y : Execution) (state : PairState),
      Wrote env cfg.risk 0 y { y with pair := { y.pair with state := state } } :=
    fun y state => wrote_setState
  refine hedgeLegs_induct (I := fun y => Wrote env cfg.risk 0 x y) (.refl x) (fun _ => ?_) ?_
  · exact (hset x .hedging).trans (hedgeUntilFlat_wrote ((hset x .hedging).ready h))
  · exact fun y hy => hy.trans (hset y .flat)

/-- An opportunity that may be executed. -/
theorem Started.ready (h : Started cfg nowNs s opp) (hparent : Word opp.parentArbId.toList) :
    Execution.Ready ⟨s, .fromOpportunity opp⟩ where
  sound := h.sound
  parent := hparent
  listed := by
    have hbook : ∀ v, (∃ q, s.gateway.books.quote v opp.instrumentId nowNs = some q) →
        ∃ b, s.gateway.books.book v opp.instrumentId = some b := by
      rintro v ⟨q, hq⟩
      obtain ⟨b, hb, -⟩ := Option.map_eq_some_iff.1 hq
      exact ⟨b, hb⟩
    intro v hv
    cases v with
    | nse => exact hbook .nse h.nseQuote
    | bse => exact hbook .bse h.bseQuote
    | unknown => exact absurd rfl hv
  venues := by
    show opp.buyVenue ≠ .unknown ∧ opp.sellVenue ≠ .unknown
    rcases h.visible.venues with ⟨hbuy, hsell⟩ | ⟨hbuy, hsell⟩ <;> rw [hbuy, hsell] <;> decide

theorem legs_venue (cfg : SimConfig) (h : Started cfg nowNs s opp) :
    ∀ leg, leg = (cfg.legs opp).1 ∨ leg = (cfg.legs opp).2 → leg.venue ≠ .unknown := by
  have hbuy : opp.buy.venue ≠ .unknown ∧ opp.sell.venue ≠ .unknown := by
    show opp.buyVenue ≠ .unknown ∧ opp.sellVenue ≠ .unknown
    rcases h.visible.venues with ⟨hbuy, hsell⟩ | ⟨hbuy, hsell⟩ <;> rw [hbuy, hsell] <;> decide
  intro leg hleg
  unfold SimConfig.legs at hleg
  split_ifs at hleg <;> rcases hleg with rfl | rfl
  exacts [hbuy.2, hbuy.1, hbuy.1, hbuy.2]

/-- **What an execution writes**: at most two orders of its legs, and no more hedges than attempts. -/
theorem executed_wrote (h : Started cfg nowNs s opp) (hparent : Word opp.parentArbId.toList) :
    Wrote env cfg.risk 2 ⟨s, .fromOpportunity opp⟩ (s.executed env cfg nowNs opp) := by
  have hready := h.ready hparent
  obtain ⟨hside₁, hparent₁, hinst₁, -⟩ := legs_own cfg opp _ (Or.inl rfl)
  have hrole : ∀ leg, leg = (cfg.legs opp).1 ∨ leg = (cfg.legs opp).2 → leg.role ≠ .hedge :=
    fun leg hleg => (legs_px cfg opp leg hleg).1
  have hone : Wrote env cfg.risk 1 ⟨s, .fromOpportunity opp⟩
      (Execution.sendOne env nowNs (s.quoteOr .nse opp.instrumentId nowNs)
        (s.quoteOr .bse opp.instrumentId nowNs) ⟨s, .fromOpportunity opp⟩ (cfg.legs opp).1) :=
    sendOne_wrote hready _ _ hside₁ ⟨hparent₁, hinst₁⟩ (legs_venue cfg h _ (Or.inl rfl))
      (hrole _ (Or.inl rfl))
  have htwo : Wrote env cfg.risk 2 ⟨s, .fromOpportunity opp⟩
      (s.sendLegs env nowNs opp (cfg.legs opp).1 (cfg.legs opp).2) :=
    hone.trans (sendOne_wrote (hone.ready hready) _ _ (legs_own cfg opp _ (Or.inr rfl)).1
      (secondLeg_own env cfg nowNs s opp _ _) (legs_venue cfg h _ (Or.inr rfl))
      (hrole _ (Or.inr rfl)))
  exact htwo.trans (hedgeLegs_wrote (htwo.ready hready))

/-- The row of a pair ends its execution. -/
theorem executeOpportunity_writes (h : Started cfg nowNs s opp)
    (hparent : Word opp.parentArbId.toList) :
    Writes env s (s.executeOpportunity env cfg nowNs opp).countTrade := by
  have hwrote : Wrote env cfg.risk 2 ⟨s, .fromOpportunity opp⟩ (s.executed env cfg nowNs opp) :=
    executed_wrote h hparent
  have hpair : Write env (s.executed env cfg nowNs opp).run
      ((s.executed env cfg nowNs opp).run.logPair (s.executed env cfg nowNs opp).pair) :=
    .pair _ (hwrote.ready (h.ready hparent)).parent (hwrote.error printable_empty)
  have hsilent : Unwritten
      ((s.executed env cfg nowNs opp).run.logPair (s.executed env cfg nowNs opp).pair)
      (s.executeOpportunity env cfg nowNs opp).countTrade := ⟨rfl, rfl, rfl, rfl, rfl, id⟩
  exact (hwrote.notes.writes.tail hpair).tail (.note (.silent hsilent))

/-! ### The turns of a run -/

/-- Neither orders, fills nor pairs were logged, and no opportunity was announced. -/
structure Level (s s' : ReplayState) : Prop where
  announced : s'.logs.opportunities.filter StrategyDecision.shouldTrade =
    s.logs.opportunities.filter StrategyDecision.shouldTrade
  opportunities : s'.result.opportunities = s.result.opportunities
  trades : s'.result.trades = s.result.trades
  hedges : s'.result.hedges = s.result.hedges
  orders : s'.logs.orders = s.logs.orders
  fills : s'.logs.fills = s.logs.fills
  pairs : s'.logs.pairs = s.logs.pairs
  sound : s.Sound → s'.Sound
  idPrefix : s'.ids.idPrefix = s.ids.idPrefix

theorem Level.trans {s'' : ReplayState} (h : Level s s') (h' : Level s' s'') : Level s s'' :=
  ⟨h'.announced.trans h.announced, h'.opportunities.trans h.opportunities,
    h'.trades.trans h.trades, h'.hedges.trans h.hedges, h'.orders.trans h.orders,
    h'.fills.trans h.fills, h'.pairs.trans h.pairs, h'.sound ∘ h.sound,
    h'.idPrefix.trans h.idPrefix⟩

/-- A decision of `evaluate` to trade. -/
def Signal (cfg : SimConfig) (d : StrategyDecision) : Prop :=
  d.shouldTrade = true ∧ ∃ nse bse nowNs, d = evaluate cfg.strategy nse bse cfg.costs nowNs

/-- What a turn of `run_replay` writes. -/
inductive TurnWrites (env : Env) (cfg : SimConfig) (maxTrades : ℤ) (s : ReplayState) :
    ReplayState → Prop
  | watched {s' : ReplayState} (h : Writes env s s') (hlevel : Level s s') :
      TurnWrites env cfg maxTrades s s'
  | capped {s₁ : ReplayState} (d : StrategyDecision) (h : Writes env s s₁) (hlevel : Level s s₁)
      (hannounce : Write env s₁ (s₁.announce d).2) (hmax : maxTrades ≤ s₁.result.trades)
      (hsignal : Signal cfg d) :
      TurnWrites env cfg maxTrades s (s₁.announce d).2
  | executed {s₁ : ReplayState} (nowNs : ℕ) (d : StrategyDecision) (h : Writes env s s₁)
      (hlevel : Level s s₁) (hannounce : Write env s₁ (s₁.announce d).2)
      (hmax : s₁.result.trades < maxTrades)
      (hstarted : Started cfg nowNs (s₁.announce d).2 (s₁.announce d).1)
      (hparent : Word (s₁.announce d).1.parentArbId.toList) (hsignal : Signal cfg d) :
      TurnWrites env cfg maxTrades s
        ((s₁.announce d).2.executeOpportunity env cfg nowNs (s₁.announce d).1).countTrade

theorem TurnWrites.writes (h : TurnWrites env cfg maxTrades s s') : Writes env s s' := by
  cases h with
  | watched h hlevel => exact h
  | capped d h hlevel hannounce hmax => exact h.tail hannounce
  | executed nowNs d h hlevel hannounce hmax hstarted hparent =>
    exact (h.tail hannounce).trans (executeOpportunity_writes hstarted hparent)

/-- A row of risk events in a turn. -/
theorem riskBlock_level (ts : ℕ) (severity rule : String) (instrumentId : ℕ) (details : String) :
    Level s (s.riskBlock ts severity rule instrumentId details) :=
  ⟨rfl, rfl, rfl, rfl, rfl, rfl, rfl, fun hs => ⟨hs.books, hs.known, hs.taken⟩, rfl⟩

theorem riskBlock_writes {ts instrumentId : ℕ} {severity rule details : String}
    (hseverity : Printable severity) (hrule : Printable rule) (hdetails : Printable details) :
    Writes env s (s.riskBlock ts severity rule instrumentId details) :=
  .single (.note (.block ts severity rule instrumentId details
    fun _ => ⟨hseverity, hrule, hdetails⟩))

theorem onBookEvent_writes (hwarning : Printable item.warning) (ev : BookEvent ℤ) :
    Writes env s (s.onBookEvent item ev) ∧ Level s (s.onBookEvent item ev) := by
  have hevent : Unwritten s { s with
      gateway := { s.gateway with books := s.gateway.books.onEvent ev } } :=
    ⟨rfl, rfl, rfl, rfl, rfl, id⟩
  have hlevel : Level s { s with
      gateway := { s.gateway with books := s.gateway.books.onEvent ev } } :=
    ⟨rfl, rfl, rfl, rfl, rfl, rfl, rfl, fun hs => ⟨hs.books.onEvent ev, hs.known, hs.taken⟩, rfl⟩
  unfold onBookEvent
  dsimp only
  split_ifs
  · exact ⟨hevent.note.writes.trans (riskBlock_writes (by decide) (by decide) hwarning),
      hlevel.trans (riskBlock_level _ _ _ _ _)⟩
  · exact ⟨hevent.note.writes, hlevel⟩

/-- A row of a decision not to trade. -/
theorem logOpportunity_level {d : StrategyDecision} (hno : ¬ d.shouldTrade = true) :
    Level s (s.logOpportunity d) :=
  ⟨by simp [logOpportunity, hno], rfl, rfl, rfl, rfl, rfl, rfl,
    fun hs => ⟨hs.books, hs.known, hs.taken⟩, rfl⟩

/-- **What a turn writes.** -/
theorem onItem_writes (hs : s.Filed) (hidWord : Word s.ids.idPrefix.toList)
    (hwarning : Printable item.warning) (env : Env) (cfg : SimConfig) (maxTrades : ℤ) :
    TurnWrites env cfg maxTrades s (s.onItem env cfg maxTrades item) := by
  have hevent : ∀ ev, Writes env s (s.onBookEvent item ev) ∧ Level s (s.onBookEvent item ev) :=
    onBookEvent_writes hwarning
  have hprintable : ∀ nse bse nowNs,
      Printable (evaluate cfg.strategy nse bse cfg.costs nowNs).reason ∧
        Printable (evaluate cfg.strategy nse bse cfg.costs nowNs).opportunity.reason :=
    fun nse bse => printable_evaluate cfg.strategy nse bse cfg.costs
  have hcase := onItem_case env cfg maxTrades s item
  generalize s.onItem env cfg maxTrades item = s' at hcase ⊢
  cases hcase with
  | skip h => exact .watched .refl ⟨rfl, rfl, rfl, rfl, rfl, rfl, rfl, id, rfl⟩
  | unquoted ev h hnone => exact .watched (hevent ev).1 (hevent ev).2
  | unhealthy ev h hquoted hhealth =>
    exact .watched ((hevent ev).1.trans (riskBlock_writes (by decide) (by decide) (by decide)))
      ((hevent ev).2.trans (riskBlock_level _ _ _ _ _))
  | idle ev nse bse h hquoted hhealth hno => exact .watched (hevent ev).1 (hevent ev).2
  | watched ev nse bse h hquoted hhealth hno =>
    exact .watched ((hevent ev).1.tail (.watched _ (Bool.not_eq_true _ ▸ hno) (hprintable _ _ _).1))
      ((hevent ev).2.trans (logOpportunity_level hno))
  | capped ev nse bse h hmax =>
    exact .capped _ (hevent ev).1 (hevent ev).2 (.announced _ h.trade (hprintable _ _ _).2) hmax
      ⟨h.trade, nse, bse, ev.tsIngestNs, rfl⟩
  | execute ev nse bse h htrades =>
    refine .executed ev.tsIngestNs _ (hevent ev).1 (hevent ev).2
      (.announced _ h.trade (hprintable _ _ _).2) htrades (h.started hs) ?_
      ⟨h.trade, nse, bse, ev.tsIngestNs, rfl⟩
    exact word_parentIdText (by rw [(hevent ev).2.idPrefix]; exact hidWord) _ _

end ReplayState

namespace MarketDataHandler

/-- The warnings of the market data handler. -/
theorem printable_onPacket (h : MarketDataHandler) (pkt : RawPacket) :
    Printable (h.onPacket pkt).1.warning := by
  have hhandled := onPacket_handled h pkt
  generalize h.onPacket pkt = res at hhandled ⊢
  cases hhandled with
  | duplicate hdup => exact show Printable "duplicate packet ignored" by decide
  | unparsed hdup hparse => exact show Printable "parse failure" by decide
  | gap hgap hparse => exact show Printable "sequence gap" by decide
  | accepted hdup hgap hparse => exact printable_empty

theorem printable_next {h h' : MarketDataHandler} {item : MdResult}
    (hn : h.next = (some item, h')) : Printable item.warning := by
  obtain ⟨pkt, reader, -, heq⟩ := next_some hn
  have hwarning := printable_onPacket { h with reader := reader } pkt
  rw [← heq] at hwarning
  exact hwarning

end MarketDataHandler

namespace Simulator

open ReplayState

variable {sim : Simulator} {call : ReplayCall}

/-- **The invariant rule of what runs write**: what holds at the start and after every turn, of
whatever was written, holds at every point of a run. -/
theorem replayFor_writes {I : ReplayState → Prop} (hwf : sim.books.Wf) (hk : sim.books.Keyed)
    (hstart : I (sim.start call.lines)) (hmd : ∀ s md, I s → I { s with md := md })
    (hturn : ∀ s s', s.Sound → I s → TurnWrites call.env sim.cfg call.maxTrades s s' → I s')
    (turns : ℕ) : I (sim.replayFor call turns) := by
  have hall : (sim.replayFor call turns).Filed ∧
      (sim.replayFor call turns).ids.idPrefix = "SIM" ∧ I (sim.replayFor call turns) := by
    refine runLoop_induct (I := fun s => s.Filed ∧ s.ids.idPrefix = "SIM" ∧ I s)
      (fun s s' hs hbody => ?_) (fun s t hs hbody => ?_) turns
        ⟨⟨balanced_start hwf call.lines, hk⟩, rfl, hstart⟩
    · obtain ⟨hfiled, hidWord, hI⟩ := hs
      obtain ⟨item, md, hnext, hitem⟩ := replayBody_item hbody
      have heq : s' = onItem call.env sim.cfg call.maxTrades { s with md := md } item := by
        simp only [replayBody, hnext] at hbody
        cases hbody
        rfl
      have hread := hfiled.read md
      have hwritten : TurnWrites call.env sim.cfg call.maxTrades { s with md := md } s' := by
        rw [heq]
        refine onItem_writes hread ?_ (MarketDataHandler.printable_next hnext) _ _ _
        show Word s.ids.idPrefix.toList
        rw [hidWord]
        exact word_of_all (by decide)
      exact ⟨hread.turn hitem, hwritten.writes.idPrefix.trans hidWord,
        hturn _ s' hread.balanced.sound (hmd s md hI) hwritten⟩
    · obtain ⟨hfiled, hidWord, hI⟩ := hs
      obtain ⟨md, -, rfl⟩ := replayBody_done hbody
      exact ⟨hfiled.read md, hidWord, hmd s md hI⟩
  exact hall.2.2

/-- The same for what holds after everything that is written. -/
theorem replayFor_write {I : ReplayState → Prop} (hwf : sim.books.Wf) (hk : sim.books.Keyed)
    (hstart : I (sim.start call.lines)) (hmd : ∀ s md, I s → I { s with md := md })
    (hwrite : ∀ s s', I s → Write call.env s s' → I s') (turns : ℕ) :
    I (sim.replayFor call turns) := by
  refine replayFor_writes hwf hk hstart hmd (fun s s' _ hI hturn => ?_) turns
  have hwrites := hturn.writes
  clear hturn
  induction hwrites with
  | refl => exact hI
  | tail _ h ih => exact hwrite _ _ ih h

end Simulator

end Hft
