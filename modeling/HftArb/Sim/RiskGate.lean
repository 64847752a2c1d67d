import HftArb.Sim.Opening
import HftArb.Sim.PositionCap

/-!
# The risk gate

`GateMove` is what a run does, seen from the gateway: it asks `check_order`, with the positions of
the moment, and hands the order over at once if it is approved; it turns the kill switch off after a
verdict of the hedge policy; and whatever else it does sends nothing.  Both paths of the source that
submit orders, the legs and the hedge loop, are made of these moves (`sendOne_moves`,
`hedgeBody_moves`), so that `run_riskGate` is an induction over moves.
-/

namespace Hft

open Transition

/-- The order that an observation hands to the gateway. -/
def Observation.submission : Observation → Option OrderIntent
  | .sent intent => some intent
  | _ => none

/-- The orders handed to the gateway. -/
def submissions (trace : List Observation) : List OrderIntent :=
  trace.filterMap Observation.submission

theorem submissions_append (l l' : List Observation) :
    submissions (l ++ l') = submissions l ++ submissions l' := List.filterMap_append

theorem submissions_hedging (l : List Observation) (h : HedgePoint) :
    submissions (l ++ [.hedging h]) = submissions l := by
  rw [submissions_append]
  exact List.append_nil _

namespace ReplayState

open Execution

/-! ### Moves -/

/-- The observation of a check of `intent` in `s`. -/
inductive Asks (cfg : RiskConfig) (s : ReplayState) (intent : OrderIntent) (q : BestQuote)
    (nowNs : ℕ) : Observation → Prop
  | leg : Asks cfg s intent q nowNs
      (.leg intent (s.risk.checkOrder s.oms.positions intent q nowNs).1)
  | hedge (h : HedgePoint) (hrisk : h.risk = s.risk) (hpos : h.positions = s.oms.positions)
      (hsend : (h.decision cfg).shouldSend = true) (hintent : (h.decision cfg).intent = intent) :
      Asks cfg s intent q nowNs (.hedging h)

/-- The run after a check of `intent`. -/
def checked (s : ReplayState) (intent : OrderIntent) (q : BestQuote) (nowNs : ℕ)
    (o : Observation) : ReplayState :=
  { s with risk := (s.risk.checkOrder s.oms.positions intent q nowNs).2 }.observe o

/-- What a run does, as far as the gateway is concerned. -/
inductive GateMove (env : Env) (cfg : RiskConfig) (s : ReplayState) : ReplayState → Prop
  | still {s' : ReplayState} (oms : s'.oms = s.oms) (risk : s'.risk = s.risk)
      (sends : s'.gateway.sends = s.gateway.sends) (trace : s'.trace = s.trace) :
      GateMove env cfg s s'
  | returned (pair : PairTrade) : GateMove env cfg s (s.observe (.hedged pair s.risk.kill))
  | executed (first second : OrderIntent) (pair : PairTrade) :
      GateMove env cfg s (s.observe (.executed first second pair))
  | idle (h : HedgePoint) (hkill : (h.decision cfg).kill = false) :
      GateMove env cfg s (s.observe (.hedging h))
  | kill (h : HedgePoint) (reason : String) :
      GateMove env cfg s
        { s.observe (.hedging h) with risk := { s.risk with kill := s.risk.kill.disable reason } }
  | block {intent : OrderIntent} {q : BestQuote} {nowNs : ℕ} {o : Observation}
      (hasks : Asks cfg s intent q nowNs o)
      (hno : (s.risk.checkOrder s.oms.positions intent q nowNs).1.approved = false) :
      GateMove env cfg s (s.checked intent q nowNs o)
  | send {intent : OrderIntent} {q : BestQuote} {nowNs : ℕ} {o : Observation} (pair : PairTrade)
      (hasks : Asks cfg s intent q nowNs o) (hs : s.Sound)
      (happ : (s.risk.checkOrder s.oms.positions intent q nowNs).1.approved = true) :
      GateMove env cfg s (submit env nowNs ⟨s.checked intent q nowNs o, pair⟩ intent).1.run

/-- Any number of moves. -/
abbrev GateMoves (env : Env) (cfg : RiskConfig) : ReplayState → ReplayState → Prop :=
  Relation.ReflTransGen (GateMove env cfg)

section Moves

variable {env : Env} {cfg : RiskConfig} {nowNs : ℕ} {x x' : Execution} {intent : OrderIntent}

/-- `send_one` asks, and submits what is approved. -/
theorem sendOne_moves (hs : x.run.Sound) (nse bse : BestQuote) (intent : OrderIntent) :
    GateMoves env cfg x.run (sendOne env nowNs nse bse x intent).run := by
  have hasks : Asks cfg x.run intent (quoteFor nse bse intent.venue) nowNs
      (.leg intent (x.checkLeg nowNs (quoteFor nse bse intent.venue) intent).1) := .leg
  rcases sendOne_cases env nowNs nse bse x intent with ⟨happ, heq⟩ | ⟨happ, heq⟩
  · rw [heq]
    have hblock : GateMove env cfg x.run
        (x.checkLeg nowNs (quoteFor nse bse intent.venue) intent).2.run := .block hasks happ
    exact (Relation.ReflTransGen.single hblock).tail (.still rfl rfl rfl rfl)
  · rw [heq, failLeg_run]
    exact .single (.send x.pair hasks hs happ)

/-- A verdict to kill turns the switch off. -/
theorem kill_moves (reason details : String) :
    GateMoves env cfg x.run (((x.asked nowNs).disable reason).stopHedging nowNs .killSwitch
      "CRITICAL" reason details).run := by
  have hkill : GateMove env cfg x.run ((x.asked nowNs).disable reason).run := .kill _ _
  exact (Relation.ReflTransGen.single hkill).tail (.still rfl rfl rfl rfl)

/-- A turn of the hedge loop records its point, and then kills, asks or gives up. -/
theorem hedgeBody_moves (hs : x.run.Sound) :
    ∀ r, hedgeBody env cfg nowNs x = r →
      match r with
      | .done y => GateMoves env cfg x.run y.run
      | .yield y => GateMoves env cfg x.run y.run := by
  intro r hr
  have hturn := hedgeBody_turn env cfg nowNs x
  rw [hr] at hturn
  cases hturn with
  | finished h => exact .refl
  | kill hres hatt hkill => exact kill_moves _ _
  | noOrder hres hatt hsend =>
    by_cases hkill : ((x.hedgePoint nowNs).decision cfg).kill = true
    · -- the loop has killed instead
      rw [hedgeBody_kill hres hatt hkill] at hr
      rw [← ForInStep.done.inj hr]
      exact kill_moves _ _
    · have hidle : GateMove env cfg x.run (x.asked nowNs).run :=
        .idle _ (by simpa using hkill)
      exact (Relation.ReflTransGen.single hidle).tail (.still rfl rfl rfl rfl)
  | blocked hres hatt hsend happ =>
    have hblock : GateMove env cfg x.run
        ((x.asked nowNs).attempted ((x.hedgePoint nowNs).check cfg).2).run :=
      .block (.hedge (x.hedgePoint nowNs) rfl rfl hsend rfl) (Bool.eq_false_of_not_eq_true happ)
    exact (Relation.ReflTransGen.single hblock).tail (.still rfl rfl rfl rfl)
  | sent hres hatt hsend happ =>
    have hsent : GateMove env cfg x.run
        (((x.asked nowNs).attempted ((x.hedgePoint nowNs).check cfg).2).submit env nowNs
          ((x.hedgePoint nowNs).decision cfg).intent).1.run :=
      .send _ (.hedge (x.hedgePoint nowNs) rfl rfl hsend rfl) hs happ
    exact (Relation.ReflTransGen.single hsent).tail (.still rfl rfl rfl rfl)

theorem hedgeUntilFlat_moves (hs : x.run.Sound) :
    GateMoves env cfg x.run (x.hedgeUntilFlat env cfg nowNs).run := by
  have hloop := (hedge_ends env cfg nowNs x).induct
    (I := fun y => y.run.Sound ∧ GateMoves env cfg x.run y.run)
    (R := fun y => GateMoves env cfg x.run y.run) ⟨hs, .refl⟩ ?_ ?_
  · exact hloop.tail (.returned _)
  · rintro y y' ⟨hy, hmoves⟩ hbody
    exact ⟨Steps.sound (hedgeBody_steps env cfg nowNs y _ hbody) hy,
      hmoves.trans (hedgeBody_moves hy _ hbody)⟩
  · rintro y y' ⟨hy, hmoves⟩ hbody
    exact hmoves.trans (hedgeBody_moves hy _ hbody)

theorem hedgeLegs_moves (hs : x.run.Sound) :
    GateMoves env cfg x.run (hedgeLegs env cfg nowNs x).run :=
  hedgeLegs_induct (I := fun y => GateMoves env cfg x.run y.run) .refl
    (fun _ => hedgeUntilFlat_moves (x := { x with pair := { x.pair with state := .hedging } }) hs)
    fun _ hy => hy

end Moves

section Runs

variable {env : Env} {cfg : SimConfig} {maxTrades : ℤ} {nowNs : ℕ} {s s' : ReplayState}
  {item : MdResult}

theorem executeOpportunity_moves (hs : s.Sound) (opp : ArbOpportunity) :
    GateMoves env cfg.risk s (s.executeOpportunity env cfg nowNs opp).countTrade := by
  have hfirst : GateMoves env cfg.risk s (Execution.sendOne env nowNs
      (s.quoteOr .nse opp.instrumentId nowNs) (s.quoteOr .bse opp.instrumentId nowNs)
      ⟨s, .fromOpportunity opp⟩ (cfg.legs opp).1).run :=
    sendOne_moves (x := ⟨s, .fromOpportunity opp⟩) hs _ _ _
  have hsound := @sound_sendOne env nowNs ⟨s, .fromOpportunity opp⟩ (cfg.legs opp).1 hs
    (s.quoteOr .nse opp.instrumentId nowNs) (s.quoteOr .bse opp.instrumentId nowNs)
  have hlegs : GateMoves env cfg.risk s
      (s.sendLegs env nowNs opp (cfg.legs opp).1 (cfg.legs opp).2).run :=
    hfirst.trans (sendOne_moves hsound _ _ _)
  have hexecuted : GateMoves env cfg.risk s (s.executed env cfg nowNs opp).run :=
    hlegs.trans (hedgeLegs_moves (sound_sendOne hsound _ _))
  have hlast : GateMove env cfg.risk (s.executed env cfg nowNs opp).run
      ((s.executed env cfg nowNs opp).run.observe
        (.executed (cfg.legs opp).1 (cfg.legs opp).2 (s.executed env cfg nowNs opp).pair)) :=
    .executed _ _ _
  exact (hexecuted.tail hlast).tail (.still rfl rfl rfl rfl)

theorem ItemTurn.moves (h : ItemTurn env cfg maxTrades s item s') (hs : s.Sound) :
    GateMoves env cfg.risk s s' := by
  have hevent : ∀ ev, GateMove env cfg.risk s (s.onBookEvent item ev) := fun ev => by
    obtain ⟨hq, -⟩ := quiet_onBookEvent (s := s) item ev
    exact .still hq.oms hq.risk (by rw [gateway_onBookEvent]) hq.trace
  cases h with
  | skip h => exact .refl
  | watch ev h hnoted =>
    exact (Relation.ReflTransGen.single (hevent ev)).tail
      (.still hnoted.oms hnoted.risk (congrArg MatchingEngine.sends hnoted.gateway) hnoted.trace)
  | execute ev nse bse h htrades =>
    have hopened : GateMoves env cfg.risk s (s.opened cfg item ev nse bse).2 :=
      (Relation.ReflTransGen.single (hevent ev)).tail (.still rfl rfl rfl rfl)
    exact hopened.trans (executeOpportunity_moves (sound_opened hs item ev nse bse) _)

end Runs

/-! ### What the moves show -/

section Shown

variable {env : Env} {cfg : RiskConfig} {s s' t : ReplayState} {obs : List Observation}

/-- The order `intent` went to the gateway in the move from `t` to `t'`, just after its check. -/
structure Approved (env : Env) (cfg : RiskConfig) (t : ReplayState) (intent : OrderIntent)
    (t' : ReplayState) : Prop where
  kill : t.risk.kill.enabled = true
  check : ∃ q nowNs, (t.risk.checkOrder t.oms.positions intent q nowNs).1.approved = true ∧
    ∃ o, Asks cfg t intent q nowNs o ∧ t'.trace = t.trace ++ [o, .sent intent]
  order : ∃ nowNs, t'.gateway = (t.gateway.send env
    (OrderManager.newOrder intent (t.oms.nextId intent) nowNs)).2

/-- The observations of a move. -/
structure GateShown (env : Env) (cfg : RiskConfig) (s s' : ReplayState) (obs : List Observation) :
    Prop where
  trace : s'.trace = s.trace ++ obs
  sends : s'.gateway.sends = s.gateway.sends + (submissions obs).length
  off : s.risk.kill.enabled = false → s'.risk.kill.enabled = false ∧ submissions obs = []
  kills : ∀ pre h post, obs = pre ++ .hedging h :: post → (h.decision cfg).kill = true →
    s'.risk.kill.enabled = false ∧ submissions post = []
  asked : ∀ pre intent post, obs = pre ++ .sent intent :: post →
    post = [] ∧ Approved env cfg s intent s'

theorem Asks.submission {intent : OrderIntent} {q : BestQuote} {nowNs : ℕ} {o : Observation}
    (h : Asks cfg s intent q nowNs o) : o.submission = none := by
  cases h with
  | leg => rfl
  | hedge h hrisk hpos hsend hintent => rfl

/-- A check that asks is not one that kills. -/
theorem Asks.kill {intent : OrderIntent} {q : BestQuote} {nowNs : ℕ} {h : HedgePoint}
    (hasks : Asks cfg s intent q nowNs (.hedging h)) : (h.decision cfg).kill = false := by
  cases hasks with
  | hedge h hrisk hpos hsend hintent =>
    by_contra hkill
    rw [Bool.not_eq_false] at hkill
    rw [HedgePoint.decision, nextOrder_kill hkill] at hsend
    cases hsend

/-- A single observation that submits nothing. -/
theorem gateShown_singleton {o : Observation} (htrace : s'.trace = s.trace ++ [o])
    (hsends : s'.gateway.sends = s.gateway.sends) (ho : o.submission = none)
    (hoff : s.risk.kill.enabled = false → s'.risk.kill.enabled = false)
    (hkills : ∀ h, o = .hedging h → (h.decision cfg).kill = true →
      s'.risk.kill.enabled = false) : GateShown env cfg s s' [o] := by
  have hnone : submissions [o] = [] := by simp [submissions, ho]
  refine ⟨htrace, by rw [hsends, hnone]; rfl, fun h => ⟨hoff h, hnone⟩, ?_, ?_⟩
  · intro pre h post heq hkill
    cases pre with
    | nil =>
      obtain ⟨hhead, rfl⟩ := List.cons.inj heq
      exact ⟨hkills h hhead hkill, rfl⟩
    | cons o' pre => simp at heq
  · intro pre intent post heq
    cases pre with
    | nil =>
      obtain ⟨rfl, -⟩ := List.cons.inj heq
      cases ho
    | cons o' pre => simp at heq

theorem sends_send (env : Env) (g : MatchingEngine) (order : Order) :
    (g.send env order).2.sends = g.sends + 1 := by
  have hsending := MatchingEngine.send_sending env g order
  generalize g.send env order = res at hsending ⊢
  cases hsending with
  | reject ts hrefusal => rfl
  | matched ts hdisc hrole hbook => rfl

/-- An approved check, and the order that is handed over. -/
theorem gateShown_send {intent : OrderIntent} {q : BestQuote} {nowNs : ℕ} {o : Observation}
    (pair : PairTrade) (hasks : Asks cfg s intent q nowNs o) (hs : s.Sound)
    (happ : (s.risk.checkOrder s.oms.positions intent q nowNs).1.approved = true) :
    GateShown env cfg s (submit env nowNs ⟨s.checked intent q nowNs o, pair⟩ intent).1.run
      [o, .sent intent] := by
  have hchecked : (s.checked intent q nowNs o).Sound := ⟨hs.books, hs.known, hs.taken⟩
  have hgateway := gateway_submit (x := ⟨s.checked intent q nowNs o, pair⟩) hchecked env nowNs intent
  have htrace : (submit env nowNs ⟨s.checked intent q nowNs o, pair⟩ intent).1.run.trace =
      s.trace ++ [o, .sent intent] := List.append_assoc _ _ _
  have hon : s.risk.kill.enabled = true := (RiskEngine.checkOrder_approved.1 happ).1.kill
  have hone : submissions [o, .sent intent] = [intent] :=
    List.filterMap_cons_none hasks.submission
  refine ⟨htrace, ?_, fun h => absurd (hon.symm.trans h) (by decide), ?_, ?_⟩
  · rw [hgateway, sends_send, hone]
    rfl
  · intro pre h post heq hkill
    rcases pre with _ | ⟨o', _ | ⟨o'', pre⟩⟩
    · obtain ⟨rfl, -⟩ := List.cons.inj heq
      rw [hasks.kill] at hkill
      cases hkill
    · simp at heq
    · simp at heq
  · intro pre intent' post heq
    rcases pre with _ | ⟨o', _ | ⟨o'', pre⟩⟩
    · obtain ⟨rfl, -⟩ := List.cons.inj heq
      cases hasks.submission
    · obtain ⟨-, heq⟩ := List.cons.inj heq
      obtain ⟨hintent, rfl⟩ := List.cons.inj heq
      cases hintent
      exact ⟨rfl, hon, ⟨q, nowNs, happ, o, hasks, htrace⟩, nowNs, hgateway⟩
    · simp at heq

/-- **What a move shows.** -/
theorem GateMove.shown (h : GateMove env cfg s s') : ∃ obs, GateShown env cfg s s' obs := by
  cases h with
  | still oms risk sends trace =>
    refine ⟨[], by rw [trace, List.append_nil], by rw [sends]; rfl, fun h => ?_, ?_, ?_⟩
    · rw [risk]
      exact ⟨h, rfl⟩
    · intro pre h post heq
      simp at heq
    · intro pre intent post heq
      simp at heq
  | returned pair => exact ⟨_, gateShown_singleton rfl rfl rfl id (by simp)⟩
  | executed first second pair => exact ⟨_, gateShown_singleton rfl rfl rfl id (by simp)⟩
  | idle h hkill =>
    refine ⟨_, gateShown_singleton rfl rfl rfl id fun h' heq hkill' => ?_⟩
    cases heq
    rw [hkill] at hkill'
    cases hkill'
  | kill h reason => exact ⟨_, gateShown_singleton rfl rfl rfl (fun _ => rfl) fun _ _ _ => rfl⟩
  | @block intent q nowNs o hasks hno =>
    refine ⟨_, gateShown_singleton rfl rfl hasks.submission (fun hoff => ?_) fun h heq hkill => ?_⟩
    · exact (congrArg KillSwitch.enabled RiskEngine.kill_checkOrder).trans hoff
    · subst heq
      rw [hasks.kill] at hkill
      cases hkill
  | send pair hasks hs happ => exact ⟨_, gateShown_send pair hasks hs happ⟩

/-- Where an observation stands in what was shown before and what a move adds. -/
theorem split_append {l l' pre post : List Observation} {o : Observation}
    (h : l ++ l' = pre ++ o :: post) :
    (∃ post', l = pre ++ o :: post' ∧ post = post' ++ l') ∨
      ∃ pre', pre = l ++ pre' ∧ l' = pre' ++ o :: post := by
  rcases List.append_eq_append_iff.1 h with ⟨pre', hpre, hl'⟩ | ⟨bs, hl, hcons⟩
  · exact Or.inr ⟨pre', hpre, hl'⟩
  · rcases List.cons_eq_append_iff.1 hcons with ⟨rfl, hl'⟩ | ⟨post', rfl, hpost⟩
    · exact Or.inr ⟨[], by simpa using hl.symm, hl'⟩
    · exact Or.inl ⟨post', hl, hpost⟩

/-- With the kill switch off no move submits an order. -/
theorem GateMoves.killed (h : GateMoves env cfg t s) (hoff : t.risk.kill.enabled = false) :
    s.risk.kill.enabled = false ∧ s.gateway.sends = t.gateway.sends ∧
      ∃ obs, s.trace = t.trace ++ obs ∧ submissions obs = [] := by
  induction h with
  | refl => exact ⟨hoff, rfl, [], by simp, rfl⟩
  | tail _ hmove ih =>
    obtain ⟨hkill, hsends, obs, htrace, hnone⟩ := ih
    obtain ⟨obs', hshown⟩ := hmove.shown
    obtain ⟨hkill', hnone'⟩ := hshown.off hkill
    refine ⟨hkill', ?_, obs ++ obs', ?_, ?_⟩
    · rw [hshown.sends, hsends, hnone']
      rfl
    · rw [hshown.trace, htrace, List.append_assoc]
    · rw [submissions_append, hnone, hnone']
      rfl

/-- Between `start` and `s` the risk gate was not bypassed. -/
structure RiskGate (env : Env) (cfg : RiskConfig) (start s : ReplayState) : Prop where
  moves : GateMoves env cfg start s
  sends : s.gateway.sends = (submissions s.trace).length
  approved : ∀ pre intent post, s.trace = pre ++ .sent intent :: post →
    ∃ t t', GateMoves env cfg start t ∧ GateMove env cfg t t' ∧ GateMoves env cfg t' s ∧
      t'.trace = pre ++ [.sent intent] ∧ Approved env cfg t intent t'
  killed : ∀ t, GateMoves env cfg t s → t.risk.kill.enabled = false →
    s.gateway.sends = t.gateway.sends ∧ ∃ obs, s.trace = t.trace ++ obs ∧ submissions obs = []
  hedgeKill : ∀ pre h post, s.trace = pre ++ .hedging h :: post → (h.decision cfg).kill = true →
    s.risk.kill.enabled = false ∧ submissions post = []

theorem riskGate_start {start : ReplayState} (hsends : start.gateway.sends = 0)
    (htrace : start.trace = []) : RiskGate env cfg start start := by
  have hno : ∀ pre o post, start.trace ≠ pre ++ o :: post := fun pre o post h => by
    rw [htrace] at h
    simp at h
  refine ⟨.refl, ?_, fun pre intent post h => absurd h (hno _ _ _), fun t h hoff => ?_,
    fun pre h post heq => absurd heq (hno _ _ _)⟩
  · rw [hsends, htrace]
    rfl
  · exact (GateMoves.killed h hoff).2

theorem RiskGate.move {start : ReplayState} (h : RiskGate env cfg start s)
    (hmove : GateMove env cfg s s') : RiskGate env cfg start s' := by
  obtain ⟨obs, hshown⟩ := hmove.shown
  refine ⟨h.moves.tail hmove, ?_, ?_, fun t ht hoff => (GateMoves.killed ht hoff).2, ?_⟩
  · rw [hshown.sends, h.sends, hshown.trace, submissions_append, List.length_append]
  · intro pre intent post htrace
    rw [hshown.trace] at htrace
    rcases split_append htrace with ⟨post', hold, -⟩ | ⟨pre', rfl, hnew⟩
    · obtain ⟨t, t', hto, hsent, hon, hpre, happ⟩ := h.approved pre intent post' hold
      exact ⟨t, t', hto, hsent, hon.tail hmove, hpre, happ⟩
    · obtain ⟨rfl, happ⟩ := hshown.asked pre' intent post hnew
      refine ⟨s, s', h.moves, hmove, .refl, ?_, happ⟩
      rw [hshown.trace, hnew, List.append_assoc]
  · intro pre p post htrace hkill
    rw [hshown.trace] at htrace
    rcases split_append htrace with ⟨post', hold, rfl⟩ | ⟨pre', -, hnew⟩
    · obtain ⟨hoff, hnone⟩ := h.hedgeKill pre p post' hold hkill
      obtain ⟨hoff', hnone'⟩ := hshown.off hoff
      refine ⟨hoff', ?_⟩
      rw [submissions_append, hnone, hnone']
      rfl
    · exact hshown.kills pre' p post hnew hkill

theorem RiskGate.path {start : ReplayState} (h : RiskGate env cfg start s)
    (hmoves : GateMoves env cfg s s') : RiskGate env cfg start s' := by
  induction hmoves with
  | refl => exact h
  | tail _ hmove ih => exact ih.move hmove

end Shown

end ReplayState

/-! ### Runs -/

namespace Simulator

open ReplayState

/-- The turns of a run are made of moves. -/
theorem replayFor_moves (cfg : SimConfig) (calls : List ReplayCall) (call : ReplayCall) {n m : ℕ}
    (h : n ≤ m) : GateMoves call.env cfg.risk ((afterRuns cfg calls).replayFor call n)
      ((afterRuns cfg calls).replayFor call m) := by
  refine (replayFor_from (I := fun s => s.Filed ∧
    GateMoves call.env cfg.risk ((afterRuns cfg calls).replayFor call n) s) h
    ⟨run_filed cfg calls call n, .refl⟩ ?_ ?_).2
  · rintro s md ⟨hs, hmoves⟩ -
    exact ⟨hs.read md, hmoves.tail (.still rfl rfl rfl rfl)⟩
  · rintro s item md s' ⟨hs, hmoves⟩ - hturn
    rw [(afterRuns_spec cfg calls).2] at hturn
    have hread : GateMove call.env cfg.risk s { s with md := md } := .still rfl rfl rfl rfl
    exact ⟨(hs.read md).turn hturn,
      (hmoves.tail hread).trans (hturn.moves (hs.read md).balanced.sound)⟩

theorem kill_start (sim : Simulator) (lines : List Bytes)
    (h : sim.cfg.scenario.manualKill = true) : (sim.start lines).risk.kill.enabled = false := by
  unfold start
  dsimp only
  rw [if_pos h]
  rfl

/-- **No bypass of the risk gate.**  In every run, of a simulator that may have run before, an order
goes to the gateway only in the move after its check, which approves it with the kill switch on and
on the positions of that moment.  Once the switch is off, by a manual kill or a verdict of the hedge
policy, no order goes to the gateway for the rest of the run. -/
theorem run_riskGate (cfg : SimConfig) (calls : List ReplayCall) (call : ReplayCall) :
    let run := (afterRuns cfg calls).replayFor call
    (∀ n m, n ≤ m → GateMoves call.env cfg.risk (run n) (run m)) ∧
      (∀ n, RiskGate call.env cfg.risk (run 0) (run n)) ∧
      (cfg.scenario.manualKill = true → ∀ n, (run n).gateway.sends = 0 ∧
        submissions (run n).trace = []) := by
  intro run
  have hgate : ∀ n, RiskGate call.env cfg.risk (run 0) (run n) := fun n =>
    (riskGate_start rfl rfl).path (replayFor_moves cfg calls call (Nat.zero_le n))
  refine ⟨fun n m h => replayFor_moves cfg calls call h, hgate, fun hmanual n => ?_⟩
  have hoff : (run 0).risk.kill.enabled = false :=
    kill_start _ _ (by rw [(afterRuns_spec cfg calls).2]; exact hmanual)
  obtain ⟨hsends, obs, htrace, hnone⟩ := (hgate n).killed (run 0) (hgate n).moves hoff
  refine ⟨hsends, ?_⟩
  rw [htrace]
  exact hnone

/-- Under a manual kill opportunities are executed, and nothing is sent. -/
theorem run_riskGate_manualKill :
    let cfg : SimConfig := { scenario := .fromName "manual_kill" }
    ((afterRuns cfg []).replayFor crossedMarket 5).result.trades = 2 ∧
      ((afterRuns cfg []).replayFor crossedMarket 5).gateway.sends = 0 ∧
      submissions ((afterRuns cfg []).replayFor crossedMarket 5).trace = [] :=
  ⟨by decide +kernel, (run_riskGate { scenario := .fromName "manual_kill" } [] crossedMarket).2.2
    (by decide +kernel) 5⟩

end Simulator

end Hft
