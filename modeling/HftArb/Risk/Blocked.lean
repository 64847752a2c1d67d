import HftArb.Risk.Throttle

/-!
# Blocked orders leave no trace

A check that a static rule blocks does not touch the engine.  One that the order rate blocks has
moved the bucket of its instrument first.  With a positive limit it finds the bucket full, so the
bucket already was in the second of the call; with a limit of zero or less no call is ever allowed
(`RateBucket.allow_blocked`, `RateBucket.allow_of_nonpos`).  So engines that differ in blocked
checks only (`RiskEngine.Alike`) answer alike.
-/

namespace Hft

namespace RateBucket

variable {b : RateBucket} {limit : ℤ} {sec : ℕ}

/-- A call blocked by a positive limit leaves the bucket as it was. -/
theorem allow_blocked (hmax : 0 < limit) (h : (b.allow limit sec).1 = false) :
    (b.allow limit sec).2 = b := by
  unfold allow at h ⊢
  split_ifs at h ⊢ with hfull
  -- a bucket that has just moved counts nothing, so a full one was in the second already
  by_cases hsec : b.second = sec
  · exact moveTo_of_eq hsec
  · rw [count_moveTo_of_ne hsec] at hfull
    omega

theorem count_moveTo_nonneg (h : 0 ≤ b.count) : 0 ≤ (b.moveTo sec).count := by
  unfold moveTo
  split_ifs
  · exact le_rfl
  · exact h

/-- Without a positive limit every call is blocked. -/
theorem allow_of_nonpos (hmax : limit ≤ 0) (h : 0 ≤ b.count) :
    b.allow limit sec = (false, b.moveTo sec) :=
  if_pos (hmax.trans (count_moveTo_nonneg h))

end RateBucket

namespace RateLimiter

/-- Two limiters that answer every sequence of calls alike. -/
structure Alike (l l' : RateLimiter) : Prop where
  maxPerSec : l.maxPerSec = l'.maxPerSec
  same : 0 < l.maxPerSec → ∀ i, l.bucketOf i = l'.bucketOf i
  counts : l.maxPerSec ≤ 0 → ∀ i, 0 ≤ (l.bucketOf i).count ∧ 0 ≤ (l'.bucketOf i).count

variable {l l' : RateLimiter} {i nowNs : ℕ}

theorem Alike.new (limit : ℤ) : Alike { maxPerSec := limit } { maxPerSec := limit } := by
  refine ⟨rfl, fun _ _ => rfl, fun _ i => ?_⟩
  have hempty : ({ maxPerSec := limit } : RateLimiter).bucketOf i = {} := by simp [bucketOf]
  rw [hempty]
  exact ⟨le_rfl, le_rfl⟩

/-- The buckets after a call that no positive limit allows. -/
theorem count_bucketOf_allow (hmax : l.maxPerSec ≤ 0) (h : ∀ i, 0 ≤ (l.bucketOf i).count)
    (i' : ℕ) : 0 ≤ ((l.allow i nowNs).2.bucketOf i').count := by
  rw [bucketOf_allow]
  split_ifs
  · rw [RateBucket.allow_of_nonpos hmax (h i)]
    exact RateBucket.count_moveTo_nonneg (h i)
  · exact h i'

theorem Alike.allow (h : Alike l l') (i nowNs : ℕ) :
    (l.allow i nowNs).1 = (l'.allow i nowNs).1 ∧
      Alike (l.allow i nowNs).2 (l'.allow i nowNs).2 := by
  rcases lt_or_ge 0 l.maxPerSec with hpos | hnonpos
  · have hsame := h.same hpos
    refine ⟨?_, ?_, ?_, ?_⟩
    · rw [allow_eq, allow_eq, h.maxPerSec, hsame]
    · rw [maxPerSec_allow, maxPerSec_allow, h.maxPerSec]
    · intro _ i'
      rw [bucketOf_allow, bucketOf_allow, h.maxPerSec, hsame, hsame]
    · intro hle
      rw [maxPerSec_allow] at hle
      omega
  · have hcounts := h.counts hnonpos
    have hnonpos' : l'.maxPerSec ≤ 0 := h.maxPerSec ▸ hnonpos
    refine ⟨?_, ?_, ?_, ?_⟩
    · rw [allow_eq, allow_eq, RateBucket.allow_of_nonpos hnonpos (hcounts i).1,
        RateBucket.allow_of_nonpos hnonpos' (hcounts i).2]
    · rw [maxPerSec_allow, maxPerSec_allow, h.maxPerSec]
    · intro hpos
      rw [maxPerSec_allow] at hpos
      omega
    · intro _ i'
      exact ⟨count_bucketOf_allow hnonpos (fun j => (hcounts j).1) i',
        count_bucketOf_allow hnonpos' (fun j => (hcounts j).2) i'⟩

/-- A blocked call makes no difference. -/
theorem Alike.blocked (h : Alike l l') (hblock : (l.allow i nowNs).1 = false) :
    Alike (l.allow i nowNs).2 l' := by
  refine ⟨maxPerSec_allow.trans h.maxPerSec, ?_, ?_⟩
  · intro hpos i'
    rw [maxPerSec_allow] at hpos
    rw [allow_eq] at hblock
    rw [bucketOf_allow]
    split_ifs with hi
    · rw [RateBucket.allow_blocked hpos hblock, hi, h.same hpos]
    · exact h.same hpos i'
  · intro hnonpos i'
    rw [maxPerSec_allow] at hnonpos
    have hcounts := h.counts hnonpos
    exact ⟨count_bucketOf_allow hnonpos (fun j => (hcounts j).1) i', (hcounts i').2⟩

end RateLimiter

/-- A call of `check_order`, with the kill switch and the positions it finds. -/
structure CheckCall where
  kill : KillSwitch
  positions : PositionBook
  intent : OrderIntent
  quote : BestQuote
  nowNs : ℕ

namespace RiskEngine

/-- Make one call. -/
def check (e : RiskEngine) (c : CheckCall) : RiskDecision × RiskEngine :=
  ({ e with kill := c.kill } : RiskEngine).checkOrder c.positions c.intent c.quote c.nowNs

/-- The calls of a sequence, each with its decision. -/
def checked : RiskEngine → List CheckCall → List (CheckCall × RiskDecision)
  | _, [] => []
  | e, c :: calls => (c, (e.check c).1) :: checked (e.check c).2 calls

/-- Some of the blocked calls are left out. -/
inductive LeavesOut : List (CheckCall × RiskDecision) → List (CheckCall × RiskDecision) → Prop
  | nil : LeavesOut [] []
  | keep (e : CheckCall × RiskDecision) {l l' : List (CheckCall × RiskDecision)}
      (h : LeavesOut l l') : LeavesOut (e :: l) (e :: l')
  | leave {e : CheckCall × RiskDecision} {l l' : List (CheckCall × RiskDecision)}
      (hblock : e.2.approved = false) (h : LeavesOut l l') : LeavesOut (e :: l) l'

/-- Two engines that decide every sequence of calls alike. -/
structure Alike (e e' : RiskEngine) : Prop where
  cfg : e.cfg = e'.cfg
  limiter : e.limiter.Alike e'.limiter

variable {e e' : RiskEngine} {c : CheckCall} {calls : List CheckCall}

/-- A call is decided by the static rules, or by the order rate. -/
theorem check_cases (e : RiskEngine) (c : CheckCall) :
    (∃ rd, ({ e with kill := c.kill } : RiskEngine).staticBlock id c.positions c.intent c.quote =
        some rd ∧ e.check c = (rd, { e with kill := c.kill })) ∨
      (({ e with kill := c.kill } : RiskEngine).staticBlock id c.positions c.intent c.quote = none ∧
        e.check c = (if (e.limiter.allow c.intent.instrumentId c.nowNs).1 then .approve
            else .block "ORDER_RATE" "order rate exceeded",
          ⟨e.cfg, (e.limiter.allow c.intent.instrumentId c.nowNs).2, c.kill⟩)) := by
  unfold check checkOrder checkOrderIn
  cases ({ e with kill := c.kill } : RiskEngine).staticBlock id c.positions c.intent c.quote with
  | some rd => exact Or.inl ⟨rd, rfl, rfl⟩
  | none =>
    refine Or.inr ⟨rfl, ?_⟩
    dsimp only
    split_ifs <;> rfl

/-- The static rules read the limits and the kill switch only. -/
theorem staticBlock_congr (hcfg : e.cfg = e'.cfg) (kill : KillSwitch) (positions : PositionBook)
    (o : OrderIntent) (q : BestQuote) :
    ({ e with kill := kill } : RiskEngine).staticBlock id positions o q =
      ({ e' with kill := kill } : RiskEngine).staticBlock id positions o q := by
  unfold staticBlock
  dsimp only
  rw [hcfg]

theorem Alike.check (h : Alike e e') (c : CheckCall) :
    (e.check c).1 = (e'.check c).1 ∧ Alike (e.check c).2 (e'.check c).2 := by
  have hstatic := staticBlock_congr h.cfg c.kill c.positions c.intent c.quote
  rcases e.check_cases c with ⟨rd, hrd, heq⟩ | ⟨hnone, heq⟩
  · rcases e'.check_cases c with ⟨rd', hrd', heq'⟩ | ⟨hnone', -⟩
    · rw [← hstatic, hrd] at hrd'
      cases hrd'
      rw [heq, heq']
      exact ⟨rfl, h.cfg, h.limiter⟩
    · rw [← hstatic, hrd] at hnone'
      cases hnone'
  · rcases e'.check_cases c with ⟨rd', hrd', -⟩ | ⟨-, heq'⟩
    · rw [← hstatic, hnone] at hrd'
      cases hrd'
    · obtain ⟨hanswer, hlimiter⟩ := h.limiter.allow c.intent.instrumentId c.nowNs
      rw [heq, heq', hanswer]
      exact ⟨rfl, h.cfg, hlimiter⟩

/-- A blocked check makes no difference, whatever rule blocked it. -/
theorem Alike.blocked (h : Alike e e') (hblock : (e.check c).1.approved = false) :
    Alike (e.check c).2 e' := by
  rcases e.check_cases c with ⟨rd, -, heq⟩ | ⟨-, heq⟩
  · rw [heq]
    exact ⟨h.cfg, h.limiter⟩
  · have hrate : (e.limiter.allow c.intent.instrumentId c.nowNs).1 = false := by
      rw [heq] at hblock
      by_contra hallow
      rw [Bool.not_eq_false] at hallow
      rw [hallow] at hblock
      cases hblock
    rw [heq]
    exact ⟨h.cfg, h.limiter.blocked hrate⟩

/-- What is left of the calls is decided as before. -/
theorem Alike.checked_leavesOut {kept : List (CheckCall × RiskDecision)} (h : Alike e e')
    (hkept : LeavesOut (e.checked calls) kept) : e'.checked (kept.map Prod.fst) = kept := by
  induction calls generalizing e e' kept with
  | nil =>
    cases hkept
    rfl
  | cons c calls ih =>
    cases hkept with
    | keep _ hrest =>
      obtain ⟨hanswer, hnext⟩ := h.check c
      rw [List.map_cons, checked, ih hnext hrest, ← hanswer]
    | leave hblock hrest => exact ih (h.blocked hblock) hrest

/-- **Blocked orders leave no trace.**  If any of the blocked calls are left out of a sequence of
checks, every other call is decided as before. -/
theorem checked_of_leavesOut (cfg : RiskConfig) (calls : List CheckCall)
    (kept : List (CheckCall × RiskDecision)) (h : LeavesOut ((new cfg).checked calls) kept) :
    (new cfg).checked (kept.map Prod.fst) = kept :=
  Alike.checked_leavesOut ⟨rfl, .new cfg.maxOrdersPerSec⟩ h

/-- An order to buy ten, at some time. -/
def tenAt (nowNs : ℕ) : CheckCall where
  kill := {}
  positions := {}
  intent :=
    { parentArbId := "SIM-ARB-1-1", instrumentId := 1, venue := .nse, side := .buy,
      role := .alphaBuy, pricePaise := 100, qty := 10 }
  quote := ⟨.nse, 1, 99, 10, 100, 10, 0⟩
  nowNs := nowNs

/-- One order a second: the second one is blocked, and the third is decided as without it. -/
theorem checked_of_leavesOut_rate :
    ((new { maxOrdersPerSec := 1 }).checked [tenAt 5, tenAt 6, tenAt 1000000000]).map
        (fun e => e.2.approved) = [true, false, true] ∧
      (new { maxOrdersPerSec := 1 }).checked [tenAt 5, tenAt 1000000000] =
        [(tenAt 5, .approve), (tenAt 1000000000, .approve)] := by
  have hchecked : (new { maxOrdersPerSec := 1 }).checked [tenAt 5, tenAt 6, tenAt 1000000000] =
      [(tenAt 5, .approve), (tenAt 6, .block "ORDER_RATE" "order rate exceeded"),
        (tenAt 1000000000, .approve)] := by
    have hverdicts : ((new { maxOrdersPerSec := 1 }).checked
        [tenAt 5, tenAt 6, tenAt 1000000000]).map Prod.snd =
          [.approve, .block "ORDER_RATE" "order rate exceeded", .approve] := by
      decide +kernel
    simp only [checked, List.map_cons, List.map_nil, List.cons.injEq] at hverdicts
    obtain ⟨h₁, h₂, h₃, -⟩ := hverdicts
    simp only [checked, h₁, h₂, h₃]
  refine ⟨by rw [hchecked]; rfl, ?_⟩
  exact checked_of_leavesOut { maxOrdersPerSec := 1 } [tenAt 5, tenAt 6, tenAt 1000000000]
    [(tenAt 5, .approve), (tenAt 1000000000, .approve)]
    (hchecked ▸ .keep _ (.leave rfl (.keep _ .nil)))

end RiskEngine

end Hft
