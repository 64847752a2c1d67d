import HftArb.Risk.RiskEngine

/-!
# The order rate over a whole run

`RateLimiter.allow` keeps one count for each instrument and starts it again whenever the second
changes.  Seen from one instrument the limiter is a single bucket (`allowedIn_eq`), which moves along
the seconds of that instrument's calls.

A bucket that never comes back to a second admits at most `maxPerSec` calls in it.  One that comes
back counts again from zero: `admits_le` and `lt_admits` say exactly when the second then sees more.
-/

namespace Hft

open Std (ExtTreeMap LawfulEqCmp)

/-- A call of `allow`. -/
structure AllowCall where
  instrumentId : ℕ
  nowNs : ℕ
  deriving DecidableEq, Repr

namespace AllowCall

/-- The second of the call. -/
def second (c : AllowCall) : ℕ := c.nowNs / 1000000000

end AllowCall

/-- The seconds do not come back to `sec` once they left it. -/
def VisitedOnce (sec : ℕ) (secs : List ℕ) : Prop := ∀ t, t ≠ sec → ¬ [sec, t, sec].Sublist secs

namespace RateBucket

/-- The bucket moved to a second. -/
def moveTo (b : RateBucket) (sec : ℕ) : RateBucket := if b.second ≠ sec then ⟨0, sec⟩ else b

/-- One call in the second `sec`. -/
def allow (maxPerSec : ℤ) (b : RateBucket) (sec : ℕ) : Bool × RateBucket :=
  if (b.moveTo sec).count ≥ maxPerSec then (false, b.moveTo sec)
  else (true, { b.moveTo sec with count := (b.moveTo sec).count + 1 })

/-- How many of the calls in the second `s` are allowed. -/
def admits (maxPerSec : ℤ) (s : ℕ) : RateBucket → List ℕ → ℕ
  | _, [] => 0
  | b, sec :: secs =>
      (if sec = s ∧ (b.allow maxPerSec sec).1 = true then 1 else 0) +
        admits maxPerSec s (b.allow maxPerSec sec).2 secs

variable {b : RateBucket} {m : ℕ} {s sec : ℕ} {secs : List ℕ}

@[simp] theorem second_moveTo : (b.moveTo sec).second = sec := by
  unfold moveTo
  split_ifs with h
  · rfl
  · exact not_not.1 h

theorem moveTo_of_eq (h : b.second = sec) : b.moveTo sec = b := if_neg (not_not.2 h)

theorem count_moveTo_of_ne (h : b.second ≠ sec) : (b.moveTo sec).count = 0 := by
  simp [moveTo, h]

/-- A call is allowed while the count of its second is below the limit. -/
theorem allow_of_lt (h : (b.moveTo sec).count < m) :
    b.allow m sec = (true, ⟨(b.moveTo sec).count + 1, sec⟩) := by
  rw [allow, if_neg (not_le.2 h)]
  simp

theorem allow_of_le (h : (m : ℤ) ≤ (b.moveTo sec).count) :
    b.allow m sec = (false, b.moveTo sec) := if_pos h

@[simp] theorem second_allow : (b.allow m sec).2.second = sec := by
  unfold allow
  split_ifs <;> exact second_moveTo

/-! ### One call -/

/-- A call in another second moves the bucket away and counts for nothing. -/
theorem admits_cons_of_ne (hsec : sec ≠ s) :
    admits m s b (sec :: secs) = admits m s (b.allow m sec).2 secs := by
  rw [admits, if_neg fun hc => hsec hc.1, Nat.zero_add]

/-- A bucket that has moved away starts again from zero. -/
theorem count_allow_of_ne (hsec : sec ≠ s) : ((b.allow m sec).2.moveTo s).count = 0 :=
  count_moveTo_of_ne (by rw [second_allow]; exact hsec)

theorem admits_cons_of_lt (h : (b.moveTo s).count < m) :
    admits m s b (s :: secs) = admits m s ⟨(b.moveTo s).count + 1, s⟩ secs + 1 := by
  rw [admits, allow_of_lt h, if_pos ⟨rfl, rfl⟩, Nat.add_comm]

theorem admits_cons_of_le (h : (m : ℤ) ≤ (b.moveTo s).count) :
    admits m s b (s :: secs) = admits m s (b.moveTo s) secs := by
  rw [admits, allow_of_le h, if_neg (by simp), Nat.zero_add]

/-! ### Seconds that are visited once -/

/-- After the bucket has left `s` for good nothing is admitted there. -/
theorem admits_eq_zero (h : s ∉ secs) : admits m s b secs = 0 := by
  induction secs generalizing b with
  | nil => rfl
  | cons sec secs ih =>
    rw [List.mem_cons, not_or] at h
    rw [admits_cons_of_ne (Ne.symm h.1), ih h.2]

/-- While the bucket stays in `s`, the count bounds what is still admitted. -/
theorem admits_add_count_le (hb : b.second = s) (hcount : b.count ≤ m)
    (hstay : ∀ t, t ≠ s → ¬ [t, s].Sublist secs) : admits m s b secs + b.count ≤ m := by
  have hmove : b.moveTo s = b := moveTo_of_eq hb
  induction secs generalizing b with
  | nil => simpa [admits] using hcount
  | cons sec secs ih =>
    have hrest : ∀ t, t ≠ s → ¬ [t, s].Sublist secs := fun t ht hsub =>
      hstay t ht (hsub.cons sec)
    by_cases hsec : sec = s
    · subst hsec
      -- below the limit a call is admitted and counted, at the limit it is neither
      rcases lt_or_ge b.count m with hlt | hge
      · have hle := ih (b := ⟨b.count + 1, sec⟩) rfl (by dsimp only; omega) hrest
          (moveTo_of_eq rfl)
        rw [admits_cons_of_lt (hmove.symm ▸ hlt), hmove]
        dsimp only at hle
        push_cast
        omega
      · rw [admits_cons_of_le (hmove.symm ▸ hge), hmove]
        exact ih hb hcount hrest hmove
    · -- the bucket leaves the second: nothing of it may follow
      have hgone : s ∉ secs := fun hmem =>
        hstay sec hsec (List.cons_sublist_cons.2 (List.singleton_sublist.2 hmem))
      rw [admits_cons_of_ne hsec, admits_eq_zero hgone]
      simpa using hcount

/-- A second that is never visited again after it was left sees at most `m` calls. -/
theorem admits_le (hfresh : (b.moveTo s).count = 0) (honce : VisitedOnce s secs) :
    admits m s b secs ≤ m := by
  induction secs generalizing b with
  | nil => exact Nat.zero_le m
  | cons sec secs ih =>
    by_cases hsec : sec = s
    · subst hsec
      have hrest : ∀ t, t ≠ sec → ¬ [t, sec].Sublist secs := fun t ht hsub =>
        honce t ht (List.cons_sublist_cons.2 hsub)
      rcases Nat.eq_zero_or_pos m with rfl | hpos
      · have hle := admits_add_count_le (m := 0) (b := b.moveTo sec) second_moveTo
          (by rw [hfresh]; rfl) hrest
        rw [admits_cons_of_le (by rw [hfresh]; rfl)]
        rw [hfresh] at hle
        simpa using hle
      · have hle := admits_add_count_le (m := m) (b := ⟨(b.moveTo sec).count + 1, sec⟩) rfl
          (by rw [hfresh]; dsimp only; omega) hrest
        rw [admits_cons_of_lt (by rw [hfresh]; omega)]
        rw [hfresh] at hle ⊢
        dsimp only at hle
        omega
    · have hrest : VisitedOnce s secs := fun t ht hsub => honce t ht (hsub.cons sec)
      rw [admits_cons_of_ne hsec]
      exact ih (count_allow_of_ne hsec) hrest

/-- No more calls are admitted than are made. -/
theorem admits_le_count : admits m s b secs ≤ secs.count s := by
  induction secs generalizing b with
  | nil => exact le_rfl
  | cons sec secs ih =>
    have hle := ih (b := (b.allow m sec).2)
    rw [admits, List.count_cons]
    by_cases hsec : sec = s
    · subst hsec
      rw [beq_self_eq_true, if_pos rfl]
      split_ifs <;> omega
    · rw [if_neg fun hc => hsec hc.1]
      omega

/-! ### Seconds that are visited again -/

/-- A second admits all its calls, or as many as the limit leaves. -/
theorem min_le_admits (h0 : 0 ≤ (b.moveTo s).count) (hcount : (b.moveTo s).count ≤ m) :
    min ((m : ℤ) - (b.moveTo s).count) (secs.count s) ≤ admits m s b secs := by
  induction secs generalizing b with
  | nil =>
    rw [List.count_nil]
    exact min_le_right _ _
  | cons sec secs ih =>
    by_cases hsec : sec = s
    · subst hsec
      rw [List.count_cons_self]
      rcases lt_or_ge (b.moveTo sec).count m with hlt | hge
      · have hmove : (⟨(b.moveTo sec).count + 1, sec⟩ : RateBucket).moveTo sec =
            ⟨(b.moveTo sec).count + 1, sec⟩ := moveTo_of_eq rfl
        have hle := ih (b := ⟨(b.moveTo sec).count + 1, sec⟩) (by rw [hmove]; dsimp only; omega)
          (by rw [hmove]; dsimp only; omega)
        rw [hmove] at hle
        rw [admits_cons_of_lt hlt]
        dsimp only at hle
        push_cast
        omega
      · have hmove : (b.moveTo sec).moveTo sec = b.moveTo sec := moveTo_of_eq second_moveTo
        have hle := ih (b := b.moveTo sec) (by rw [hmove]; exact h0) (by rw [hmove]; exact hcount)
        rw [hmove] at hle
        rw [admits_cons_of_le hge]
        push_cast
        omega
    · -- the bucket leaves `s`, and starts again from zero when it comes back
      have hnext := count_allow_of_ne (m := m) (b := b) hsec
      have hle := ih (b := (b.allow m sec).2) hnext.ge (by rw [hnext]; omega)
      rw [hnext] at hle
      rw [admits_cons_of_ne hsec, List.count_cons_of_ne hsec]
      omega

/-- A bucket in `s` that leaves it and comes back admits more than the limit, if it is called more
often than that. -/
theorem lt_admits_add_count (hb : b.second = s) (hcount : 0 < b.count) (hle : b.count ≤ m) {t : ℕ}
    (ht : t ≠ s) (hback : [t, s].Sublist secs) (hcalls : (m : ℤ) < secs.count s + b.count) :
    (m : ℤ) < admits m s b secs + b.count := by
  have hmove : b.moveTo s = b := moveTo_of_eq hb
  induction secs generalizing b with
  | nil => cases hback
  | cons sec secs ih =>
    by_cases hsec : sec = s
    · subst hsec
      have hback' : [t, sec].Sublist secs := by
        rcases List.sublist_cons_iff.1 hback with h | ⟨r, hr, -⟩
        · exact h
        · exact absurd (List.cons.inj hr).1 ht
      have hmem : 0 < secs.count sec :=
        List.count_pos_iff.2 (hback'.subset (by simp))
      rw [List.count_cons_self] at hcalls
      push_cast at hcalls
      rcases hle.lt_or_eq with hlt | heq
      · have hstep := ih (b := ⟨b.count + 1, sec⟩) rfl (by dsimp only; omega)
          (by dsimp only; omega) hback' (by dsimp only; omega) (moveTo_of_eq rfl)
        rw [admits_cons_of_lt (hmove.symm ▸ hlt), hmove]
        dsimp only at hstep
        push_cast
        omega
      · rw [admits_cons_of_le (hmove.symm ▸ heq.ge), hmove]
        exact ih hb hcount hle hback' (by omega) hmove
    · -- the bucket leaves `s`; what follows of `s` is counted from zero
      have hmem : 0 < secs.count s := by
        refine List.count_pos_iff.2 ?_
        rcases List.mem_cons.1 (hback.subset (show s ∈ [t, s] by simp)) with h | h
        · exact absurd h.symm hsec
        · exact h
      have hnext := count_allow_of_ne (m := m) (b := b) hsec
      have hmin := @min_le_admits _ m _ secs hnext.ge (by rw [hnext]; omega)
      rw [hnext] at hmin
      rw [List.count_cons_of_ne hsec] at hcalls
      rw [admits_cons_of_ne hsec]
      omega

/-- A second that is left, visited again and called more than `m` times sees more than `m`. -/
theorem lt_admits (hm : 0 < m) (hfresh : (b.moveTo s).count = 0) {t : ℕ} (ht : t ≠ s)
    (hback : [s, t, s].Sublist secs) (hcalls : m < secs.count s) : m < admits m s b secs := by
  induction secs generalizing b with
  | nil => cases hback
  | cons sec secs ih =>
    by_cases hsec : sec = s
    · -- the first visit of `s`: from here on the bucket is in `s` with a count of one
      subst hsec
      have hback' : [t, sec].Sublist secs := by
        rcases List.sublist_cons_iff.1 hback with h | ⟨r, hr, hsub⟩
        · exact (List.sublist_cons_self _ _).trans h
        · rwa [(List.cons.inj hr).2]
      rw [List.count_cons_self] at hcalls
      have hstep := lt_admits_add_count (m := m) (b := ⟨(b.moveTo sec).count + 1, sec⟩) rfl
        (by rw [hfresh]; dsimp only; omega) (by rw [hfresh]; dsimp only; omega) ht hback'
        (by rw [hfresh]; dsimp only; omega)
      rw [admits_cons_of_lt (by rw [hfresh]; omega)]
      rw [hfresh] at hstep ⊢
      dsimp only at hstep
      omega
    · have hback' : [s, t, s].Sublist secs := by
        rcases List.sublist_cons_iff.1 hback with h | ⟨r, hr, -⟩
        · exact h
        · exact absurd (List.cons.inj hr).1.symm hsec
      rw [List.count_cons_of_ne hsec] at hcalls
      rw [admits_cons_of_ne hsec]
      exact ih (count_allow_of_ne hsec) hback' hcalls

/-- The limit zero admits nothing. -/
theorem admits_zero (hfresh : (b.moveTo s).count = 0) : admits (0 : ℕ) s b secs = 0 := by
  induction secs generalizing b with
  | nil => rfl
  | cons sec secs ih =>
    by_cases hsec : sec = s
    · subst hsec
      have hmove : (b.moveTo sec).moveTo sec = b.moveTo sec := moveTo_of_eq second_moveTo
      rw [admits_cons_of_le (by rw [hfresh]; rfl)]
      exact ih (by rw [hmove]; exact hfresh)
    · rw [admits_cons_of_ne hsec]
      exact ih (count_allow_of_ne hsec)

/-- **When a second keeps to the limit**: exactly when the limit is zero, the second is not visited
again once it was left, or it has no more calls than the limit. -/
theorem admits_le_iff (hfresh : (b.moveTo s).count = 0) : admits m s b secs ≤ m ↔
    m = 0 ∨ VisitedOnce s secs ∨ secs.count s ≤ m := by
  constructor
  · intro hle
    by_contra hnot
    unfold VisitedOnce at hnot
    push Not at hnot
    obtain ⟨hm, ⟨t, ht, hback⟩, hcalls⟩ := hnot
    exact absurd hle (not_le.2 (lt_admits (Nat.pos_of_ne_zero hm) hfresh ht hback hcalls))
  · rintro (rfl | honce | hcalls)
    · exact (admits_zero hfresh).le
    · exact admits_le hfresh honce
    · exact admits_le_count.trans hcalls

end RateBucket

namespace RateLimiter

/-- The answers to a sequence of calls. -/
def answers : RateLimiter → List AllowCall → List Bool
  | _, [] => []
  | l, c :: calls =>
      (l.allow c.instrumentId c.nowNs).1 :: answers (l.allow c.instrumentId c.nowNs).2 calls

/-- The calls, each with its answer. -/
def answered (l : RateLimiter) (calls : List AllowCall) : List (AllowCall × Bool) :=
  calls.zip (l.answers calls)

/-- How many calls of an instrument in the second `sec` are allowed. -/
def allowedIn (l : RateLimiter) (calls : List AllowCall) (instrumentId sec : ℕ) : ℕ :=
  (l.answered calls).countP fun e =>
    e.1.instrumentId = instrumentId ∧ e.1.second = sec ∧ e.2 = true

/-- The seconds of the calls of an instrument, in their order. -/
def seconds (calls : List AllowCall) (instrumentId : ℕ) : List ℕ :=
  (calls.filter fun c => c.instrumentId = instrumentId).map AllowCall.second

/-- The bucket of an instrument. -/
def bucketOf (l : RateLimiter) (instrumentId : ℕ) : RateBucket :=
  (l.buckets[instrumentId]?).getD {}

variable {l l' : RateLimiter} {i i' nowNs : ℕ} {calls : List AllowCall}

/-! ### One call -/

theorem allow_eq (l : RateLimiter) (i nowNs : ℕ) :
    l.allow i nowNs =
      (((l.bucketOf i).allow l.maxPerSec (nowNs / 1000000000)).1,
        ⟨l.maxPerSec, l.buckets.insert i
          ((l.bucketOf i).allow l.maxPerSec (nowNs / 1000000000)).2⟩) := by
  unfold allow RateBucket.allow
  have hbucket : l.bucket i nowNs = (l.bucketOf i).moveTo (nowNs / 1000000000) := rfl
  rw [hbucket]
  dsimp only
  split_ifs <;> rfl

@[simp] theorem maxPerSec_allow : (l.allow i nowNs).2.maxPerSec = l.maxPerSec := by
  rw [allow_eq]

theorem bucketOf_allow : (l.allow i nowNs).2.bucketOf i' =
    if i = i' then ((l.bucketOf i).allow l.maxPerSec (nowNs / 1000000000)).2
    else l.bucketOf i' := by
  rw [allow_eq]
  simp only [bucketOf, ExtTreeMap.getElem?_insert, LawfulEqCmp.compare_eq_iff_eq]
  split_ifs <;> rfl

/-! ### Runs -/

/-- What is allowed of one instrument is what its bucket admits along its own calls. -/
theorem allowedIn_eq (l : RateLimiter) (calls : List AllowCall) (i s : ℕ) :
    l.allowedIn calls i s = (l.bucketOf i).admits l.maxPerSec s (seconds calls i) := by
  induction calls generalizing l with
  | nil => rfl
  | cons c calls ih =>
    have hcons : l.allowedIn (c :: calls) i s =
        (if c.instrumentId = i ∧ c.second = s ∧ (l.allow c.instrumentId c.nowNs).1 = true then 1
          else 0) + (l.allow c.instrumentId c.nowNs).2.allowedIn calls i s := by
      simp only [allowedIn, answered, answers, List.zip_cons_cons, List.countP_cons,
        decide_eq_true_eq]
      omega
    rw [hcons, ih, maxPerSec_allow, bucketOf_allow]
    by_cases hi : c.instrumentId = i
    · have hseconds : seconds (c :: calls) i = c.second :: seconds calls i := by
        simp [seconds, hi]
      rw [hseconds, if_pos hi, RateBucket.admits, allow_eq, hi]
      simp only [true_and]
      rfl
    · have hseconds : seconds (c :: calls) i = seconds calls i := by simp [seconds, hi]
      rw [hseconds, if_neg hi, if_neg fun hc => hi hc.1, Nat.zero_add]

/-- The answers to the calls of one instrument. -/
def answersOf (l : RateLimiter) (calls : List AllowCall) (instrumentId : ℕ) : List Bool :=
  ((l.answered calls).filter fun e => e.1.instrumentId = instrumentId).map Prod.snd

/-- Two limiters with the same bucket for an instrument answer its calls alike, whatever calls of
other instruments the first one gets in between. -/
theorem answersOf_eq (hmax : l.maxPerSec = l'.maxPerSec) (hbucket : l.bucketOf i = l'.bucketOf i)
    (calls : List AllowCall) :
    l.answersOf calls i = l'.answers (calls.filter fun c => c.instrumentId = i) := by
  induction calls generalizing l l' with
  | nil => rfl
  | cons c calls ih =>
    have hcons : l.answersOf (c :: calls) i =
        if c.instrumentId = i then (l.allow c.instrumentId c.nowNs).1 ::
          (l.allow c.instrumentId c.nowNs).2.answersOf calls i
        else (l.allow c.instrumentId c.nowNs).2.answersOf calls i := by
      simp only [answersOf, answered, answers, List.zip_cons_cons, List.filter_cons,
        decide_eq_true_eq]
      split_ifs <;> rfl
    rw [hcons, List.filter_cons]
    simp only [decide_eq_true_eq]
    split_ifs with hi
    · have hanswer : (l.allow c.instrumentId c.nowNs).1 = (l'.allow c.instrumentId c.nowNs).1 := by
        rw [allow_eq, allow_eq, hi, hmax, hbucket]
      have hnext : (l.allow c.instrumentId c.nowNs).2.bucketOf i =
          (l'.allow c.instrumentId c.nowNs).2.bucketOf i := by
        rw [bucketOf_allow, bucketOf_allow, if_pos hi, if_pos hi, hi, hmax, hbucket]
      rw [answers, hanswer, ih (by simp [hmax]) hnext]
    · exact ih (by simp [hmax]) (by rw [bucketOf_allow, if_neg hi]; exact hbucket)

/-- At most `m` calls are allowed of any instrument in any second, and no instrument's answers
depend on the calls of another. -/
structure Throttles (m : ℕ) (calls : List AllowCall) : Prop where
  rate : ∀ instrumentId sec, allowedIn { maxPerSec := m } calls instrumentId sec ≤ m
  isolated : ∀ instrumentId, answersOf { maxPerSec := m } calls instrumentId =
    answers { maxPerSec := m } (calls.filter fun c => c.instrumentId = instrumentId)

/-- **When the throttle holds.**  In a sequence of calls with any instruments and times, every
instrument keeps to the limit in every second exactly when the limit is zero, or the clock of that
instrument does not come back to the second, or it has no more calls there than the limit. -/
theorem throttles_iff (m : ℕ) (calls : List AllowCall) : Throttles m calls ↔
    ∀ instrumentId sec, m = 0 ∨ VisitedOnce sec (seconds calls instrumentId) ∨
      (seconds calls instrumentId).count sec ≤ m := by
  have hfresh : ∀ i s, ((({ maxPerSec := m } : RateLimiter).bucketOf i).moveTo s).count = 0 := by
    intro i s
    have hempty : ({ maxPerSec := m } : RateLimiter).bucketOf i = {} := by simp [bucketOf]
    rw [hempty]
    unfold RateBucket.moveTo
    split_ifs <;> rfl
  have hrate : (∀ i s, allowedIn { maxPerSec := m } calls i s ≤ m) ↔
      ∀ i s, m = 0 ∨ VisitedOnce s (seconds calls i) ∨ (seconds calls i).count s ≤ m := by
    refine forall_congr' fun i => forall_congr' fun s => ?_
    rw [allowedIn_eq]
    exact RateBucket.admits_le_iff (hfresh i s)
  rw [← hrate]
  exact ⟨Throttles.rate, fun h => ⟨h, fun i => answersOf_eq rfl rfl calls⟩⟩

/-- One order a second: the clock goes from second 1 to second 2 and back. -/
def backAndForth : List AllowCall :=
  [⟨1, 1000000000⟩, ⟨1, 2000000000⟩, ⟨1, 1000000001⟩]

/-- Second 1 sees two orders. -/
theorem not_throttles_backAndForth : ¬ Throttles 1 backAndForth := by
  intro h
  exact absurd (h.rate 1 1) (by decide +kernel)

end RateLimiter

end Hft
