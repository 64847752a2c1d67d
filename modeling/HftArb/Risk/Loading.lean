import HftArb.Common.Numerals
import HftArb.Risk.RiskEngine

/-!
# `common/config` and `RiskConfig::load`: limits from a file

A configuration file is a list of lines `key: value`, of which the last one of a key counts
(`keyValues_eq`).  Every limit is parsed as a 64-bit number, which falls back to the default when
the text denotes none, and then cast to the type of the limit.  The cast does not fall back: a
number that fits in 64 bits but not in the limit's type wraps, and `limit_loaded_iff` says for which
numbers the limit is still the one written, or the default.
-/

namespace Hft

open MachineInt

/-! ### Files of keys and values -/

/-- The key and the value of a line, if it has any. -/
def entryOf (line : Bytes) : Option (Bytes × Bytes) :=
  let line := trim (line.takeWhile fun c => c ≠ '#')
  if line = [] then none
  else match line.dropWhile fun c => c ≠ ':' with
    | [] => none
    | _ :: value => some (trim (line.takeWhile fun c => c ≠ ':'), trim value)

/-- The map that `read_key_value_file` builds; it is only looked up. -/
abbrev KeyValues := Bytes → Option Bytes

/-- `kv[key] = val` for a line with a key and a value. -/
def KeyValues.addLine (kv : KeyValues) (line : Bytes) : KeyValues :=
  match entryOf line with
  | none => kv
  | some (key, value) => Function.update kv key (some value)

/-- `read_key_value_file`, of the text of the file at `path`. -/
def readKeyValueFile (path : Bytes) : Option Bytes → Except Bytes KeyValues
  | none => .error ("cannot open config file: ".toList ++ path)
  | some text => .ok ((linesOf text).foldl KeyValues.addLine fun _ => none)

/-- The value of the last line with the key. -/
def lastValue (text key : Bytes) : Option Bytes :=
  (((linesOf text).filterMap entryOf).reverse.find? fun e => e.1 = key).map Prod.snd

/-- **The last line of a key counts.** -/
theorem keyValues_eq (path text : Bytes) :
    readKeyValueFile path (some text) = .ok (lastValue text) := by
  have hloop : ∀ (lines : List Bytes) (kv : KeyValues) (key : Bytes),
      lines.foldl KeyValues.addLine kv key =
        (((lines.filterMap entryOf).reverse.find? fun e => e.1 = key).map Prod.snd).or
          (kv key) := by
    intro lines
    induction lines with
    | nil => intro kv key; rfl
    | cons line lines ih =>
      intro kv key
      rw [List.foldl_cons, ih, KeyValues.addLine]
      cases hentry : entryOf line with
      | none => rw [List.filterMap_cons_none hentry]
      | some e =>
        rw [List.filterMap_cons_some hentry, List.reverse_cons, List.find?_append, Option.map_or,
          Option.or_assoc]
        congr 1
        by_cases hkey : e.1 = key
        · simp [hkey]
        · simp [hkey, Function.update_of_ne (Ne.symm hkey)]
  rw [readKeyValueFile]
  refine congrArg Except.ok (funext fun key => ?_)
  rw [hloop, Option.or_none]
  rfl

/-! ### `SimpleConfig` -/

/-- `parse_bool`. -/
def parseBool (s : Bytes) (defaultValue : Bool) : Bool :=
  let v := upper (trim s)
  if v = "TRUE".toList ∨ v = "YES".toList ∨ v = "1".toList then true
  else if v = "FALSE".toList ∨ v = "NO".toList ∨ v = "0".toList then false
  else defaultValue

/-- `static_cast<int>`. -/
def castInt (x : ℤ) : ℤ := Int.bmod x (2 ^ 32)

/-- `static_cast<uint32_t>` of a signed number. -/
def castUint32 (x : ℤ) : ℕ := (x % 2 ^ 32).toNat

/-- `static_cast<uint64_t>` of a signed number. -/
def castUint64 (x : ℤ) : ℕ := (x % 2 ^ 64).toNat

namespace KeyValues

/-- `get_i64`. -/
def getI64 (kv : KeyValues) (key : String) (defaultValue : ℤ) : ℤ :=
  match kv key.toList with
  | none => defaultValue
  | some s => parseI64 s defaultValue

/-- `get_int`. -/
def getInt (kv : KeyValues) (key : String) (defaultValue : ℤ) : ℤ :=
  match kv key.toList with
  | none => defaultValue
  | some s => castInt (parseI64 s defaultValue)

/-- `get_bool`. -/
def getBool (kv : KeyValues) (key : String) (defaultValue : Bool) : Bool :=
  match kv key.toList with
  | none => defaultValue
  | some s => parseBool s defaultValue

end KeyValues

/-! ### `RiskConfig` -/

/-- `struct RiskConfig`, with the two limits that no check reads. -/
structure LoadedRiskConfig extends RiskConfig where
  maxHedgeDelayUs : ℕ := 2000
  dailyLossLimitPaise : ℤ := 100000
  deriving DecidableEq, Repr

/-- `RiskConfig::load`. -/
def RiskConfig.load (path : Bytes) (file : Option Bytes) : Except Bytes LoadedRiskConfig :=
  (readKeyValueFile path file).map fun cfg =>
    let r : LoadedRiskConfig := {}
    { maxOrderQty := cfg.getI64 "max_order_qty" r.maxOrderQty
      maxPositionQty := cfg.getI64 "max_position_qty" r.maxPositionQty
      maxNotionalPaise := cfg.getI64 "max_notional_paise" r.maxNotionalPaise
      maxBookAgeUs := castUint32 (cfg.getI64 "max_book_age_us" r.maxBookAgeUs)
      maxOrdersPerSec := cfg.getInt "max_orders_per_sec" r.maxOrdersPerSec
      maxHedgeAttempts := cfg.getInt "max_hedge_attempts" r.maxHedgeAttempts
      maxHedgeDelayUs := castUint64 (cfg.getI64 "max_hedge_delay_us" r.maxHedgeDelayUs)
      maxHedgeLossPaise := cfg.getI64 "max_hedge_loss_paise" r.maxHedgeLossPaise
      priceBandPaise := cfg.getI64 "price_band_paise" r.priceBandPaise
      dailyLossLimitPaise := cfg.getI64 "daily_loss_limit_paise" r.dailyLossLimitPaise
      forceFlattenOnMaxLoss := cfg.getBool "force_flatten_on_max_loss" r.forceFlattenOnMaxLoss }

/-! ### Limits -/

/-- The integer keys. -/
inductive LimitKey
  | maxOrderQty
  | maxPositionQty
  | maxNotionalPaise
  | maxBookAgeUs
  | maxOrdersPerSec
  | maxHedgeAttempts
  | maxHedgeDelayUs
  | maxHedgeLossPaise
  | priceBandPaise
  | dailyLossLimitPaise
  deriving DecidableEq, Repr

/-- The types of the limits. -/
inductive LimitType
  | int64
  | uint32
  | int
  | uint64

namespace LimitType

/-- The numbers of the type. -/
def InRange (v : ℤ) : LimitType → Prop
  | .int64 => InInt64 v
  | .uint32 => 0 ≤ v ∧ v < 2 ^ 32
  | .int => -2 ^ 31 ≤ v ∧ v < 2 ^ 31
  | .uint64 => 0 ≤ v ∧ v < 2 ^ 64

instance (t : LimitType) (v : ℤ) : Decidable (t.InRange v) := by
  cases t <;> exact inferInstanceAs (Decidable (_ ∧ _))

/-- The cast to the type. -/
def cast (x : ℤ) : LimitType → ℤ
  | .int64 => x
  | .uint32 => castUint32 x
  | .int => castInt x
  | .uint64 => castUint64 x

/-- The numbers that come through in a limit of the type with default `d`: those that the type holds
and the parser reads, those that neither of the two does, and those that wrap to the default. -/
def Keeps (d v : ℤ) : LimitType → Prop
  | .int64 => True
  | .uint32 => (0 ≤ v ∧ v < 2 ^ 32) ∨ ¬ InInt64 v ∨ v % 2 ^ 32 = d
  | .int => (-2 ^ 31 ≤ v ∧ v < 2 ^ 31) ∨ ¬ InInt64 v ∨ Int.bmod v (2 ^ 32) = d
  | .uint64 => (0 ≤ v ∧ v < 2 ^ 63) ∨ v < -2 ^ 63 ∨ 2 ^ 64 ≤ v

/-- When parsing and casting give the number in range, or the default. -/
theorem cast_eq_iff {d : ℤ} (hd : 0 ≤ d) (hd' : d < 2 ^ 31) (v : ℤ) (t : LimitType) :
    t.cast (if InInt64 v then v else d) = (if t.InRange v then v else d) ↔ t.Keeps d v := by
  cases t with
  | int64 => exact iff_of_true rfl trivial
  | uint32 =>
    simp only [cast, InRange, Keeps, castUint32, InInt64]
    split_ifs <;> omega
  | int =>
    have hd32 : castInt d = d := Int.bmod_eq_of_le (by omega) (by omega)
    by_cases hrange : LimitType.int.InRange v
    · have hfits : InInt64 v := ⟨by have := hrange.1; omega, by have := hrange.2; omega⟩
      have hv32 : castInt v = v :=
        Int.bmod_eq_of_le (by have := hrange.1; omega) (by have := hrange.2; omega)
      rw [if_pos hfits, if_pos hrange]
      exact iff_of_true hv32 (Or.inl hrange)
    · rw [if_neg hrange]
      by_cases hfits : InInt64 v
      · rw [if_pos hfits]
        exact ⟨fun h => Or.inr (Or.inr h), fun h => h.elim (absurd · hrange)
          fun h => h.elim (absurd hfits) id⟩
      · rw [if_neg hfits]
        exact iff_of_true hd32 (Or.inr (Or.inl hfits))
  | uint64 =>
    simp only [cast, InRange, Keeps, castUint64, InInt64]
    split_ifs <;> omega

end LimitType

namespace LimitKey

/-- The key in the file. -/
def name : LimitKey → String
  | .maxOrderQty => "max_order_qty"
  | .maxPositionQty => "max_position_qty"
  | .maxNotionalPaise => "max_notional_paise"
  | .maxBookAgeUs => "max_book_age_us"
  | .maxOrdersPerSec => "max_orders_per_sec"
  | .maxHedgeAttempts => "max_hedge_attempts"
  | .maxHedgeDelayUs => "max_hedge_delay_us"
  | .maxHedgeLossPaise => "max_hedge_loss_paise"
  | .priceBandPaise => "price_band_paise"
  | .dailyLossLimitPaise => "daily_loss_limit_paise"

/-- The limit of a configuration. -/
def limit (r : LoadedRiskConfig) : LimitKey → ℤ
  | .maxOrderQty => r.maxOrderQty
  | .maxPositionQty => r.maxPositionQty
  | .maxNotionalPaise => r.maxNotionalPaise
  | .maxBookAgeUs => r.maxBookAgeUs
  | .maxOrdersPerSec => r.maxOrdersPerSec
  | .maxHedgeAttempts => r.maxHedgeAttempts
  | .maxHedgeDelayUs => r.maxHedgeDelayUs
  | .maxHedgeLossPaise => r.maxHedgeLossPaise
  | .priceBandPaise => r.priceBandPaise
  | .dailyLossLimitPaise => r.dailyLossLimitPaise

/-- The type of the limit. -/
def type : LimitKey → LimitType
  | .maxBookAgeUs => .uint32
  | .maxOrdersPerSec | .maxHedgeAttempts => .int
  | .maxHedgeDelayUs => .uint64
  | _ => .int64

/-- The limit without a file. -/
def default (k : LimitKey) : ℤ := k.limit {}

theorem default_mem (k : LimitKey) : 0 ≤ k.default ∧ k.default < 2 ^ 31 := by
  cases k <;> decide

/-- The integer that the last line of the key denotes. -/
def written (text : Bytes) (k : LimitKey) : Option ℤ :=
  (lastValue text k.name.toList).bind fun s => denoted (trim s)

/-- The file loads, and an integer written for the key is the limit if its type holds it; otherwise
the limit keeps its default. -/
def LoadedAsWritten (path text : Bytes) (k : LimitKey) : Prop :=
  ∃ r, RiskConfig.load path (some text) = .ok r ∧
    ∀ v, k.written text = some v → k.limit r = if k.type.InRange v then v else k.default

/-- A limit is its default, or parsed and cast. -/
theorem limit_load (path text : Bytes) (k : LimitKey) :
    ∃ r, RiskConfig.load path (some text) = .ok r ∧ k.limit r =
      (lastValue text k.name.toList).elim k.default fun s =>
        k.type.cast (parseI64 s k.default) := by
  refine ⟨_, by rw [RiskConfig.load, keyValues_eq]; rfl, ?_⟩
  cases k <;>
    simp only [limit, name, KeyValues.getI64, KeyValues.getInt] <;>
    cases lastValue text _ <;> rfl

/-- **When a limit is the one written.**  For every file and every integer key: exactly when the
integer written for it, if there is one, is a number that the cast keeps. -/
theorem limit_loaded_iff (path text : Bytes) (k : LimitKey) :
    LoadedAsWritten path text k ↔ ∀ v, k.written text = some v → k.type.Keeps k.default v := by
  obtain ⟨r, hload, hlimit⟩ := limit_load path text k
  have hwritten : ∀ v, k.written text = some v →
      k.limit r = k.type.cast (if InInt64 v then v else k.default) := by
    intro v hv
    obtain ⟨s, hs, hdenoted⟩ := Option.bind_eq_some_iff.1 hv
    rw [hlimit, hs, Option.elim_some, parseI64_of_begins (begins_of_denoted hdenoted)]
  have hcast := fun v => LimitType.cast_eq_iff k.default_mem.1 k.default_mem.2 v k.type
  constructor
  · rintro ⟨r', hload', hall⟩ v hv
    cases hload.symm.trans hload'
    rw [← hcast, ← hwritten v hv]
    exact hall v hv
  · intro hkeeps
    refine ⟨r, hload, fun v hv => ?_⟩
    rw [hwritten v hv, hcast]
    exact hkeeps v hv

/-- A book may be 4294967295 microseconds old after `max_book_age_us: -1`. -/
theorem not_loadedAsWritten_minusOne :
    ¬ LoadedAsWritten "risk.yml".toList "max_book_age_us: -1".toList .maxBookAgeUs := by
  rintro ⟨r, hload, hall⟩
  have hminus := hall (-1) (by decide +kernel)
  cases hload
  exact absurd hminus (by decide +kernel)

end LimitKey

end Hft
