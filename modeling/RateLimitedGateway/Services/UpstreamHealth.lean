import Mathlib.Tactic.NormNum
import RateLimitedGateway.Foundation.Rounding
import RateLimitedGateway.Infra.RedisDatabase

/-!
# Upstream health

The error rate of the last minute decides whether limits are halved.  Quotients
and decimals are the doubles that Python computes with.
-/

namespace RateLimitedGateway.Services

open RateLimitedGateway.Foundation RateLimitedGateway.Infra

def keySuccess : String := "upstream:window:success"

def keyError : String := "upstream:window:error"

def windowKey (success : Bool) : String :=
  if success then keySuccess else keyError

def recordCommands (serverTime now : ℚ) (entry : Option RedisEntry) :
    Option RedisEntry :=
  RedisEntry.expire (serverTime + 180)
    (RedisEntry.zremrangebyscore (now - 60) (RedisEntry.zadd now entry))

/-- One round trip: a `RedisError` may hide that the commands have run. -/
def executePipeline (redis : RedisDatabase) (serverTime now : ℚ)
    (delivery : Delivery) (success : Bool) :
    Except String Unit × RedisDatabase :=
  let after := redis.modify serverTime (windowKey success)
    (recordCommands serverTime now)
  match delivery with
  | .completes => (.ok (), after)
  | .failsBefore => (.error "RedisError", redis)
  | .failsAfter => (.error "RedisError", after)

def recordUpstreamResult (redis : RedisDatabase) (serverTime now : ℚ)
    (delivery : Delivery) (success : Bool) :
    Except String Unit × RedisDatabase :=
  match executePipeline redis serverTime now delivery success with
  | (.ok (), after) => (.ok (), after)
  | (.error _, after) => (.ok (), after)

/-- `_ERROR_THRESHOLD`, the literal `0.20`. -/
def errorThreshold : ℚ := binary64 (1 / 5)

def degradedFactor : ℚ := 1 / 2

/-- `get_health_factor` on the two counts; `none` is a `RedisError`. -/
def getHealthFactor (counts : Option (Nat × Nat)) : ℚ :=
  match counts with
  | none => 1
  | some (successes, errors) =>
      let total := successes + errors
      if total < 10 then 1
      else
        let errorRate := binary64 (errors / total)
        if errorRate > errorThreshold then degradedFactor else 1

structure HealthStatus where
  status : String
  error : Option String
  errorRate : Option ℚ
  factor : ℚ
  requestsInWindow : Option Nat
  windowSeconds : Nat
  threshold : Option ℚ
  deriving DecidableEq, Repr

/-- `round(x, 4)`, the double nearest to the rounded decimal. -/
def roundFour (x : ℚ) : ℚ := binary64 (roundHalfEven (x * 10 ^ 4) / 10 ^ 4)

/-- `get_health_status` on the two counts, or on the text of a `RedisError`. -/
def getHealthStatus (counts : Except String (Nat × Nat)) : HealthStatus :=
  match counts with
  | .error text =>
      { status := "unknown", error := some text, errorRate := none, factor := 1,
        requestsInWindow := none, windowSeconds := 60, threshold := none }
  | .ok (successes, errors) =>
      let total := successes + errors
      let errorRate :=
        if total > 0 then roundFour (binary64 (errors / total)) else 0
      let factor :=
        if total ≥ 10 ∧ errorRate > errorThreshold then degradedFactor else 1
      { status := if factor < 1 then "degraded" else "healthy"
        error := none
        errorRate := some errorRate
        factor := factor
        requestsInWindow := some total
        windowSeconds := 60
        threshold := some errorThreshold }

structure HealthTracker where
  redis : RedisDatabase := fun _ => none
  serverTime : ℚ := 0
  now : ℚ := 0
  delivery : Delivery := .completes

theorem recordUpstreamResult_ok (redis : RedisDatabase) (serverTime now : ℚ)
    (delivery : Delivery) (success : Bool) :
    (recordUpstreamResult redis serverTime now delivery success).1 =
      .ok () := by
  cases delivery <;> rfl

theorem recordUpstreamResult_actsOn (serverTime now : ℚ) (delivery : Delivery)
    (success : Bool) :
    Operation.ActsOn
      (fun redis =>
        recordUpstreamResult redis serverTime now delivery success)
      (windowKey success) := by
  have hcommands := RedisDatabase.modify_actsOn serverTime (windowKey success)
    (recordCommands serverTime now)
  constructor
  · intro redis other _
    rw [recordUpstreamResult_ok, recordUpstreamResult_ok]
  · intro redis other hvalue
    cases delivery with
    | failsBefore => exact hvalue
    | completes => exact hcommands.value hvalue
    | failsAfter => exact hcommands.value hvalue
  · intro redis elsewhere hne
    cases delivery with
    | failsBefore => rfl
    | completes => exact hcommands.frame redis hne
    | failsAfter => exact hcommands.frame redis hne

theorem getHealthFactor_eq_or (counts : Option (Nat × Nat)) :
    getHealthFactor counts = 1 ∨ getHealthFactor counts = 1 / 2 := by
  unfold getHealthFactor
  split
  · exact .inl rfl
  · simp only []
    split
    · exact .inl rfl
    · split
      · exact .inr rfl
      · exact .inl rfl

/-! ## The thresholds of the rounded rates -/

theorem errorThreshold_eq : errorThreshold = 7205759403792794 / 2 ^ 55 := by
  have hlow : ((2 : ℕ) : ℚ) ^ (-3 : Int) ≤ 1 / 5 := by norm_num
  have hhigh : (1 / 5 : ℚ) < ((2 : ℕ) : ℚ) ^ (-3 + 1 : Int) := by norm_num
  rw [errorThreshold, binary64, roundSignificant_eq (by decide) hlow hhigh]
  norm_num [unit, roundHalfEven]

theorem lt_binary64_iff {threshold x : ℚ} (hlow : 1 / 8 ≤ threshold)
    (hhigh : threshold < 1 / 4) (hx : 0 ≤ x) :
    threshold < binary64 x ↔
      ⌊threshold * 2 ^ 55⌋ < roundHalfEven (x * 2 ^ 55) := by
  have hlow' : ((2 : ℕ) : ℚ) ^ (-3 : Int) ≤ threshold := by
    norm_num
    linarith
  have hhigh' : threshold < ((2 : ℕ) : ℚ) ^ (-3 + 1 : Int) := by
    norm_num
    linarith
  have hunit : unit 2 53 (-3) = 1 / 2 ^ 55 := by norm_num [unit]
  rw [binary64, lt_roundSignificant_iff (by decide) (by decide) hlow' hhigh' hx,
    hunit]
  simp only [div_div_eq_mul_div, div_one]

theorem errorThreshold_lt_iff {x : ℚ} (hx : 0 ≤ x) :
    errorThreshold < binary64 x ↔ 14411518807585589 / 2 ^ 56 < x := by
  have hfloor : ⌊errorThreshold * 2 ^ 55⌋ = 7205759403792794 := by
    rw [errorThreshold_eq]
    norm_num
  rw [lt_binary64_iff (by norm_num [errorThreshold_eq])
    (by norm_num [errorThreshold_eq]) hx, hfloor, lt_roundHalfEven_iff]
  norm_num
  constructor <;> intro h <;> linarith

theorem errorThreshold_lt_roundFour_iff {x : ℚ} (hx : 0 ≤ x) :
    errorThreshold < roundFour (binary64 x) ↔
      14415121687287483 / 2 ^ 56 ≤ x := by
  have hrate : 0 ≤ roundHalfEven (binary64 x * 10 ^ 4) := by
    apply le_roundHalfEven
    have := binary64_nonneg hx
    push_cast
    positivity
  have hdecimal : (0 : ℚ) ≤ roundHalfEven (binary64 x * 10 ^ 4) / 10 ^ 4 := by
    have : (0 : ℚ) ≤ roundHalfEven (binary64 x * 10 ^ 4) := by
      exact_mod_cast hrate
    positivity
  have hdigits : (14411518807585589 / 2 ^ 56 : ℚ) <
      roundHalfEven (binary64 x * 10 ^ 4) / 10 ^ 4 ↔
        2000 < roundHalfEven (binary64 x * 10 ^ 4) := by
    rw [lt_div_iff₀ (by norm_num)]
    constructor
    · intro hpast
      have : (2000 : ℚ) < roundHalfEven (binary64 x * 10 ^ 4) :=
        lt_trans (by norm_num) hpast
      exact_mod_cast this
    · intro hpast
      have : (2001 : ℚ) ≤ roundHalfEven (binary64 x * 10 ^ 4) := by
        exact_mod_cast hpast
      exact lt_of_lt_of_le (by norm_num) this
  have hmiddle : 2000 < roundHalfEven (binary64 x * 10 ^ 4) ↔
      4001 / 20000 < binary64 x := by
    rw [lt_roundHalfEven_iff]
    norm_num
    constructor <;> intro h <;> linarith
  have hfloor : ⌊(4001 / 20000 * 2 ^ 55 : ℚ)⌋ = 7207560843643741 := by
    norm_num
  rw [roundFour, errorThreshold_lt_iff hdecimal, hdigits, hmiddle,
    lt_binary64_iff (by norm_num) (by norm_num) hx, hfloor,
    lt_roundHalfEven_iff, le_iff_lt_or_eq]
  norm_num
  constructor
  · rintro (h | h)
    · left
      linarith
    · right
      linarith
  · rintro (h | h)
    · left
      linarith
    · right
      linarith

/-! ## The two decisions -/

section Decisions

variable (successes errors : ℕ)

theorem getHealthFactor_some :
    getHealthFactor (some (successes, errors)) =
      if 10 ≤ successes + errors ∧
        (14411518807585589 / 2 ^ 56 : ℚ) < errors / (successes + errors : ℕ)
      then 1 / 2 else 1 := by
  have hrate : (0 : ℚ) ≤ errors / (successes + errors : ℕ) := by positivity
  simp only [getHealthFactor, gt_iff_lt, errorThreshold_lt_iff hrate]
  by_cases hfew : successes + errors < 10
  · simp [hfew]
  · rw [if_neg hfew]
    simp only [not_lt.mp hfew, true_and, degradedFactor]

theorem getHealthStatus_factor :
    (getHealthStatus (.ok (successes, errors))).factor =
      if 10 ≤ successes + errors ∧
        (14415121687287483 / 2 ^ 56 : ℚ) ≤ errors / (successes + errors : ℕ)
      then 1 / 2 else 1 := by
  have hrate : (0 : ℚ) ≤ errors / (successes + errors : ℕ) := by positivity
  simp only [getHealthStatus]
  by_cases hfew : successes + errors < 10
  · simp [not_le.mpr hfew]
  · rw [if_pos (by omega : successes + errors > 0)]
    simp only [gt_iff_lt, errorThreshold_lt_roundFour_iff hrate, ge_iff_le,
      degradedFactor]

theorem getHealthStatus_degraded_iff :
    (getHealthStatus (.ok (successes, errors))).status = "degraded" ↔
      (getHealthStatus (.ok (successes, errors))).factor < 1 := by
  simp only [getHealthStatus]
  split <;> simp [*]

/-- Above the threshold, but rounded to it: about `0.2 < rate < 0.20005`. -/
def RoundedToThreshold : Prop :=
  10 ≤ successes + errors ∧
    (14411518807585589 / 2 ^ 56 : ℚ) < errors / (successes + errors : ℕ) ∧
    (errors / (successes + errors : ℕ) : ℚ) < 14415121687287483 / 2 ^ 56

theorem reported_factor_enforced_iff :
    ((getHealthStatus (.ok (successes, errors))).factor =
        getHealthFactor (some (successes, errors)) ∧
      ((getHealthStatus (.ok (successes, errors))).status = "degraded" ↔
        getHealthFactor (some (successes, errors)) < 1)) ↔
      ¬ RoundedToThreshold successes errors := by
  rw [getHealthStatus_degraded_iff, getHealthStatus_factor,
    getHealthFactor_some, RoundedToThreshold]
  generalize (errors / (successes + errors : ℕ) : ℚ) = rate
  by_cases hmany : 10 ≤ successes + errors
  · rcases le_or_gt rate (14411518807585589 / 2 ^ 56) with hlow | habove
    · have hbelow : rate < 14415121687287483 / 2 ^ 56 :=
        hlow.trans_lt (by norm_num)
      simp [not_lt.mpr hlow, not_le.mpr hbelow]
    · rcases le_or_gt (14415121687287483 / 2 ^ 56) rate with hhigh | hbelow
      · simp [hmany, habove, hhigh, not_lt.mpr hhigh]
      · -- halved, while the status still says healthy
        simp only [hmany, habove, hbelow, not_le.mpr hbelow]
        norm_num
  · simp [hmany]

end Decisions

/-- 20.004 % of 25000 requests have failed. -/
theorem halved_but_reported_healthy :
    ¬ ∀ successes errors : ℕ,
      (getHealthStatus (.ok (successes, errors))).factor =
          getHealthFactor (some (successes, errors)) ∧
        ((getHealthStatus (.ok (successes, errors))).status = "degraded" ↔
          getHealthFactor (some (successes, errors)) < 1) := by
  intro hagree
  have hfactor := (hagree 19999 5001).1
  rw [getHealthStatus_factor, getHealthFactor_some] at hfactor
  norm_num at hfactor

end RateLimitedGateway.Services
