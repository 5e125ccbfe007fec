import RateLimitedGateway.Core.Config
import RateLimitedGateway.Foundation.Rounding
import RateLimitedGateway.Infra.RateLimiter.RedisLimiter

/-!
# The rate limit of a request

The service decides which limit applies to a user, scales it by the health of
the upstream, and asks the limiter.
-/

namespace RateLimitedGateway.Services

open RateLimitedGateway.Core RateLimitedGateway.Foundation
open RateLimitedGateway.Infra

structure QuotaOverride where
  customLimit : Int
  expiresAt : Option ℚ
  deriving DecidableEq, Repr

def tierDefault (settings : Settings) (tier : String) : Int :=
  if tier = "free" then settings.rateLimitFree
  else if tier = "pro" then settings.rateLimitPro
  else if tier = "enterprise" then settings.rateLimitEnterprise
  else settings.rateLimitFree

def lookupOverride (row : Option QuotaOverride) (utcNow : ℚ) : Option Int :=
  match row with
  | none => none
  | some row =>
      match row.expiresAt with
      | none => some row.customLimit
      | some expiresAt =>
          if expiresAt < utcNow then none else some row.customLimit

def resolveLimit (settings : Settings) (row : Option QuotaOverride)
    (utcNow : ℚ) (tier : String) : Int :=
  match lookupOverride row utcNow with
  | some customLimit => customLimit
  | none => tierDefault settings tier

/-- `base_limit * health_factor` makes a double of the integer first. -/
def effectiveLimit (baseLimit : Int) (healthFactor : ℚ) : Int :=
  max 1 (truncate (binary64 (binary64 baseLimit * healthFactor)))

/-- The integer is past the largest double: an `OverflowError`. -/
def overflows (baseLimit : Int) : Bool := 2 ^ 1024 ≤ |binary64 baseLimit|

def userKey (userId : String) : String := "user:" ++ userId

structure Stores where
  /-- The `SELECT` on the overrides; `error` is a database that fails. -/
  selectOverride : String → Except String (Option QuotaOverride)
  redis : Redis
  delivery : Delivery
  epochNow : Int
  utcNow : ℚ

def checkRateLimit (settings : Settings) (stores : Stores)
    (userId tier : String) (healthFactor : ℚ) :
    Except String (LimitResult × Redis) :=
  match stores.selectOverride userId with
  | .error text => .error text
  | .ok row =>
      let baseLimit := resolveLimit settings row stores.utcNow tier
      if overflows baseLimit then .error "OverflowError"
      else
        .ok (RedisRateLimiter.check stores.redis stores.delivery
          (userKey userId) (effectiveLimit baseLimit healthFactor)
          windowSeconds stores.epochNow)

theorem checkRateLimit_eq_ok_iff {settings : Settings} {stores : Stores}
    {userId tier : String} {healthFactor : ℚ}
    {checked : LimitResult × Redis} :
    checkRateLimit settings stores userId tier healthFactor = .ok checked ↔
      ∃ row, stores.selectOverride userId = .ok row ∧
        overflows (resolveLimit settings row stores.utcNow tier) = false ∧
        RedisRateLimiter.check stores.redis stores.delivery (userKey userId)
            (effectiveLimit (resolveLimit settings row stores.utcNow tier)
              healthFactor)
            windowSeconds stores.epochNow = checked := by
  unfold checkRateLimit
  cases stores.selectOverride userId with
  | error text => simp
  | ok row =>
      cases hover : overflows (resolveLimit settings row stores.utcNow tier)
        with
      | true => simp [hover]
      | false => simp [hover]

/-! ## The limit handed over -/

theorem effectiveLimit_pos (baseLimit : Int) (healthFactor : ℚ) :
    0 < effectiveLimit baseLimit healthFactor :=
  lt_of_lt_of_le Int.one_pos (le_max_left _ _)

theorem effectiveLimit_of_nonpos {baseLimit : Int} (hbase : baseLimit ≤ 0)
    {healthFactor : ℚ} (hfactor : 0 ≤ healthFactor) :
    effectiveLimit baseLimit healthFactor = 1 := by
  have hdouble : binary64 baseLimit ≤ 0 :=
    binary64_nonpos (by exact_mod_cast hbase)
  have hproduct : binary64 (binary64 baseLimit * healthFactor) ≤ 0 :=
    binary64_nonpos (mul_nonpos_of_nonpos_of_nonneg hdouble hfactor)
  rw [effectiveLimit, truncate_of_nonpos hproduct]
  apply max_eq_left
  exact (Int.ceil_le.mpr (by exact_mod_cast hproduct)).trans Int.one_nonneg

theorem effectiveLimit_of_pos {baseLimit : Int} (hbase : 0 < baseLimit)
    (k : Int) :
    effectiveLimit baseLimit (2 ^ k) =
      max 1 ⌊binary64 baseLimit * 2 ^ k⌋ := by
  have hpos : (0 : ℚ) < baseLimit := by exact_mod_cast hbase
  have hnonneg : 0 ≤ binary64 baseLimit * 2 ^ k :=
    mul_nonneg (binary64_nonneg hpos.le) (zpow_nonneg (by norm_num) k)
  rw [effectiveLimit, binary64_mul_zpow hpos, truncate_of_nonneg hnonneg]

theorem effectiveLimit_one_of_pos {baseLimit : Int} (hbase : 0 < baseLimit) :
    effectiveLimit baseLimit 1 = max 1 ⌊binary64 baseLimit⌋ := by
  simpa using effectiveLimit_of_pos hbase 0

theorem effectiveLimit_half_of_pos {baseLimit : Int} (hbase : 0 < baseLimit) :
    effectiveLimit baseLimit (1 / 2) = max 1 ⌊binary64 baseLimit / 2⌋ := by
  simpa [div_eq_mul_inv] using effectiveLimit_of_pos hbase (-1)

theorem effectiveLimit_half_le (baseLimit : Int) :
    effectiveLimit baseLimit (1 / 2) ≤ effectiveLimit baseLimit 1 := by
  rcases le_or_gt baseLimit 0 with hbase | hbase
  · rw [effectiveLimit_of_nonpos hbase (by norm_num),
      effectiveLimit_of_nonpos hbase (by norm_num)]
  · have hnonneg : 0 ≤ binary64 (baseLimit : ℚ) :=
      binary64_nonneg (by exact_mod_cast hbase.le)
    rw [effectiveLimit_half_of_pos hbase, effectiveLimit_one_of_pos hbase]
    exact max_le_max le_rfl (Int.floor_le_floor (half_le_self hnonneg))

theorem effectiveLimit_one_of_le {baseLimit : Int}
    (hbase : baseLimit ≤ 2 ^ 53) :
    effectiveLimit baseLimit 1 = max 1 baseLimit := by
  rcases le_or_gt baseLimit 0 with hneg | hpos
  · rw [effectiveLimit_of_nonpos hneg (by norm_num)]
    omega
  · rw [effectiveLimit_one_of_pos hpos, binary64_intCast hpos.le hbase,
      Int.floor_intCast]

end RateLimitedGateway.Services
