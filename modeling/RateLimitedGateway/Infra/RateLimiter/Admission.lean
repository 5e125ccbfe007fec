import Mathlib.Algebra.BigOperators.Ring.Finset
import RateLimitedGateway.Foundation.CappedLevel
import RateLimitedGateway.Infra.RateLimiter.RedisLimiter

/-!
# Which calls the limiter admits

The calls on one key, in the order in which Redis executes their scripts, form
a sequence; each brings its own limit and its own clock reading.  The tokens
that the script finds are a capped level, so the admission law of the limiter
is the min-plus form of that level.
-/

namespace RateLimitedGateway.Infra

open Finset RateLimitedGateway.Foundation

/-- What `check` is called with; `check_rate_limit` passes no limit below 1. -/
structure CheckCall where
  limit : Int
  now : Int
  limit_pos : 0 < limit

namespace RedisRateLimiter

def redisBefore (redis : Redis) (key : String) (calls : ℕ → CheckCall) :
    ℕ → Redis
  | 0 => redis
  | n + 1 =>
      (check (redisBefore redis key calls n) .completes key (calls n).limit
        windowSeconds (calls n).now).2

def resultOf (redis : Redis) (key : String) (calls : ℕ → CheckCall) (n : ℕ) :
    LimitResult :=
  (check (redisBefore redis key calls n) .completes key (calls n).limit
    windowSeconds (calls n).now).1

def allowedCount (redis : Redis) (key : String) (calls : ℕ → CheckCall)
    (m n : ℕ) : ℕ :=
  #{k ∈ Ico m n | (resultOf redis key calls k).allowed = true}

def tokensAt (redis : Redis) (key : String) (calls : ℕ → CheckCall) (n : ℕ) :
    ℚ :=
  currentTokens ((redisBefore redis key calls n key).map StoredBucket.bucket)
    (calls n).limit ((calls n).limit / windowSeconds : ℚ) (calls n).now

def refillAt (calls : ℕ → CheckCall) (n : ℕ) : ℚ :=
  max 0 ((calls n).now - (calls (n - 1)).now : ℚ) *
    ((calls n).limit / windowSeconds : ℚ)

def spentAt (redis : Redis) (key : String) (calls : ℕ → CheckCall) (n : ℕ) :
    ℚ :=
  if (resultOf redis key calls n).allowed = true then 1 else 0

variable (redis : Redis) (key : String) (calls : ℕ → CheckCall)

theorem resultOf_allowed_iff (n : ℕ) :
    (resultOf redis key calls n).allowed = true ↔
      1 ≤ tokensAt redis key calls n := by
  simp only [resultOf, check, decide_eq_true_eq]
  exact tokenBucketScript_allowed _ _ _ _

theorem redisBefore_succ (n : ℕ) :
    (redisBefore redis key calls (n + 1) key).map StoredBucket.bucket =
      some ⟨tokensAt redis key calls n - spentAt redis key calls n,
        (calls n).now⟩ := by
  simp only [redisBefore, check, Redis.set_same, Option.map_some,
    spentAt, resultOf_allowed_iff]
  exact congrArg some (tokenBucketScript_bucket _ _ _ _)

theorem sum_spentAt (m n : ℕ) :
    ∑ k ∈ Ico m n, spentAt redis key calls k =
      allowedCount redis key calls m n := by
  simp [spentAt, allowedCount, sum_boole]

theorem spentAt_eq (n : ℕ) :
    spentAt redis key calls n =
      if 1 ≤ tokensAt redis key calls n then 1 else 0 := by
  simp only [spentAt, resultOf_allowed_iff]

theorem spentAt_le_tokensAt (n : ℕ) :
    spentAt redis key calls n ≤ max 0 (tokensAt redis key calls n) := by
  rw [spentAt_eq]
  split
  · next hone => exact hone.trans (le_max_right _ _)
  · exact le_max_left _ _

theorem tokensAt_le_limit (n : ℕ) :
    tokensAt redis key calls n ≤ (calls n).limit :=
  currentTokens_le_capacity _ _ _ _

theorem tokensAt_succ (n : ℕ) :
    tokensAt redis key calls (n + 1) =
      min (tokensAt redis key calls n - spentAt redis key calls n +
        refillAt calls (n + 1)) (calls (n + 1)).limit := by
  rw [tokensAt, redisBefore_succ, currentTokens_some]
  rfl

theorem tokensAt_eq_level (n : ℕ) :
    tokensAt redis key calls n =
      level (tokensAt redis key calls 0) (fun k => ((calls k).limit : ℚ))
        (refillAt calls) (spentAt redis key calls) n := by
  induction n with
  | zero => rfl
  | succ n ih => rw [tokensAt_succ, level_succ, ← ih]

theorem refillAt_nonneg (calls : ℕ → CheckCall) (k : ℕ) :
    0 ≤ refillAt calls k := by
  have hlimit : (0 : ℚ) ≤ (calls k).limit := by
    exact_mod_cast (calls k).limit_pos.le
  unfold refillAt
  apply mul_nonneg (le_max_left _ _)
  exact div_nonneg hlimit (by norm_num [windowSeconds])

theorem allowedCount_le (n : ℕ) :
    (allowedCount redis key calls 0 (n + 1) : ℚ) ≤ (calls 0).limit +
      ∑ k ∈ range n, min ((calls (k + 1)).limit : ℚ)
        (refillAt calls (k + 1)) := by
  have hcap : ∀ k, (0 : ℚ) ≤ (calls k).limit := by
    intro k
    exact_mod_cast (calls k).limit_pos.le
  have hspent : ∀ k, spentAt redis key calls k ≤
      max 0 (level (tokensAt redis key calls 0) (fun k => ((calls k).limit : ℚ))
        (refillAt calls) (spentAt redis key calls) k) := by
    intro k
    rw [← tokensAt_eq_level]
    exact spentAt_le_tokensAt redis key calls k
  rw [← sum_spentAt, Nat.Ico_zero_eq_range, sum_range_succ]
  calc
    _ ≤ _ := add_le_add_right (hspent n) _
    _ ≤ _ := sum_spent_add_level_le hcap (refillAt_nonneg calls)
        fun k _ => hspent k
    _ ≤ _ := add_le_add_left
        (max_le (hcap 0) (tokensAt_le_limit redis key calls 0)) _

variable {redis} {key}

theorem tokensAt_zero_of_absent (habsent : redis key = none) :
    tokensAt redis key calls 0 = (calls 0).limit := by
  simp [tokensAt, redisBefore, habsent, currentTokens_none]

/--
From an absent key and with a clock that never goes back, a call is allowed
exactly when every window that ends with it conforms: the calls allowed in the
window, this one included, are covered by the first limit of the window and the
refill since.
-/
theorem admission_law (habsent : redis key = none) {n : ℕ}
    (hclock : ∀ k < n, (calls k).now ≤ (calls (k + 1)).now) :
    (resultOf redis key calls n).allowed = true ↔
      ∀ m ≤ n, (allowedCount redis key calls m n : ℚ) + 1 ≤
        (calls m).limit + ∑ k ∈ Ioc m n,
          ((calls k).now - (calls (k - 1)).now : ℚ) * (calls k).limit / 60 := by
  have hrefill : ∀ m, ∑ k ∈ Ioc m n, refillAt calls k = ∑ k ∈ Ioc m n,
      ((calls k).now - (calls (k - 1)).now : ℚ) * (calls k).limit / 60 := by
    intro m
    apply sum_congr rfl
    intro k hk
    obtain ⟨hpos, hle⟩ := mem_Ioc.mp hk
    obtain ⟨j, rfl⟩ : ∃ j, k = j + 1 := ⟨k - 1, by omega⟩
    have hstep : ((calls j).now : ℚ) ≤ (calls (j + 1)).now := by
      exact_mod_cast hclock j (by omega)
    simp only [refillAt, windowSeconds, Nat.add_sub_cancel]
    rw [max_eq_right (sub_nonneg.mpr hstep), mul_div_assoc]
    norm_num
  rw [resultOf_allowed_iff, tokensAt_eq_level,
    le_level_iff (tokensAt_zero_of_absent calls habsent)]
  simp only [sum_spentAt, hrefill, add_comm (1 : ℚ)]

def twoBursts : ℕ → CheckCall :=
  fun k =>
    { limit := 2, now := if k < 2 then 0 else 30, limit_pos := by decide }

theorem admission_law_twoBursts :
    (resultOf Redis.empty "user:alice" twoBursts 2).allowed = true ∧
      ¬ (resultOf Redis.empty "user:alice" twoBursts 3).allowed = true := by
  constructor
  · rw [admission_law twoBursts rfl (by decide)]
    decide +kernel
  · rw [admission_law twoBursts rfl (by decide)]
    decide +kernel

end RedisRateLimiter

end RateLimitedGateway.Infra
