import RateLimitedGateway.Infra.RateLimiter.Admission
import RateLimitedGateway.Services.RateLimitService
import RateLimitedGateway.Services.UpstreamHealth

/-!
# A larger limit admits no less in total

Two runs of the limiter over the same clock readings, the second with the larger
limits.  A single call may be allowed in the first run and denied in the second,
which has spent its tokens before; the totals are ordered all the same.
-/

namespace RateLimitedGateway.Services

open Finset RateLimitedGateway.Foundation RateLimitedGateway.Infra
open RateLimitedGateway.Infra.RedisRateLimiter

section TwoRuns

variable {redis : Redis} {key : String} {calls calls' : ℕ → CheckCall}

theorem refillAt_le (hnow : ∀ k, (calls k).now = (calls' k).now)
    (hlimit : ∀ k, (calls k).limit ≤ (calls' k).limit) (n : ℕ) :
    refillAt calls n ≤ refillAt calls' n := by
  have hlimit' : ((calls n).limit : ℚ) ≤ (calls' n).limit := by
    exact_mod_cast hlimit n
  unfold refillAt
  rw [hnow, hnow]
  gcongr
  norm_num [windowSeconds]

theorem sum_range_spentAt (redis : Redis) (key : String)
    (calls : ℕ → CheckCall) (n : ℕ) :
    ∑ k ∈ range n, spentAt redis key calls k =
      allowedCount redis key calls 0 n := by
  rw [← sum_spentAt, Nat.Ico_zero_eq_range]

theorem spentAt_nonneg (redis : Redis) (key : String) (calls : ℕ → CheckCall)
    (n : ℕ) : 0 ≤ spentAt redis key calls n := by
  rw [spentAt]
  split <;> decide

theorem spentAt_le_one (redis : Redis) (key : String) (calls : ℕ → CheckCall)
    (n : ℕ) : spentAt redis key calls n ≤ 1 := by
  rw [spentAt]
  split <;> decide

theorem allowedCount_le_allowedCount (habsent : redis key = none)
    (hnow : ∀ k, (calls k).now = (calls' k).now)
    (hlimit : ∀ k, (calls k).limit ≤ (calls' k).limit) (n : ℕ) :
    allowedCount redis key calls 0 n ≤ allowedCount redis key calls' 0 n := by
  have hcap : ∀ k, ((calls k).limit : ℚ) ≤ (calls' k).limit := by
    intro k
    exact_mod_cast hlimit k
  have hstart : tokensAt redis key calls 0 ≤ tokensAt redis key calls' 0 := by
    rw [tokensAt_zero_of_absent calls habsent,
      tokensAt_zero_of_absent calls' habsent]
    exact hcap 0
  have hspent : ∀ k, tokensAt redis key calls k ≤ tokensAt redis key calls' k →
      spentAt redis key calls k ≤ spentAt redis key calls' k := by
    intro k htokens
    rw [spentAt_eq, spentAt_eq]
    split
    · next hone => rw [if_pos (hone.trans htokens)]
    · next hnone => exact spentAt_eq redis key calls' k ▸ spentAt_nonneg _ _ _ k
  have hlead : ∀ k,
      ∑ j ∈ range k, spentAt redis key calls j <
        ∑ j ∈ range k, spentAt redis key calls' j →
      ∑ j ∈ range (k + 1), spentAt redis key calls j ≤
        ∑ j ∈ range (k + 1), spentAt redis key calls' j := by
    intro k hahead
    -- a lead is a whole call
    rw [sum_range_spentAt, sum_range_spentAt, Nat.cast_lt] at hahead
    have hwhole : (allowedCount redis key calls 0 k : ℚ) + 1 ≤
        allowedCount redis key calls' 0 k := by
      exact_mod_cast hahead
    rw [sum_range_succ, sum_range_succ, sum_range_spentAt, sum_range_spentAt]
    linarith [spentAt_le_one redis key calls k,
      spentAt_nonneg redis key calls' k]
  have hsum := (sum_spent_le_sum_spent hstart hcap (refillAt_le hnow hlimit)
    (fun k hlevel => hspent k (by
      rwa [tokensAt_eq_level redis key calls k,
        tokensAt_eq_level redis key calls' k])) hlead n).1
  rw [sum_range_spentAt, sum_range_spentAt] at hsum
  exact_mod_cast hsum

end TwoRuns

/-! ## Limits under a health factor -/

def scaledCalls (baseLimit : ℕ → Int) (healthFactor : ℕ → ℚ)
    (now : ℕ → Int) : ℕ → CheckCall :=
  fun k =>
    { limit := effectiveLimit (baseLimit k) (healthFactor k)
      now := now k
      limit_pos := effectiveLimit_pos _ _ }

theorem scaledCalls_limit_le (baseLimit : ℕ → Int)
    (counts : ℕ → Option (Nat × Nat)) (now : ℕ → Int) (k : ℕ) :
    (scaledCalls baseLimit (fun j => getHealthFactor (counts j)) now k).limit ≤
      (scaledCalls baseLimit (fun _ => 1) now k).limit := by
  simp only [scaledCalls]
  rcases getHealthFactor_eq_or (counts k) with hfactor | hfactor
  · rw [hfactor]
  · rw [hfactor]
    exact effectiveLimit_half_le _

/--
From an absent key, the run with the larger limits has allowed at least as many
calls after every prefix; so a health factor never lets more requests through.
-/
theorem larger_limits_allow_more (redis : Redis) (key : String)
    (habsent : redis key = none) :
    (∀ calls calls' : ℕ → CheckCall,
      (∀ k, (calls k).now = (calls' k).now) →
      (∀ k, (calls k).limit ≤ (calls' k).limit) →
      ∀ n, allowedCount redis key calls 0 n ≤
        allowedCount redis key calls' 0 n) ∧
    ∀ (baseLimit : ℕ → Int) (counts : ℕ → Option (Nat × Nat))
      (now : ℕ → Int) (n : ℕ),
      allowedCount redis key
          (scaledCalls baseLimit (fun k => getHealthFactor (counts k)) now)
          0 n ≤
        allowedCount redis key
          (scaledCalls baseLimit (fun _ => 1) now) 0 n := by
  constructor
  · intro calls calls' hnow hlimit n
    exact allowedCount_le_allowedCount habsent hnow hlimit n
  · intro baseLimit counts now n
    have hnow : ∀ k,
        (scaledCalls baseLimit (fun j => getHealthFactor (counts j))
          now k).now = (scaledCalls baseLimit (fun _ => 1) now k).now :=
      fun _ => rfl
    exact allowedCount_le_allowedCount habsent hnow
      (scaledCalls_limit_le baseLimit counts now) n

def secondUnder (limit : Int) : ℕ → CheckCall :=
  scaledCalls
    (fun
      | 0 => 1
      | 1 => limit
      | _ => 2)
    (fun _ => 1)
    (fun
      | 0 => 0
      | 1 => 30
      | _ => 45)

theorem secondUnder_limit_le (k : ℕ) :
    (secondUnder 1 k).limit ≤ (secondUnder 2 k).limit := by
  rcases k with _ | _ | k
  · exact le_rfl
  · decide +kernel
  · exact le_rfl

theorem larger_limits_allow_more_secondUnder :
    (resultOf Redis.empty "user:alice" (secondUnder 1) 2).allowed = true ∧
      (resultOf Redis.empty "user:alice" (secondUnder 2) 2).allowed = false ∧
      allowedCount Redis.empty "user:alice" (secondUnder 1) 0 3 ≤
        allowedCount Redis.empty "user:alice" (secondUnder 2) 0 3 := by
  refine ⟨by decide +kernel, by decide +kernel, ?_⟩
  exact (larger_limits_allow_more Redis.empty "user:alice" rfl).1
    (secondUnder 1) (secondUnder 2) (fun _ => rfl) secondUnder_limit_le 3

end RateLimitedGateway.Services
