import RateLimitedGateway.Foundation.Rounding
import RateLimitedGateway.Infra.RateLimiter.Promises

/-!
# The token count on its way through text

The script stores its count as a text, which has fourteen significant digits,
and reads the text back at the next call.  Whether a digit can get lost depends
on the limit: on the fractions that a second refills, and on the number of
digits that they leave for the whole tokens.
-/

namespace RateLimitedGateway.Infra

open RateLimitedGateway.Foundation

/-- Lua's `tostring` of a number, as the number that the text denotes. -/
def tostring (number : ℚ) : ℚ := roundSignificant 10 14 number

namespace RedisRateLimiter

section Run

variable (store : ℚ → ℚ) (redis : Redis) (key : String) (limit : Int)
  (readings : ℕ → Int)

/-- The database before call `n`, with counts that are read back by `store`. -/
def redisStoring : ℕ → Redis
  | 0 => redis
  | n + 1 =>
      let before := redisStoring n
      let run := execute before key limit windowSeconds (readings n)
      before.set key
        ⟨{ run.bucket with tokens := store run.bucket.tokens }, run.ttl⟩

def allowedStoring (n : ℕ) : Bool :=
  (execute (redisStoring store redis key limit readings n) key limit
    windowSeconds (readings n)).reply.allowed ≠ 0

def refilled (n : ℕ) (stored : ℚ) : ℚ :=
  min (stored + max 0 ((readings n : ℚ) - readings (n - 1)) *
    (limit / windowSeconds)) limit

def spend (current : ℚ) : ℚ := current - if 1 ≤ current then 1 else 0

def storedCount : ℕ → ℚ
  | 0 => limit
  | n + 1 => store (spend (refilled limit readings n (storedCount n)))

def found (n : ℕ) : ℚ :=
  refilled limit readings n (storedCount store limit readings n)

end Run

def SameDecisions (limit : Int) : Prop :=
  ∀ (redis : Redis) (key : String) (readings : ℕ → Int), redis key = none →
    (∀ k, readings k ≤ readings (k + 1)) → ∀ n,
      allowedStoring tostring redis key limit readings n =
        allowedStoring id redis key limit readings n

/-! ## The count that a call finds -/

section Run

variable {store : ℚ → ℚ} {redis : Redis} {key : String} {limit : Int}
  {readings : ℕ → Int}

theorem redisStoring_id (hlimit : 0 < limit) (n : ℕ) :
    redisStoring id redis key limit readings n =
      redisBefore redis key (fun k => ⟨limit, readings k, hlimit⟩) n := by
  induction n with
  | zero => rfl
  | succ n ih => rw [redisStoring, ih]; rfl

theorem allowedStoring_id (hlimit : 0 < limit) (n : ℕ) :
    allowedStoring id redis key limit readings n =
      (resultOf redis key
        (fun k => ⟨limit, readings k, hlimit⟩) n).allowed := by
  rw [allowedStoring, redisStoring_id hlimit]
  rfl

theorem execute_bucket (redis : Redis) (key : String) (limit now : Int) :
    (execute redis key limit windowSeconds now).bucket =
      ⟨spend (currentTokens ((redis key).map StoredBucket.bucket) limit
        (limit / windowSeconds : ℚ) now), now⟩ := by
  rw [execute, tokenBucketScript_bucket, spend]

theorem currentTokens_redisStoring (habsent : redis key = none) (n : ℕ) :
    currentTokens
        ((redisStoring store redis key limit readings n key).map
          StoredBucket.bucket)
        limit (limit / windowSeconds : ℚ) (readings n) =
      found store limit readings n := by
  induction n with
  | zero =>
      simp [redisStoring, habsent, currentTokens_none, found, refilled,
        storedCount]
  | succ n ih =>
      simp only [redisStoring, Redis.set_same, Option.map_some,
        currentTokens_some, execute_bucket, ih]
      rfl

theorem allowedStoring_iff (habsent : redis key = none) (n : ℕ) :
    allowedStoring store redis key limit readings n = true ↔
      1 ≤ found store limit readings n := by
  rw [allowedStoring, decide_eq_true_eq, execute, tokenBucketScript_allowed,
    currentTokens_redisStoring habsent]

theorem sameDecisions_iff :
    SameDecisions limit ↔ ∀ readings : ℕ → Int,
      (∀ k, readings k ≤ readings (k + 1)) → ∀ n,
        (1 ≤ found tostring limit readings n ↔
          1 ≤ found id limit readings n) := by
  constructor
  · intro hsame readings hclock n
    have h := hsame Redis.empty "" readings rfl hclock n
    rw [Bool.eq_iff_iff, allowedStoring_iff rfl, allowedStoring_iff rfl] at h
    exact h
  · intro hsame redis key readings habsent hclock n
    rw [Bool.eq_iff_iff, allowedStoring_iff habsent,
      allowedStoring_iff habsent]
    exact hsame readings hclock n

/-! ## Several calls in one second -/

theorem spend_of_one_le {current : ℚ} (hone : 1 ≤ current) :
    spend current = current - 1 := by
  rw [spend, if_pos hone]

theorem spend_of_lt_one {current : ℚ} (hlt : current < 1) :
    spend current = current := by
  rw [spend, if_neg (not_le.mpr hlt), sub_zero]

theorem found_of_same_reading {n : ℕ}
    (hsame : readings n = readings (n - 1))
    (hle : storedCount store limit readings n ≤ limit) :
    found store limit readings n = storedCount store limit readings n := by
  rw [found, refilled, hsame, sub_self, max_self, zero_mul, add_zero]
  exact min_eq_left hle

theorem storedCount_succ (n : ℕ) :
    storedCount store limit readings (n + 1) =
      store (spend (found store limit readings n)) := rfl

theorem storedCount_burst {n k : ℕ} {rest : ℚ}
    (hcount : storedCount store limit readings n = k + rest)
    (hrest : 0 ≤ rest) (hle : k + rest ≤ limit)
    (hsame : ∀ i < k, readings (n + i) = readings (n + i - 1))
    (hkept : ∀ m < k, store (m + rest) = m + rest) :
    storedCount store limit readings (n + k) = rest := by
  induction k generalizing n with
  | zero => simpa using hcount
  | succ k ih =>
      have hk : (0 : ℚ) ≤ k := Nat.cast_nonneg k
      have hnext : storedCount store limit readings (n + 1) = k + rest := by
        have hfound := found_of_same_reading (hsame 0 (by omega))
          (hcount.trans_le hle)
        have hspend : (((k + 1 : ℕ) : ℚ) + rest) - 1 = k + rest := by
          push_cast
          ring
        push_cast at hcount hspend
        rw [storedCount_succ, ← add_zero n, hfound, add_zero, hcount,
          spend_of_one_le (by linarith), hspend, hkept k (by omega)]
      push_cast at hle
      have hlast := ih hnext (by linarith)
        (fun i hi => by
          have h := hsame (i + 1) (by omega)
          rwa [← add_assoc, add_right_comm] at h)
        (fun m hm => hkept m (by omega))
      rwa [add_right_comm, add_assoc] at hlast

theorem windowSeconds_cast : (windowSeconds : ℚ) = 60 := rfl

theorem refill_eq {seconds tokens part : ℕ} {limit : ℕ}
    (h : seconds * limit = 60 * tokens + part) :
    (seconds : ℚ) * (limit / windowSeconds) = tokens + part / 60 := by
  have h' : (seconds : ℚ) * limit = 60 * tokens + part := by exact_mod_cast h
  rw [windowSeconds_cast, ← mul_div_assoc, h']
  ring

/-! ## Counts that the text keeps -/

def HasDigits (digits : ℕ) (x : ℚ) : Prop :=
  ∃ m : ℕ, x = m / 10 ^ digits

theorem HasDigits.nonneg {digits : ℕ} {x : ℚ} (hx : HasDigits digits x) :
    0 ≤ x := by
  obtain ⟨m, rfl⟩ := hx
  positivity

theorem hasDigits_natCast (digits n : ℕ) : HasDigits digits n := by
  refine ⟨n * 10 ^ digits, ?_⟩
  push_cast
  rw [mul_div_cancel_right₀]
  positivity

theorem HasDigits.add {digits : ℕ} {x y : ℚ} (hx : HasDigits digits x)
    (hy : HasDigits digits y) : HasDigits digits (x + y) := by
  obtain ⟨m, rfl⟩ := hx
  obtain ⟨n, rfl⟩ := hy
  refine ⟨m + n, ?_⟩
  push_cast
  rw [add_div]

theorem HasDigits.natCast_mul {digits : ℕ} {x : ℚ} (hx : HasDigits digits x)
    (n : ℕ) : HasDigits digits (n * x) := by
  obtain ⟨m, rfl⟩ := hx
  refine ⟨n * m, ?_⟩
  push_cast
  rw [mul_div_assoc]

theorem HasDigits.sub_natCast {digits : ℕ} {x : ℚ} (hx : HasDigits digits x)
    {n : ℕ} (hn : (n : ℚ) ≤ x) : HasDigits digits (x - n) := by
  obtain ⟨m, rfl⟩ := hx
  have hscale : (0 : ℚ) < 10 ^ digits := by positivity
  have hle : n * 10 ^ digits ≤ m := by
    rw [le_div_iff₀ hscale] at hn
    exact_mod_cast hn
  refine ⟨m - n * 10 ^ digits, ?_⟩
  rw [Nat.cast_sub hle]
  push_cast
  rw [sub_div, mul_div_cancel_right₀ _ hscale.ne']

theorem HasDigits.spend {digits : ℕ} {x : ℚ} (hx : HasDigits digits x) :
    HasDigits digits (spend x) := by
  rcases le_or_gt 1 x with hone | hlt
  · rw [spend_of_one_le hone]
    exact_mod_cast hx.sub_natCast (n := 1) (by exact_mod_cast hone)
  · rwa [spend_of_lt_one hlt]

theorem HasDigits.tostring_eq {digits : ℕ} {x : ℚ} (hx : HasDigits digits x)
    (hdigits : digits ≤ 14) (hle : x ≤ 10 ^ (14 - digits)) :
    tostring x = x := by
  obtain ⟨m, rfl⟩ := hx
  have hscale : (0 : ℚ) < 10 ^ digits := by positivity
  have hm : m ≤ 10 ^ 14 := by
    rw [div_le_iff₀ hscale, ← pow_add, Nat.sub_add_cancel hdigits] at hle
    exact_mod_cast hle
  have hkept : roundSignificant 10 14 (m / (10 : ℕ) ^ digits) =
      m / (10 : ℕ) ^ digits :=
    roundSignificant_of_digits (by decide) (by decide) hm
  exact_mod_cast hkept

theorem hasDigits_refilled {digits : ℕ} (hlimit : 0 < limit)
    (hrate : HasDigits digits (limit / windowSeconds : ℚ)) (n : ℕ) {x : ℚ}
    (hx : HasDigits digits x) :
    HasDigits digits (refilled limit readings n x) := by
  have hcap : HasDigits digits limit := by
    have h := hasDigits_natCast digits limit.toNat
    rwa [← Int.cast_natCast, Int.toNat_of_nonneg hlimit.le] at h
  have helapsed : max 0 ((readings n : ℚ) - readings (n - 1)) =
      ((readings n - readings (n - 1)).toNat : ℚ) := by
    rw [← Int.cast_natCast, Int.toNat_eq_max, max_comm]
    push_cast
    rfl
  rw [refilled, helapsed]
  rcases min_choice (x + ((readings n - readings (n - 1)).toNat : ℚ) *
    (limit / windowSeconds)) limit with hmin | hmin
  · rw [hmin]
    exact hx.add (hrate.natCast_mul _)
  · rwa [hmin]

theorem spend_found_le (n : ℕ) :
    spend (found store limit readings n) ≤ max 1 (limit - 1 : ℚ) := by
  rcases le_or_gt 1 (found store limit readings n) with hone | hlt
  · rw [spend_of_one_le hone]
    have hle : found store limit readings n ≤ limit := min_le_right _ _
    exact le_max_of_le_right (by linarith)
  · rw [spend_of_lt_one hlt]
    exact le_max_of_le_left hlt.le

theorem found_tostring_eq {digits : ℕ} (hdigits : digits ≤ 14)
    (hlimit : 0 < limit) (hrate : HasDigits digits (limit / windowSeconds : ℚ))
    (hroom : (limit : ℚ) - 1 ≤ 10 ^ (14 - digits)) (n : ℕ) :
    found tostring limit readings n = found id limit readings n := by
  have hcount : HasDigits digits (storedCount id limit readings n) ∧
      storedCount tostring limit readings n =
        storedCount id limit readings n := by
    induction n with
    | zero =>
        have h := hasDigits_natCast digits limit.toNat
        rw [← Int.cast_natCast, Int.toNat_of_nonneg hlimit.le] at h
        exact ⟨h, rfl⟩
    | succ n ih =>
        obtain ⟨hstored, hsame⟩ := ih
        have hnext : HasDigits digits (spend (found id limit readings n)) :=
          (hasDigits_refilled hlimit hrate n hstored).spend
        have hle : spend (found id limit readings n) ≤ 10 ^ (14 - digits) :=
          (spend_found_le n).trans
            (max_le (one_le_pow₀ (by norm_num)) hroom)
        refine ⟨hnext, ?_⟩
        rw [storedCount, hsame]
        exact hnext.tostring_eq hdigits hle
  rw [found, found, hcount.2]

end Run

/--
The digits of a second's refill after the point, none, one or two of them, leave
room enough for the whole tokens.
-/
def TextFits (limit : Int) : Prop :=
  60 ∣ limit ∧ limit ≤ 10 ^ 14 + 1 ∨ 6 ∣ limit ∧ limit ≤ 10 ^ 13 + 1 ∨
    3 ∣ limit ∧ limit ≤ 10 ^ 12 + 1

theorem hasDigits_rate {limit : Int} (hlimit : 0 < limit) {digits : ℕ}
    (hdvd : 60 ∣ 10 ^ digits * limit) :
    HasDigits digits (limit / windowSeconds : ℚ) := by
  obtain ⟨quotient, hquotient⟩ := hdvd
  have hscale : (0 : Int) < 10 ^ digits := by positivity
  have hnonneg : 0 ≤ quotient := by
    have : 0 < 60 * quotient := hquotient ▸ mul_pos hscale hlimit
    omega
  refine ⟨quotient.toNat, ?_⟩
  have hcast : (10 ^ digits * limit : ℚ) = 60 * quotient := by
    exact_mod_cast hquotient
  rw [← Int.cast_natCast, Int.toNat_of_nonneg hnonneg]
  rw [windowSeconds_cast, div_eq_div_iff (by norm_num) (by positivity)]
  linarith

theorem TextFits.sameDecisions {limit : Int} (hfits : TextFits limit)
    (hlimit : 0 < limit) : SameDecisions limit := by
  rw [sameDecisions_iff]
  intro readings _ n
  obtain ⟨digits, hdigits, hdvd, hroom⟩ : ∃ digits : ℕ, digits ≤ 14 ∧
      60 ∣ 10 ^ digits * limit ∧ limit ≤ 10 ^ (14 - digits) + 1 := by
    rcases hfits with ⟨hdvd, hroom⟩ | ⟨hdvd, hroom⟩ | ⟨hdvd, hroom⟩
    · exact ⟨0, by omega, by omega, by omega⟩
    · exact ⟨1, by omega, by omega, by omega⟩
    · exact ⟨2, by omega, by omega, by omega⟩
  have hroom' : (limit : ℚ) - 1 ≤ 10 ^ (14 - digits) := by
    rw [sub_le_iff_le_add]
    exact_mod_cast hroom
  rw [found_tostring_eq hdigits hlimit (hasDigits_rate hlimit hdvd) hroom' n]

end RedisRateLimiter

end RateLimitedGateway.Infra
