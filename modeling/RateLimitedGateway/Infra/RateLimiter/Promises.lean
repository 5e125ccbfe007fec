import RateLimitedGateway.Infra.RateLimiter.ClockOrder

/-!
# What an answer promises

`Retry-After` and the remaining quota are roundings of a fractional token
count, but callers plan by them.  Both are promises about later calls, and from
every bucket that the limiter can leave behind both are kept to the second and
to the token.
-/

namespace RateLimitedGateway.Infra

namespace Redis

def erase (redis : Redis) (key : String) : Redis :=
  fun other => if other = key then none else redis other

@[simp] theorem erase_same (redis : Redis) (key : String) :
    redis.erase key key = none := by
  simp [erase]

end Redis

namespace RedisRateLimiter

/-! ## The buckets that calls leave behind -/

/-- Calls on any keys, however they are delivered, and keys that expire. -/
inductive Reachable : Redis → Prop
  | empty : Reachable Redis.empty
  | check {redis : Redis} (hreach : Reachable redis) (delivery : Delivery)
      (key : String) {limit : Int} (hlimit : 0 < limit) (now : Int) :
      Reachable (check redis delivery key limit windowSeconds now).2
  | expire {redis : Redis} (hreach : Reachable redis) (key : String) :
      Reachable (redis.erase key)

theorem check_redis (redis : Redis) (delivery : Delivery) (key : String)
    (limit windowSeconds now : Int) :
    (check redis delivery key limit windowSeconds now).2 =
      if delivery = .failsBefore then redis
      else redis.set key
        ⟨(execute redis key limit windowSeconds now).bucket,
          (execute redis key limit windowSeconds now).ttl⟩ := by
  cases delivery <;> rfl

theorem tokenBucketScript_ttl (stored : Option Bucket)
    (capacity refillRate : ℚ) (now : Int) :
    (tokenBucketScript stored capacity refillRate now).ttl =
      ⌈capacity / refillRate⌉ + 60 := by
  unfold tokenBucketScript
  by_cases h : 1 ≤ currentTokens stored capacity refillRate now <;> simp [h]

theorem execute_ttl (redis : Redis) (key : String) {limit : Int}
    (hlimit : 0 < limit) (now : Int) :
    (execute redis key limit windowSeconds now).ttl = 120 := by
  have hne : (limit : ℚ) ≠ 0 := by exact_mod_cast hlimit.ne'
  have hwindow : (limit : ℚ) / (limit / windowSeconds) = (60 : ℤ) := by
    rw [div_div_cancel₀ hne]
    rfl
  rw [execute, tokenBucketScript_ttl, hwindow, Int.ceil_intCast]
  rfl

theorem currentTokens_nonneg {stored : Option Bucket}
    (hstored : ∀ bucket, stored = some bucket → 0 ≤ bucket.tokens)
    {capacity refillRate : ℚ} (hcapacity : 0 ≤ capacity)
    (hrate : 0 ≤ refillRate) (now : Int) :
    0 ≤ currentTokens stored capacity refillRate now := by
  cases stored with
  | none => rwa [currentTokens_none]
  | some bucket =>
      rw [currentTokens_some]
      have htokens := hstored bucket rfl
      have hrefill : 0 ≤ max 0 ((now : ℚ) - bucket.lastRefill) * refillRate :=
        mul_nonneg (le_max_left _ _) hrate
      exact le_min (add_nonneg htokens hrefill) hcapacity

theorem tokenBucketScript_tokens_nonneg {stored : Option Bucket}
    (hstored : ∀ bucket, stored = some bucket → 0 ≤ bucket.tokens)
    {capacity refillRate : ℚ} (hcapacity : 0 ≤ capacity)
    (hrate : 0 ≤ refillRate) (now : Int) :
    0 ≤ (tokenBucketScript stored capacity refillRate now).bucket.tokens := by
  have hcurrent := currentTokens_nonneg hstored hcapacity hrate now
  rw [tokenBucketScript_bucket]
  dsimp only
  split
  · next hone => exact sub_nonneg.mpr hone
  · rwa [sub_zero]

theorem limit_nonneg {limit : Int} (hlimit : 0 < limit) : (0 : ℚ) ≤ limit := by
  exact_mod_cast hlimit.le

theorem rate_pos {limit : Int} (hlimit : 0 < limit) :
    (0 : ℚ) < limit / windowSeconds := by
  have hcast : (0 : ℚ) < limit := by exact_mod_cast hlimit
  exact div_pos hcast (by norm_num [windowSeconds])

namespace Reachable

theorem stored {redis : Redis} (hreach : Reachable redis) {key : String}
    {stored : StoredBucket} (hfound : redis key = some stored) :
    0 ≤ stored.bucket.tokens ∧ stored.ttl = 120 := by
  induction hreach generalizing key stored with
  | empty => exact absurd hfound (by simp [Redis.empty])
  | @check redis _ delivery written limit hlimit now ih =>
      rw [check_redis] at hfound
      split at hfound
      · exact ih hfound
      · simp only [Redis.set] at hfound
        split at hfound
        · obtain rfl := Option.some.inj hfound
          refine ⟨?_, execute_ttl _ _ hlimit _⟩
          apply tokenBucketScript_tokens_nonneg _ (limit_nonneg hlimit)
            (rate_pos hlimit).le
          intro bucket hbucket
          obtain ⟨found, hfound, rfl⟩ := Option.map_eq_some_iff.mp hbucket
          exact (ih hfound).1
        · exact ih hfound
  | expire _ erased ih =>
      simp only [Redis.erase] at hfound
      split at hfound
      · cases hfound
      · exact ih hfound

theorem currentTokens_nonneg {redis : Redis} (hreach : Reachable redis)
    (key : String) {limit : Int} (hlimit : 0 < limit) (now : Int) :
    0 ≤ currentTokens ((redis key).map StoredBucket.bucket) limit
      (limit / windowSeconds : ℚ) now := by
  apply RedisRateLimiter.currentTokens_nonneg _ (limit_nonneg hlimit)
    (rate_pos hlimit).le
  intro bucket hbucket
  obtain ⟨found, hfound, rfl⟩ := Option.map_eq_some_iff.mp hbucket
  exact (hreach.stored hfound).1

end Reachable

/-! ## Answers as roundings of the tokens found -/

section Answers

variable (redis : Redis) (key : String) (calls : ℕ → CheckCall) (n : ℕ)

theorem resultOf_denied_iff :
    (resultOf redis key calls n).allowed = false ↔
      tokensAt redis key calls n < 1 := by
  rw [← Bool.not_eq_true, resultOf_allowed_iff, not_le]

theorem resultOf_remaining (hone : 1 ≤ tokensAt redis key calls n) :
    (resultOf redis key calls n).remaining =
      ⌊tokensAt redis key calls n - 1⌋ := by
  unfold tokensAt at hone
  simp [resultOf, check, execute, tokenBucketScript, hone, tokensAt]

theorem resultOf_retryAfter (hone : tokensAt redis key calls n < 1) :
    (resultOf redis key calls n).retryAfter =
      ⌈(1 - tokensAt redis key calls n) /
        ((calls n).limit / windowSeconds : ℚ)⌉ := by
  unfold tokensAt at hone
  simp [resultOf, check, execute, tokenBucketScript, hone.not_ge, tokensAt]

end Answers

/-! ## Retry-After -/

section FixedLimit

variable {redis : Redis} {key : String} {limit : Int} {hlimit : 0 < limit}
  {readings : ℕ → Int}

theorem refillAt_fixedLimit (hclock : ∀ k, readings k ≤ readings (k + 1))
    (n : ℕ) :
    refillAt (fixedLimit limit hlimit readings) (n + 1) =
      ((readings (n + 1) : ℚ) - readings n) * (limit / windowSeconds) := by
  have hstep : (readings n : ℚ) ≤ readings (n + 1) := by
    exact_mod_cast hclock n
  simp only [refillAt, fixedLimit, Nat.add_sub_cancel]
  rw [max_eq_right (sub_nonneg.mpr hstep)]

theorem tokensAt_after_denials
    (hclock : ∀ k, readings k ≤ readings (k + 1)) {n : ℕ}
    (hdenied : ∀ k < n,
      tokensAt redis key (fixedLimit limit hlimit readings) k < 1) :
    tokensAt redis key (fixedLimit limit hlimit readings) n =
      min (tokensAt redis key (fixedLimit limit hlimit readings) 0 +
        ((readings n : ℚ) - readings 0) * (limit / windowSeconds)) limit := by
  induction n with
  | zero =>
      rw [sub_self, zero_mul, add_zero, eq_comm]
      exact min_eq_left (tokensAt_le_limit _ _ _ 0)
  | succ n ih =>
      have hlast := hdenied n (Nat.lt_succ_self n)
      have hstep : (readings n : ℚ) ≤ readings (n + 1) := by
        exact_mod_cast hclock n
      have hgain : 0 ≤
          ((readings (n + 1) : ℚ) - readings n) * (limit / windowSeconds) :=
        mul_nonneg (sub_nonneg.mpr hstep) (rate_pos hlimit).le
      rw [tokensAt_succ, spentAt_eq, if_neg hlast.not_ge, sub_zero,
        ih fun k hk => hdenied k (Nat.lt_succ_of_lt hk),
        refillAt_fixedLimit hclock, min_add, min_assoc]
      congr 1
      · ring
      · exact min_eq_right (le_add_of_nonneg_right hgain)

theorem tokensAt_lt_one_of_early
    (hclock : ∀ k, readings k ≤ readings (k + 1)) {wait : Int}
    (hwait : ((wait : ℚ) - 1) * (limit / windowSeconds) <
      1 - tokensAt redis key (fixedLimit limit hlimit readings) 0) {n : ℕ}
    (hearly : readings n < readings 0 + wait) :
    tokensAt redis key (fixedLimit limit hlimit readings) n < 1 := by
  induction n using Nat.strong_induction_on with
  | _ n ih =>
      have hdenied : ∀ k < n,
          tokensAt redis key (fixedLimit limit hlimit readings) k < 1 := by
        intro k hk
        have hearlier := monotone_nat_of_le_succ hclock hk.le
        exact ih k hk (hearlier.trans_lt hearly)
      have hseconds : (readings n : ℚ) - readings 0 ≤ wait - 1 := by
        have : readings n - readings 0 ≤ wait - 1 := by omega
        exact_mod_cast this
      have hrefill := mul_le_mul_of_nonneg_right hseconds (rate_pos hlimit).le
      rw [tokensAt_after_denials hclock hdenied]
      apply min_lt_of_left_lt
      linarith

/--
A denied call learns when to come back: whatever calls come in between, each
one before that second is denied, and the first one from it on is allowed.
-/
theorem retryAfter_exact (hreach : Reachable redis)
    (hclock : ∀ k, readings k ≤ readings (k + 1)) {retryAfter : Int}
    (hdenied : (resultOf redis key
      (fixedLimit limit hlimit readings) 0).allowed = false)
    (hanswer : (resultOf redis key
      (fixedLimit limit hlimit readings) 0).retryAfter = retryAfter) :
    1 ≤ retryAfter ∧ retryAfter ≤ ⌈(60 / limit : ℚ)⌉ ∧
      (∀ n, readings n < readings 0 + retryAfter → (resultOf redis key
        (fixedLimit limit hlimit readings) n).allowed = false) ∧
      ∀ n, readings 0 + retryAfter ≤ readings n →
        (∀ k < n, readings k < readings 0 + retryAfter) →
        (resultOf redis key
          (fixedLimit limit hlimit readings) n).allowed = true := by
  have hrate := rate_pos hlimit
  have hlow : 0 ≤ tokensAt redis key (fixedLimit limit hlimit readings) 0 :=
    hreach.currentTokens_nonneg key hlimit _
  have hone := (resultOf_denied_iff _ _ _ _).mp hdenied
  have hround : ⌈(1 - tokensAt redis key (fixedLimit limit hlimit readings) 0) /
      (limit / windowSeconds : ℚ)⌉ = retryAfter := by
    rw [← hanswer, resultOf_retryAfter _ _ _ _ hone]
    rfl
  have hless : ((retryAfter : ℚ) - 1) * (limit / windowSeconds) <
      1 - tokensAt redis key (fixedLimit limit hlimit readings) 0 := by
    rw [← lt_div_iff₀ hrate, sub_lt_iff_lt_add, ← hround]
    exact Int.ceil_lt_add_one _
  have henough : 1 - tokensAt redis key (fixedLimit limit hlimit readings) 0 ≤
      retryAfter * (limit / windowSeconds) := by
    rw [← div_le_iff₀ hrate, ← hround]
    exact Int.le_ceil _
  have hearly : ∀ n, readings n < readings 0 + retryAfter →
      tokensAt redis key (fixedLimit limit hlimit readings) n < 1 :=
    fun n => tokensAt_lt_one_of_early hclock hless
  refine ⟨?_, ?_, ?_, ?_⟩
  · rw [← hround]
    exact Int.ceil_pos.mpr (div_pos (sub_pos.mpr hone) hrate)
  · have hsecond : (1 : ℚ) / (limit / windowSeconds) = 60 / limit :=
      one_div_div _ _
    rw [← hround, ← hsecond]
    apply Int.ceil_mono
    apply div_le_div_of_nonneg_right _ hrate.le
    linarith
  · intro n hn
    exact (resultOf_denied_iff _ _ _ _).mpr (hearly n hn)
  · intro n hlate hbefore
    have hseconds : (retryAfter : ℚ) ≤ (readings n : ℚ) - readings 0 := by
      have : retryAfter ≤ readings n - readings 0 := by omega
      exact_mod_cast this
    have hrefill := mul_le_mul_of_nonneg_right hseconds hrate.le
    rw [resultOf_allowed_iff,
      tokensAt_after_denials hclock fun k hk => hearly k (hbefore k hk)]
    apply le_min
    · linarith
    · exact_mod_cast hlimit

def oneSpent : Redis :=
  (check Redis.empty .completes "user:alice" 1 windowSeconds 0).2

theorem retryAfter_exact_oneSpent :
    (∀ n : ℕ, n < 9 → (resultOf oneSpent "user:alice"
        (fixedLimit 1 Int.one_pos fun k => 7 * k) n).allowed = false) ∧
      (resultOf oneSpent "user:alice"
        (fixedLimit 1 Int.one_pos fun k => 7 * k) 9).allowed = true := by
  have hclock : ∀ k : ℕ, (7 * k : Int) ≤ 7 * (k + 1 : ℕ) := by
    intro k
    omega
  obtain ⟨-, -, hearly, hlate⟩ := @retryAfter_exact oneSpent
    "user:alice" 1 Int.one_pos (fun k => 7 * k)
    (.check .empty .completes "user:alice" Int.one_pos 0) hclock 60
    (by decide +kernel) (by decide +kernel)
  constructor
  · intro n hn
    apply hearly
    push_cast
    omega
  · apply hlate
    · norm_num
    · intro k hk
      push_cast
      omega

/-! ## The remaining quota -/

theorem sub_le_tokensAt (n : ℕ) :
    tokensAt redis key (fixedLimit limit hlimit readings) 0 - n ≤
      tokensAt redis key (fixedLimit limit hlimit readings) n := by
  induction n with
  | zero => simp
  | succ n ih =>
      have hspent : spentAt redis key (fixedLimit limit hlimit readings) n ≤
          1 := by
        rw [spentAt_eq]
        split <;> norm_num
      have hgain := refillAt_nonneg (fixedLimit limit hlimit readings) (n + 1)
      have hfull : tokensAt redis key (fixedLimit limit hlimit readings) 0 ≤
          limit := tokensAt_le_limit _ _ _ 0
      rw [tokensAt_succ]
      push_cast
      apply le_min
      · linarith
      · exact (sub_le_self _ (by positivity)).trans hfull

theorem tokensAt_at_once {n : ℕ} (hsame : ∀ k ≤ n, readings k = readings 0)
    (hn : (n : ℚ) ≤
      tokensAt redis key (fixedLimit limit hlimit readings) 0) :
    tokensAt redis key (fixedLimit limit hlimit readings) n =
      tokensAt redis key (fixedLimit limit hlimit readings) 0 - n := by
  induction n with
  | zero => simp
  | succ n ih =>
      push_cast at hn
      have hbefore := ih (fun k hk => hsame k (Nat.le_succ_of_le hk))
        (by linarith)
      have hone : 1 ≤ tokensAt redis key (fixedLimit limit hlimit readings) 0 -
          n := by linarith
      have hgain : refillAt (fixedLimit limit hlimit readings) (n + 1) = 0 := by
        simp [refillAt, fixedLimit, hsame n (Nat.le_succ n),
          hsame (n + 1) le_rfl]
      have hfull : tokensAt redis key (fixedLimit limit hlimit readings) 0 ≤
          limit := tokensAt_le_limit _ _ _ 0
      rw [tokensAt_succ, spentAt_eq, hbefore, if_pos hone, hgain, add_zero,
        sub_sub]
      push_cast
      exact min_eq_left ((sub_le_self _ (by positivity)).trans hfull)

/--
An allowed call learns how many more are certain: so many calls are allowed
whatever the clocks say, and not one more before the clock moves.
-/
theorem remaining_exact {remaining : Int}
    (hallowed : (resultOf redis key
      (fixedLimit limit hlimit readings) 0).allowed = true)
    (hanswer : (resultOf redis key
      (fixedLimit limit hlimit readings) 0).remaining = remaining) :
    0 ≤ remaining ∧ remaining ≤ limit - 1 ∧
      (∀ n : ℕ, n ≤ remaining → (resultOf redis key
        (fixedLimit limit hlimit readings) n).allowed = true) ∧
      ∀ n : ℕ, (∀ k ≤ n, readings k = readings 0) →
        (n ≤ remaining → (resultOf redis key
          (fixedLimit limit hlimit readings) n).remaining = remaining - n) ∧
        (n = remaining + 1 → (resultOf redis key
          (fixedLimit limit hlimit readings) n).allowed = false) := by
  have hone := (resultOf_allowed_iff _ _ _ _).mp hallowed
  have hround :
      ⌊tokensAt redis key (fixedLimit limit hlimit readings) 0 - 1⌋ =
        remaining := by
    rw [← hanswer, resultOf_remaining _ _ _ _ hone]
  have hfull : tokensAt redis key (fixedLimit limit hlimit readings) 0 ≤
      limit := tokensAt_le_limit _ _ _ 0
  have henough : (remaining : ℚ) + 1 ≤
      tokensAt redis key (fixedLimit limit hlimit readings) 0 := by
    rw [← le_sub_iff_add_le, ← hround]
    exact Int.floor_le _
  have hless : tokensAt redis key (fixedLimit limit hlimit readings) 0 <
      remaining + 2 := by
    have := Int.lt_floor_add_one
      (tokensAt redis key (fixedLimit limit hlimit readings) 0 - 1)
    rw [hround] at this
    linarith
  have hleft : ∀ n : ℕ, n ≤ remaining →
      1 ≤ tokensAt redis key (fixedLimit limit hlimit readings) n := by
    intro n hn
    have hcast : (n : ℚ) ≤ remaining := by exact_mod_cast hn
    calc
      1 ≤ tokensAt redis key (fixedLimit limit hlimit readings) 0 - n := by
        linarith
      _ ≤ _ := sub_le_tokensAt n
  refine ⟨?_, ?_, ?_, ?_⟩
  · rw [← hround, Int.floor_nonneg]
    exact sub_nonneg.mpr hone
  · rw [← Int.cast_le (R := ℚ)]
    push_cast
    linarith
  · intro n hn
    exact (resultOf_allowed_iff _ _ _ _).mpr (hleft n hn)
  · intro n hsame
    constructor
    · intro hn
      have hcast : (n : ℚ) ≤ remaining := by exact_mod_cast hn
      rw [resultOf_remaining _ _ _ _ (hleft n hn),
        tokensAt_at_once hsame (by linarith), sub_right_comm, ← hround]
      exact Int.floor_sub_natCast _ _
    · intro hn
      have hcast : (n : ℚ) = remaining + 1 := by exact_mod_cast hn
      rw [resultOf_denied_iff, tokensAt_at_once hsame (by linarith)]
      linarith

theorem remaining_exact_fraction :
    (∀ n : ℕ, n ≤ 1 → (resultOf
        (check Redis.empty .completes "user:alice" 3 windowSeconds 0).2
        "user:alice" (fixedLimit 3 (by decide) fun _ => 10) n).allowed = true) ∧
      (resultOf (check Redis.empty .completes "user:alice" 3 windowSeconds 0).2
        "user:alice" (fixedLimit 3 (by decide) fun _ => 10) 2).allowed =
          false := by
  obtain ⟨-, -, hnext, hsame⟩ := @remaining_exact
    (check Redis.empty .completes "user:alice" 3 windowSeconds 0).2
    "user:alice" 3 (by decide) (fun _ => 10) 1 (by decide +kernel)
    (by decide +kernel)
  constructor
  · intro n hn
    apply hnext
    exact_mod_cast hn
  · exact (hsame 2 fun _ _ => rfl).2 (by norm_num)

end FixedLimit

end RedisRateLimiter

end RateLimitedGateway.Infra
