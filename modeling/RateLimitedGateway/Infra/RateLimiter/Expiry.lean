import RateLimitedGateway.Infra.RateLimiter.Promises

/-!
# Keys that expire

Every execution gives its key the time that fills a bucket, and a minute more.
A key that Redis deletes in the meantime held a bucket that the next execution
would have found full, whatever limit it brings, and an absent key is taken for
a full bucket.  So no caller can tell that a key has expired.
-/

namespace RateLimitedGateway.Infra

namespace RedisRateLimiter

section Run

variable (redis : Redis) (key : String) (calls : ℕ → CheckCall)
  (delivery : ℕ → Delivery) (expires : ℕ → Bool)

def redisExpiring : ℕ → Redis
  | 0 => redis
  | n + 1 =>
      let after := (check (redisExpiring n) (delivery n) key (calls n).limit
        windowSeconds (calls n).now).2
      if expires n then after.erase key else after

def resultExpiring (n : ℕ) : LimitResult :=
  (check (redisExpiring redis key calls delivery expires n) (delivery n) key
    (calls n).limit windowSeconds (calls n).now).1

def NextExecution (n m : ℕ) : Prop :=
  n ≤ m ∧ delivery m ≠ .failsBefore ∧
    ∀ k, n ≤ k → k < m → delivery k = .failsBefore

/--
No key is deleted before its time has elapsed, by clocks of which the one that
reads the end of the gap may be a minute behind.
-/
def ExpiresAfterTtl : Prop :=
  ∀ n, expires n = true → ∀ stored,
    (check (redisExpiring redis key calls delivery expires n) (delivery n) key
      (calls n).limit windowSeconds (calls n).now).2 key = some stored →
    ∀ m, NextExecution delivery (n + 1) m →
      stored.bucket.lastRefill + stored.ttl - 60 ≤ (calls m).now

end Run

variable {redis : Redis} {key : String} {calls : ℕ → CheckCall}
  {delivery : ℕ → Delivery} {expires : ℕ → Bool}

theorem redisExpiring_reachable (hreach : Reachable redis) (n : ℕ) :
    Reachable (redisExpiring redis key calls delivery expires n) := by
  induction n with
  | zero => exact hreach
  | succ n ih =>
      have hafter := ih.check (delivery n) key (calls n).limit_pos (calls n).now
      simp only [redisExpiring]
      split
      · exact hafter.expire key
      · exact hafter

/-! ## A rested bucket is a full one -/

def Rested (redis : Redis) (key : String) (now : Int) : Prop :=
  ∀ stored, redis key = some stored → 0 ≤ stored.bucket.tokens ∧
    stored.bucket.lastRefill + 60 ≤ now

theorem currentTokens_of_rested {now : Int} (hrested : Rested redis key now)
    {limit : Int} (hlimit : 0 < limit) :
    currentTokens ((redis key).map StoredBucket.bucket) limit
      (limit / windowSeconds : ℚ) now = limit := by
  cases hfound : redis key with
  | none => exact currentTokens_none _ _ _
  | some stored =>
      obtain ⟨htokens, hlong⟩ := hrested stored hfound
      have hminute : (60 : ℚ) ≤ (now : ℚ) - stored.bucket.lastRefill := by
        have : 60 ≤ now - stored.bucket.lastRefill := by omega
        exact_mod_cast this
      have hrefill :
          (limit : ℚ) ≤ ((now : ℚ) - stored.bucket.lastRefill) *
            (limit / windowSeconds) := by
        calc
          (limit : ℚ) = 60 * (limit / windowSeconds) :=
            (mul_div_cancel₀ _ (by norm_num)).symm
          _ ≤ _ := mul_le_mul_of_nonneg_right hminute (rate_pos hlimit).le
      rw [Option.map_some, currentTokens_some,
        max_eq_right (by linarith)]
      exact min_eq_right (by linarith)

theorem execute_congr {other : Redis} {limit now : Int}
    (hsame : currentTokens ((redis key).map StoredBucket.bucket) limit
        (limit / windowSeconds : ℚ) now =
      currentTokens ((other key).map StoredBucket.bucket) limit
        (limit / windowSeconds : ℚ) now) :
    execute redis key limit windowSeconds now =
      execute other key limit windowSeconds now := by
  simp only [execute, tokenBucketScript, hsame]

/-! ## The two runs -/

/-- Either both runs know the same bucket, or only one does and it is rested. -/
def InStep (lost kept : Redis) (key : String) (calls : ℕ → CheckCall)
    (delivery : ℕ → Delivery) (n : ℕ) : Prop :=
  lost key = kept key ∨ lost key = none ∧
    ∀ m, NextExecution delivery n m → Rested kept key (calls m).now

theorem InStep.execute {lost kept : Redis} {n : ℕ}
    (hstep : InStep lost kept key calls delivery n)
    (hexecuted : delivery n ≠ .failsBefore) :
    execute lost key (calls n).limit windowSeconds (calls n).now =
      execute kept key (calls n).limit windowSeconds (calls n).now := by
  apply execute_congr
  obtain hsame | ⟨habsent, hrested⟩ := hstep
  · rw [hsame]
  · have hnow : Rested kept key (calls n).now := by
      apply hrested n
      refine ⟨le_rfl, hexecuted, ?_⟩
      intro k hle hlt
      omega
    have hlost : Rested lost key (calls n).now := by
      intro stored hfound
      rw [habsent] at hfound
      cases hfound
    rw [currentTokens_of_rested hnow (calls n).limit_pos,
      currentTokens_of_rested hlost (calls n).limit_pos]

theorem InStep.result {lost kept : Redis} {n : ℕ}
    (hstep : InStep lost kept key calls delivery n) :
    (check lost (delivery n) key (calls n).limit windowSeconds
        (calls n).now).1 =
      (check kept (delivery n) key (calls n).limit windowSeconds
        (calls n).now).1 := by
  cases hdelivery : delivery n with
  | failsBefore => rfl
  | failsAfter => rfl
  | completes =>
      have hsame := hstep.execute (by simp [hdelivery])
      simp only [check, hsame]

theorem InStep.check {lost kept : Redis} {n : ℕ}
    (hstep : InStep lost kept key calls delivery n) :
    InStep
      (check lost (delivery n) key (calls n).limit windowSeconds
        (calls n).now).2
      (check kept (delivery n) key (calls n).limit windowSeconds
        (calls n).now).2
      key calls delivery (n + 1) := by
  by_cases hexecuted : delivery n = .failsBefore
  · rw [check_redis, check_redis, if_pos hexecuted, if_pos hexecuted]
    refine hstep.imp_right (And.imp_right ?_)
    intro hrested m ⟨hle, hnext, hbetween⟩
    refine hrested m ⟨by omega, hnext, ?_⟩
    intro k hk hlt
    rcases hk.eq_or_lt with rfl | hk
    · exact hexecuted
    · exact hbetween k hk hlt
  · left
    rw [check_redis, check_redis, if_neg hexecuted, if_neg hexecuted,
      hstep.execute hexecuted]
    simp

theorem inStep (hreach : Reachable redis)
    (hexpires : ExpiresAfterTtl redis key calls delivery expires) (n : ℕ) :
    InStep (redisExpiring redis key calls delivery expires n)
      (redisExpiring redis key calls delivery (fun _ => false) n)
      key calls delivery n := by
  induction n with
  | zero => exact Or.inl rfl
  | succ n ih =>
      have hboth := ih.check
      have hbefore : Reachable
          (redisExpiring redis key calls delivery expires n) :=
        redisExpiring_reachable hreach n
      have hlost := hbefore.check (delivery n) key (calls n).limit_pos
        (calls n).now
      simp only [redisExpiring, Bool.false_eq_true, if_false]
      cases hexpired : expires n with
      | false => exact hboth
      | true =>
          right
          refine ⟨Redis.erase_same _ _, ?_⟩
          intro m hnext stored hfound
          obtain hsame | ⟨-, hrested⟩ := hboth
          · rw [← hsame] at hfound
            obtain ⟨htokens, httl⟩ := hlost.stored hfound
            have hgap := hexpires n hexpired stored hfound m hnext
            refine ⟨htokens, ?_⟩
            omega
          · exact hrested m hnext stored hfound

/-- Two runs, one of which loses the key time and again: no result differs. -/
theorem resultExpiring_eq (hreach : Reachable redis)
    (hexpires : ExpiresAfterTtl redis key calls delivery expires) (n : ℕ) :
    resultExpiring redis key calls delivery expires n =
      resultExpiring redis key calls delivery (fun _ => false) n :=
  (inStep hreach hexpires n).result

def growing : ℕ → CheckCall :=
  fun n =>
    { limit := (n + 1 : ℕ), now := 60 * n
      limit_pos := Int.natCast_succ_pos n }

theorem resultExpiring_eq_growing :
    resultExpiring Redis.empty "user:alice" growing (fun _ => .completes)
        (fun n => n == 0) 1 =
      resultExpiring Redis.empty "user:alice" growing (fun _ => .completes)
        (fun _ => false) 1 := by
  refine resultExpiring_eq .empty ?_ 1
  rintro n hn stored hfound m ⟨hle, -, hbetween⟩
  obtain rfl : n = 0 := by simpa using hn
  obtain rfl : m = 1 := by
    by_contra hne
    cases hbetween 1 le_rfl (by omega)
  have hwritten : (check (redisExpiring Redis.empty "user:alice" growing
      (fun _ => .completes) (fun n => n == 0) 0) .completes "user:alice"
      (growing 0).limit windowSeconds (growing 0).now).2 "user:alice" =
        some ⟨⟨0, 0⟩, 120⟩ := by decide +kernel
  rw [hwritten] at hfound
  cases hfound
  decide

end RedisRateLimiter

end RateLimitedGateway.Infra
