import RateLimitedGateway.Foundation.KeyedStore
import RateLimitedGateway.Infra.RateLimiter.Persistence

/-!
# The script in doubles

Here every operation of the script is rounded, the arguments are read from texts
and the two fields of the hash are written as texts.  For a limit that fifteen
divides, a second refills a whole number of quarters of a token, and no digit is
lost anywhere: the script with exact numbers is the script that runs.
-/

namespace RateLimitedGateway.Infra

open RateLimitedGateway.Foundation

/-- The fields of a hash, two texts, as the numbers that they denote. -/
structure TextBucket where
  tokens : ℚ
  lastRefill : ℚ
  deriving DecidableEq, Repr

abbrev TextRedis := String → Option (TextBucket × Int)

namespace Lua

def add (x y : ℚ) : ℚ := binary64 (x + y)

def sub (x y : ℚ) : ℚ := binary64 (x - y)

def mul (x y : ℚ) : ℚ := binary64 (x * y)

def div (x y : ℚ) : ℚ := binary64 (x / y)

def tonumber (number : ℚ) : ℚ := binary64 number

structure Run where
  reply : ScriptReply
  bucket : TextBucket
  ttl : Int
  deriving DecidableEq, Repr

def currentTokens (stored : Option TextBucket) (capacity refillRate now : ℚ) :
    ℚ :=
  let tokens := match stored with
    | none => capacity
    | some bucket => tonumber bucket.tokens
  let lastRefill := match stored with
    | none => now
    | some bucket => tonumber bucket.lastRefill
  let elapsed := max 0 (sub now lastRefill)
  let refilled := add tokens (mul elapsed refillRate)
  min refilled capacity

/-- `_TOKEN_BUCKET_LUA`, operation by operation. -/
def tokenBucketScript (stored : Option TextBucket)
    (capacity refillRate now : ℚ) : Run :=
  let current := currentTokens stored capacity refillRate now
  let ttl := ⌊add ⌈div capacity refillRate⌉ 60⌋
  if current ≥ 1 then
    { reply :=
        { allowed := 1, remaining := ⌊sub current 1⌋, retryAfter := 0 }
      bucket :=
        { tokens := tostring (sub current 1), lastRefill := tostring now }
      ttl := ttl }
  else
    let deficit := sub 1 current
    { reply :=
        { allowed := 0, remaining := 0
          retryAfter := ⌈div deficit refillRate⌉ }
      bucket := { tokens := tostring current, lastRefill := tostring now }
      ttl := ttl }

/-- The client divides in doubles, and a double's `repr` reads back as it. -/
def execute (redis : TextRedis) (key : String) (limit windowSeconds now : Int) :
    Run :=
  tokenBucketScript ((redis key).map Prod.fst) (tonumber limit)
    (div limit windowSeconds) (tonumber now)

def check (redis : TextRedis) (delivery : Delivery) (key : String)
    (limit windowSeconds now : Int) : LimitResult × TextRedis :=
  let run := execute redis key limit windowSeconds now
  let after := Function.update redis key (some (run.bucket, run.ttl))
  match delivery with
  | .failsBefore => (RedisRateLimiter.failOpen limit, redis)
  | .failsAfter => (RedisRateLimiter.failOpen limit, after)
  | .completes =>
      ({ allowed := run.reply.allowed ≠ 0, limit := limit,
         remaining := run.reply.remaining, retryAfter := run.reply.retryAfter,
         degraded := false }, after)

/-! ## Quarters -/

def IsQuarters (x : ℚ) : Prop := ∃ m : ℕ, x = m / 4

theorem isQuarters_natCast (n : ℕ) : IsQuarters n :=
  ⟨4 * n, by push_cast; ring⟩

variable {x y : ℚ}

theorem IsQuarters.nonneg (hx : IsQuarters x) : 0 ≤ x := by
  obtain ⟨m, rfl⟩ := hx
  positivity

theorem IsQuarters.add (hx : IsQuarters x) (hy : IsQuarters y) :
    IsQuarters (x + y) := by
  obtain ⟨m, rfl⟩ := hx
  obtain ⟨n, rfl⟩ := hy
  exact ⟨m + n, by push_cast; ring⟩

theorem IsQuarters.natCast_mul (hx : IsQuarters x) (n : ℕ) :
    IsQuarters (n * x) := by
  obtain ⟨m, rfl⟩ := hx
  exact ⟨n * m, by push_cast; ring⟩

theorem IsQuarters.sub (hx : IsQuarters x) (hy : IsQuarters y) (hle : y ≤ x) :
    IsQuarters (x - y) := by
  obtain ⟨m, rfl⟩ := hx
  obtain ⟨n, rfl⟩ := hy
  have hle' : n ≤ m := by
    have := (div_le_div_iff_of_pos_right (by norm_num : (0 : ℚ) < 4)).mp hle
    exact_mod_cast this
  exact ⟨m - n, by rw [Nat.cast_sub hle']; ring⟩

theorem IsQuarters.min (hx : IsQuarters x) (hy : IsQuarters y) :
    IsQuarters (min x y) := by
  rcases min_choice x y with hmin | hmin <;> rwa [hmin]

theorem IsQuarters.binary64_eq (hx : IsQuarters x) (hle : x ≤ 2 ^ 51) :
    binary64 x = x := by
  obtain ⟨m, rfl⟩ := hx
  have hm : m ≤ 2 ^ 53 := by
    rw [div_le_iff₀ (by norm_num)] at hle
    have hle' : (m : ℚ) ≤ 2 ^ 53 := hle.trans (by norm_num)
    exact_mod_cast hle'
  have hkept : binary64 ((m : ℚ) / 2 ^ 2) = m / 2 ^ 2 := binary64_of_digits hm
  norm_num at hkept ⊢
  exact hkept

theorem IsQuarters.tostring_eq (hx : IsQuarters x) (hle : x ≤ 10 ^ 12) :
    tostring x = x := by
  obtain ⟨m, rfl⟩ := hx
  have hdigits : RedisRateLimiter.HasDigits 2 (m / 4 : ℚ) :=
    ⟨25 * m, by push_cast; ring⟩
  exact hdigits.tostring_eq (by decide) (by norm_num at hle ⊢; exact hle)

/-! ## One execution -/

structure QuarterCall where
  key : String
  limit : Int
  now : ℕ
  delivery : Delivery
  limit_pos : 0 < limit
  limit_le : limit ≤ 10 ^ 12
  fifteen_dvd : 15 ∣ limit
  now_le : now ≤ 10 ^ 14

namespace QuarterCall

variable (call : QuarterCall)

theorem exists_rate : ∃ k : ℕ, 0 < k ∧ call.limit = 15 * k := by
  obtain ⟨quotient, hquotient⟩ := call.fifteen_dvd
  have hpos := call.limit_pos
  exact ⟨quotient.toNat, by omega, by omega⟩

theorem isQuarters_limit : IsQuarters call.limit := by
  obtain ⟨k, -, hlimit⟩ := call.exists_rate
  have hnat := isQuarters_natCast (15 * k)
  rw [hlimit]
  push_cast at hnat ⊢
  exact hnat

theorem rate_eq {k : ℕ} (hlimit : call.limit = 15 * k) :
    (call.limit / windowSeconds : ℚ) = k / 4 := by
  rw [hlimit, RedisRateLimiter.windowSeconds_cast]
  push_cast
  ring

theorem isQuarters_rate : IsQuarters (call.limit / windowSeconds : ℚ) := by
  obtain ⟨k, -, hlimit⟩ := call.exists_rate
  exact ⟨k, call.rate_eq hlimit⟩

theorem limit_cast_le : (call.limit : ℚ) ≤ 10 ^ 12 := by
  exact_mod_cast call.limit_le

theorem rate_le : (call.limit / windowSeconds : ℚ) ≤ 2 ^ 51 := by
  have hle := call.limit_cast_le
  rw [RedisRateLimiter.windowSeconds_cast]
  linarith

end QuarterCall

structure IsPlain (bucket : Bucket) : Prop where
  isQuarters_tokens : IsQuarters bucket.tokens
  tokens_le : bucket.tokens ≤ 10 ^ 12
  lastRefill_eq : ∃ n : ℕ, bucket.lastRefill = n ∧ n ≤ 10 ^ 14

def textOf (bucket : Bucket) : TextBucket :=
  { tokens := bucket.tokens, lastRefill := bucket.lastRefill }

theorem natCast_binary64 {n : ℕ} (hn : n ≤ 10 ^ 14) :
    binary64 n = n := by
  apply (isQuarters_natCast n).binary64_eq
  have hle : n ≤ 2 ^ 51 := hn.trans (by norm_num)
  exact_mod_cast hle

theorem natCast_tostring {n : ℕ} (hn : n ≤ 10 ^ 14) : tostring n = n := by
  have hdigits := RedisRateLimiter.hasDigits_natCast 0 n
  apply hdigits.tostring_eq (by decide)
  exact_mod_cast hn

theorem max_zero_sub (now last : ℕ) :
    max 0 ((now : ℚ) - last) = ((now - last : ℕ) : ℚ) := by
  rcases le_total last now with hle | hle
  · have hle' : (0 : ℚ) ≤ now - last := by
      rw [sub_nonneg]
      exact_mod_cast hle
    rw [max_eq_right hle', Nat.cast_sub hle]
  · have hle' : (now : ℚ) - last ≤ 0 := by
      rw [sub_nonpos]
      exact_mod_cast hle
    rw [max_eq_left hle', Nat.sub_eq_zero_of_le hle, Nat.cast_zero]

theorem elapsed_eq {now last : ℕ} (hnow : now ≤ 10 ^ 14) :
    max 0 (sub now last) = ((now - last : ℕ) : ℚ) := by
  rcases le_total last now with hle | hle
  · rw [sub, ← Nat.cast_sub hle, natCast_binary64 (by omega)]
    exact max_eq_right (Nat.cast_nonneg _)
  · have hneg : (now : ℚ) - last ≤ 0 := by
      rw [sub_nonpos]
      exact_mod_cast hle
    have hrounded : sub now last ≤ 0 := binary64_nonpos hneg
    rw [max_eq_left hrounded, Nat.sub_eq_zero_of_le hle, Nat.cast_zero]

theorem min_refilled_eq {tokens refill capacity : ℚ}
    (htokens : IsQuarters tokens) (hrefill : IsQuarters refill)
    (htokens_le : tokens ≤ 2 ^ 50) (hcapacity : capacity ≤ 2 ^ 50) :
    min (add tokens (binary64 refill)) capacity =
      min (tokens + refill) capacity := by
  rcases le_or_gt refill (2 ^ 50) with hsmall | hlarge
  · have hsum : tokens + refill ≤ 2 ^ 51 := by
      have hdouble : (2 : ℚ) ^ 51 = 2 ^ 50 + 2 ^ 50 := by norm_num
      linarith
    have hexact : refill ≤ 2 ^ 51 := hsmall.trans (by norm_num)
    rw [hrefill.binary64_eq hexact, add,
      (htokens.add hrefill).binary64_eq hsum]
  · have hrounded : (2 : ℚ) ^ (50 : Int) ≤ binary64 refill :=
      le_binary64 (by exact_mod_cast hlarge.le)
    have hnonneg := htokens.nonneg
    have hfull : (2 : ℚ) ^ (50 : Int) ≤ add tokens (binary64 refill) :=
      le_binary64 (by linarith)
    norm_num at hfull hcapacity hlarge
    rw [min_eq_right (by linarith), min_eq_right (by linarith)]

variable {stored : Option Bucket} (call : QuarterCall)

theorem currentTokens_eq
    (hstored : ∀ bucket, stored = some bucket → IsPlain bucket) :
    currentTokens (stored.map textOf) call.limit
        (call.limit / windowSeconds : ℚ) call.now =
      Infra.currentTokens stored call.limit (call.limit / windowSeconds : ℚ)
        call.now := by
  have hroom : (call.limit : ℚ) ≤ 2 ^ 50 :=
    call.limit_cast_le.trans (by norm_num)
  cases stored with
  | none =>
      simp only [currentTokens, Option.map_none, Infra.currentTokens_none,
        elapsed_eq call.now_le, Nat.sub_self, Nat.cast_zero]
      rw [mul, zero_mul, min_refilled_eq call.isQuarters_limit ⟨0, by simp⟩
        hroom hroom, add_zero, min_self]
  | some bucket =>
      obtain ⟨htokens, htokens_le, last, hlast, hlast_le⟩ := hstored bucket rfl
      have htokens_le' : bucket.tokens ≤ 2 ^ 50 :=
        htokens_le.trans (by norm_num)
      rw [Infra.currentTokens_some, hlast]
      simp only [currentTokens, Option.map_some, textOf, tonumber, hlast]
      push_cast
      rw [natCast_binary64 hlast_le, elapsed_eq call.now_le, max_zero_sub, mul,
        htokens.binary64_eq (htokens_le'.trans (by norm_num)),
        min_refilled_eq htokens (call.isQuarters_rate.natCast_mul _)
          htokens_le' hroom]

theorem isQuarters_currentTokens
    (hstored : ∀ bucket, stored = some bucket → IsPlain bucket) :
    IsQuarters (Infra.currentTokens stored call.limit
      (call.limit / windowSeconds : ℚ) call.now) := by
  cases stored with
  | none =>
      rw [Infra.currentTokens_none]
      exact call.isQuarters_limit
  | some bucket =>
      obtain ⟨htokens, -, last, hlast, -⟩ := hstored bucket rfl
      rw [Infra.currentTokens_some, hlast]
      push_cast
      rw [max_zero_sub]
      exact (htokens.add (call.isQuarters_rate.natCast_mul _)).min
        call.isQuarters_limit

theorem ceil_div_eq {d k : ℕ} (hd : d ≤ 4) (hk : 0 < k) (hk_le : k ≤ 10 ^ 12) :
    ⌈binary64 (d / k)⌉ = ⌈(d / k : ℚ)⌉ := by
  have hk' : (0 : ℚ) < k := by exact_mod_cast hk
  have hone : (1 : ℚ) ≤ k := by exact_mod_cast hk
  have hfour : (d : ℚ) ≤ 4 := by exact_mod_cast hd
  have hnonneg : (0 : ℚ) ≤ d / k := by positivity
  have hsize : |(d / k : ℚ)| < 2 ^ 3 := by
    rw [abs_of_nonneg hnonneg, div_lt_iff₀ hk']
    linarith
  apply ceil_binary64 (hsize.trans (by norm_num))
  -- numerators differ by one at least
  have hstep : ((⌈(d / k : ℚ)⌉ - 1) * k + 1 : ℚ) ≤ d := by
    have hbelow := Int.ceil_lt_add_one (d / k : ℚ)
    rw [← sub_lt_iff_lt_add, lt_div_iff₀ hk'] at hbelow
    have hbelow' : (⌈(d / k : ℚ)⌉ - 1) * (k : Int) < d := by
      exact_mod_cast hbelow
    have hbelow'' : (⌈(d / k : ℚ)⌉ - 1) * (k : Int) + 1 ≤ d := by omega
    exact_mod_cast hbelow''
  have hspacing : halfSpacing (d / k : ℚ) < 1 / k := by
    have hfar : (1 / 10 ^ 12 : ℚ) ≤ 1 / k := by
      gcongr
      exact_mod_cast hk_le
    refine (halfSpacing_le (by decide) hsize).trans_lt (lt_of_lt_of_le ?_ hfar)
    norm_num
  calc
    (⌈(d / k : ℚ)⌉ - 1 : ℚ) + halfSpacing (d / k)
        < ⌈(d / k : ℚ)⌉ - 1 + 1 / k := by linarith
    _ = ((⌈(d / k : ℚ)⌉ - 1) * k + 1) / k := by field_simp
    _ ≤ d / k := by gcongr

theorem retryAfter_eq {current : ℚ} (hcurrent : IsQuarters current)
    (hdenied : current < 1) :
    ⌈div (sub 1 current) (call.limit / windowSeconds)⌉ =
      ⌈(1 - current) / (call.limit / windowSeconds)⌉ := by
  obtain ⟨k, hk, hlimit⟩ := call.exists_rate
  have hdeficit : IsQuarters (1 - current) := by
    have hone := isQuarters_natCast 1
    rw [Nat.cast_one] at hone
    exact hone.sub hcurrent hdenied.le
  have hle : 1 - current ≤ 1 := by
    have := hcurrent.nonneg
    linarith
  rw [sub, hdeficit.binary64_eq (hle.trans (by norm_num)), div]
  obtain ⟨d, hd⟩ := hdeficit
  have hd_le : d ≤ 4 := by
    rw [hd, div_le_one (by norm_num)] at hle
    exact_mod_cast hle
  have hwait : (1 - current) / (call.limit / windowSeconds : ℚ) = d / k := by
    rw [hd, call.rate_eq hlimit]
    field_simp
  have hk_le : k ≤ 10 ^ 12 := by
    have := call.limit_le
    omega
  rw [hwait, ceil_div_eq hd_le hk hk_le]

theorem ttl_eq :
    ⌊add ⌈div call.limit (call.limit / windowSeconds)⌉ 60⌋ =
      ⌈(call.limit / (call.limit / windowSeconds) : ℚ)⌉ + 60 := by
  have hne : (call.limit : ℚ) ≠ 0 := by exact_mod_cast call.limit_pos.ne'
  have hsixty : binary64 60 = 60 := natCast_binary64 (n := 60) (by norm_num)
  have htwice : binary64 120 = 120 := natCast_binary64 (n := 120) (by norm_num)
  rw [div, div_div_cancel₀ hne, RedisRateLimiter.windowSeconds_cast, hsixty]
  norm_num [add, htwice]

/-- The step lemma: the same reply, and texts of the same numbers. -/
theorem tokenBucketScript_eq
    (hstored : ∀ bucket, stored = some bucket → IsPlain bucket) :
    let exact := Infra.tokenBucketScript stored call.limit
      (call.limit / windowSeconds : ℚ) call.now
    tokenBucketScript (stored.map textOf) call.limit
        (call.limit / windowSeconds : ℚ) call.now =
      ⟨exact.reply, textOf exact.bucket, exact.ttl⟩ ∧ IsPlain exact.bucket := by
  have hquarters := isQuarters_currentTokens call hstored
  have hle : Infra.currentTokens stored call.limit
      (call.limit / windowSeconds : ℚ) call.now ≤ 10 ^ 12 :=
    (currentTokens_le_capacity _ _ _ _).trans call.limit_cast_le
  simp only [tokenBucketScript, Infra.tokenBucketScript,
    currentTokens_eq call hstored, ttl_eq]
  generalize Infra.currentTokens stored call.limit
    (call.limit / windowSeconds : ℚ) call.now = current at hquarters hle ⊢
  have hnow : IsPlain ⟨current, call.now⟩ :=
    ⟨hquarters, hle, call.now, rfl, call.now_le⟩
  by_cases hallowed : current ≥ 1
  · have hspent : IsQuarters (current - 1) := by
      have hone := isQuarters_natCast 1
      rw [Nat.cast_one] at hone
      exact hquarters.sub hone hallowed
    have hspent_le : current - 1 ≤ 10 ^ 12 := by linarith
    have hsub : sub current 1 = current - 1 :=
      hspent.binary64_eq (hspent_le.trans (by norm_num))
    simp only [hallowed, if_true, hsub, hspent.tostring_eq hspent_le,
      natCast_tostring call.now_le]
    exact ⟨rfl, hspent, hspent_le, call.now, rfl, call.now_le⟩
  · simp only [hallowed, if_false, retryAfter_eq call hquarters
      (not_le.mp hallowed), hquarters.tostring_eq hle,
      natCast_tostring call.now_le]
    exact ⟨rfl, hnow⟩

/-! ## Whole runs -/

namespace QuarterCall

def perform (call : QuarterCall) (redis : Redis) : LimitResult × Redis :=
  RedisRateLimiter.check redis call.delivery call.key call.limit windowSeconds
    call.now

def performDoubles (call : QuarterCall) (redis : TextRedis) :
    LimitResult × TextRedis :=
  check redis call.delivery call.key call.limit windowSeconds call.now

end QuarterCall

def textRedisOf (redis : Redis) : TextRedis := fun key =>
  (redis key).map fun stored => (textOf stored.bucket, stored.ttl)

def AllPlain (redis : Redis) : Prop :=
  ∀ key stored, redis key = some stored → IsPlain stored.bucket

theorem textRedisOf_set (redis : Redis) (key : String)
    (stored : StoredBucket) :
    textRedisOf (redis.set key stored) =
      Function.update (textRedisOf redis) key
        (some (textOf stored.bucket, stored.ttl)) := by
  funext other
  by_cases hkey : other = key
  · subst hkey
    simp [textRedisOf]
  · simp [textRedisOf, Redis.set, hkey]

variable {redis : Redis}

theorem execute_eq (hplain : AllPlain redis) :
    let exact := RedisRateLimiter.execute redis call.key call.limit
      windowSeconds call.now
    execute (textRedisOf redis) call.key call.limit windowSeconds call.now =
      ⟨exact.reply, textOf exact.bucket, exact.ttl⟩ ∧ IsPlain exact.bucket := by
  have hlimit : tonumber call.limit = call.limit :=
    call.isQuarters_limit.binary64_eq
      (call.limit_cast_le.trans (by norm_num))
  have hrate : div call.limit windowSeconds = call.limit / windowSeconds :=
    call.isQuarters_rate.binary64_eq call.rate_le
  have hnow : tonumber ((call.now : Int) : ℚ) = call.now :=
    natCast_binary64 call.now_le
  have hfound : (textRedisOf redis call.key).map Prod.fst =
      ((redis call.key).map StoredBucket.bucket).map textOf := by
    cases hkey : redis call.key <;> simp [textRedisOf, hkey]
  rw [execute, hlimit, hrate, hnow, hfound]
  apply tokenBucketScript_eq call
  intro bucket hbucket
  obtain ⟨stored, hstored, rfl⟩ := Option.map_eq_some_iff.mp hbucket
  exact hplain call.key stored hstored

theorem AllPlain.set (hplain : AllPlain redis) {key : String}
    {stored : StoredBucket} (hstored : IsPlain stored.bucket) :
    AllPlain (redis.set key stored) := by
  intro other found hfound
  unfold Redis.set at hfound
  split at hfound
  · cases hfound
    exact hstored
  · exact hplain other found hfound

theorem performDoubles_eq (hplain : AllPlain redis) :
    call.performDoubles (textRedisOf redis) =
        ((call.perform redis).1, textRedisOf (call.perform redis).2) ∧
      AllPlain (call.perform redis).2 := by
  obtain ⟨hrun, hbucket⟩ := execute_eq call hplain
  simp only [QuarterCall.performDoubles, QuarterCall.perform, check,
    RedisRateLimiter.check, hrun]
  cases call.delivery with
  | completes => exact ⟨by rw [textRedisOf_set], hplain.set hbucket⟩
  | failsBefore => exact ⟨rfl, hplain⟩
  | failsAfter => exact ⟨by rw [textRedisOf_set], hplain.set hbucket⟩

/--
In any run of checks, on any keys and with limits that change, every result is
that of exact numbers, and so is every number in the database.
-/
theorem runAll_doubles (calls : List QuarterCall) :
    runAll QuarterCall.performDoubles calls (fun _ => none) =
      let exact := runAll QuarterCall.perform calls Redis.empty
      (exact.1, textRedisOf exact.2) := by
  have hrun : ∀ redis, AllPlain redis →
      runAll QuarterCall.performDoubles calls (textRedisOf redis) =
        let exact := runAll QuarterCall.perform calls redis
        (exact.1, textRedisOf exact.2) := by
    induction calls with
    | nil => exact fun _ _ => rfl
    | cons call calls ih =>
        intro redis hplain
        obtain ⟨hstep, hafter⟩ := performDoubles_eq call hplain
        simp only [runAll, hstep, ih _ hafter]
  apply hrun Redis.empty
  intro key stored hstored
  cases hstored

end Lua

end RateLimitedGateway.Infra
