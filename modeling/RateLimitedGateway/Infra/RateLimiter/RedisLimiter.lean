import Mathlib.Algebra.Order.Ring.Rat
import Mathlib.Algebra.Order.Floor.Ring
import Mathlib.Data.Rat.Floor
import Mathlib.Tactic.Linarith

/-!
# The Redis-backed rate limiter

`RedisRateLimiter.check` hands one token bucket to a Lua script that Redis
executes atomically.  Numbers are exact rationals here: the script's doubles,
and their way through `tostring` and `tonumber`, are taken without rounding.
-/

namespace RateLimitedGateway.Infra

/-- `_WINDOW_SECONDS` of the service, the only window that `check` is given. -/
def windowSeconds : Int := 60

structure LimitResult where
  allowed : Bool
  limit : Int
  remaining : Int
  retryAfter : Int
  degraded : Bool
  deriving DecidableEq, Repr

structure Bucket where
  tokens : ℚ
  lastRefill : Int
  deriving DecidableEq, Repr

structure ScriptReply where
  allowed : Int
  remaining : Int
  retryAfter : Int
  deriving DecidableEq, Repr

structure ScriptRun where
  reply : ScriptReply
  bucket : Bucket
  ttl : Int
  deriving DecidableEq, Repr

/-- The script's `current`: refilled for the elapsed time, cut to capacity. -/
def currentTokens (stored : Option Bucket) (capacity refillRate : ℚ)
    (now : Int) : ℚ :=
  let tokens := match stored with
    | none => capacity
    | some bucket => bucket.tokens
  let lastRefill := match stored with
    | none => now
    | some bucket => bucket.lastRefill
  let elapsed := max 0 (now - lastRefill)
  let refilled := tokens + elapsed * refillRate
  min refilled capacity

def tokenBucketScript (stored : Option Bucket) (capacity refillRate : ℚ)
    (now : Int) : ScriptRun :=
  let current := currentTokens stored capacity refillRate now
  let ttl := ⌈capacity / refillRate⌉ + 60
  if current ≥ 1 then
    { reply := { allowed := 1, remaining := ⌊current - 1⌋, retryAfter := 0 }
      bucket := { tokens := current - 1, lastRefill := now }
      ttl := ttl }
  else
    let deficit := 1 - current
    { reply :=
        { allowed := 0, remaining := 0, retryAfter := ⌈deficit / refillRate⌉ }
      bucket := { tokens := current, lastRefill := now }
      ttl := ttl }

/-- A hash and the TTL that the latest execution gave its key. -/
structure StoredBucket where
  bucket : Bucket
  ttl : Int
  deriving DecidableEq, Repr

abbrev Redis := String → Option StoredBucket

namespace Redis

def empty : Redis := fun _ => none

def set (redis : Redis) (key : String) (stored : StoredBucket) : Redis :=
  fun other => if other = key then some stored else redis other

@[simp] theorem set_same (redis : Redis) (key : String)
    (stored : StoredBucket) : redis.set key stored key = some stored := by
  simp [set]

end Redis

/-- How an `EVALSHA` ends: a `RedisError` may hide that the script has run. -/
inductive Delivery where
  | completes
  | failsBefore
  | failsAfter
  deriving DecidableEq, Repr

namespace RedisRateLimiter

def failOpen (limit : Int) : LimitResult :=
  { allowed := true, limit := limit, remaining := -1, retryAfter := 0,
    degraded := true }

def execute (redis : Redis) (key : String) (limit windowSeconds now : Int) :
    ScriptRun :=
  tokenBucketScript ((redis key).map StoredBucket.bucket) limit
    (limit / windowSeconds : ℚ) now

def check (redis : Redis) (delivery : Delivery) (key : String)
    (limit windowSeconds now : Int) : LimitResult × Redis :=
  let run := execute redis key limit windowSeconds now
  let after := redis.set key ⟨run.bucket, run.ttl⟩
  match delivery with
  | .failsBefore => (failOpen limit, redis)
  | .failsAfter => (failOpen limit, after)
  | .completes =>
      ({ allowed := run.reply.allowed ≠ 0, limit := limit,
         remaining := run.reply.remaining, retryAfter := run.reply.retryAfter,
         degraded := false }, after)

end RedisRateLimiter

/-! ## What one execution does -/

theorem currentTokens_none (capacity refillRate : ℚ) (now : Int) :
    currentTokens none capacity refillRate now = capacity := by
  simp [currentTokens]

theorem currentTokens_some (bucket : Bucket) (capacity refillRate : ℚ)
    (now : Int) :
    currentTokens (some bucket) capacity refillRate now =
      min (bucket.tokens + max 0 ((now : ℚ) - bucket.lastRefill) * refillRate)
        capacity := by
  simp only [currentTokens]
  push_cast
  rfl

theorem currentTokens_le_capacity (stored : Option Bucket)
    (capacity refillRate : ℚ) (now : Int) :
    currentTokens stored capacity refillRate now ≤ capacity :=
  min_le_right _ _

theorem tokenBucketScript_allowed (stored : Option Bucket)
    (capacity refillRate : ℚ) (now : Int) :
    (tokenBucketScript stored capacity refillRate now).reply.allowed ≠ 0 ↔
      1 ≤ currentTokens stored capacity refillRate now := by
  unfold tokenBucketScript
  by_cases h : 1 ≤ currentTokens stored capacity refillRate now <;> simp [h]

theorem tokenBucketScript_bucket (stored : Option Bucket)
    (capacity refillRate : ℚ) (now : Int) :
    (tokenBucketScript stored capacity refillRate now).bucket =
      ⟨currentTokens stored capacity refillRate now -
        if 1 ≤ currentTokens stored capacity refillRate now then 1 else 0,
        now⟩ := by
  unfold tokenBucketScript
  by_cases h : 1 ≤ currentTokens stored capacity refillRate now <;> simp [h]

end RateLimitedGateway.Infra
