import RateLimitedGateway.Foundation.KeyedStore
import RateLimitedGateway.Foundation.Rounding
import RateLimitedGateway.Infra.RateLimiter.RedisLimiter

/-!
# The Redis database

One key space holds the buckets of the limiter and the windows of the health
tracker.  A command finds no key whose time to live is over, and an error where
the value is of another type.
-/

namespace RateLimitedGateway.Infra

open RateLimitedGateway.Foundation

inductive RedisValue where
  | hash (bucket : Bucket)
  | sortedSet (scores : List ℚ)
  deriving DecidableEq, Repr

structure RedisEntry where
  value : RedisValue
  /-- In server time; `none` is a key without a time to live. -/
  expiresAt : Option ℚ
  deriving DecidableEq, Repr

abbrev RedisDatabase := String → Option RedisEntry

namespace RedisEntry

def isLive (entry : RedisEntry) (serverTime : ℚ) : Bool :=
  match entry.expiresAt with
  | none => true
  | some deadline => serverTime ≤ deadline

/-! ## Commands on sorted sets -/

def zadd (score : ℚ) : Option RedisEntry → Option RedisEntry
  | none => some ⟨.sortedSet [score], none⟩
  | some ⟨.sortedSet scores, expiresAt⟩ =>
      some ⟨.sortedSet (scores.insert score), expiresAt⟩
  | some entry => some entry

def zremrangebyscore (cutoff : ℚ) : Option RedisEntry → Option RedisEntry
  | some ⟨.sortedSet scores, expiresAt⟩ =>
      let kept := scores.filter (cutoff < ·)
      if kept = [] then none else some ⟨.sortedSet kept, expiresAt⟩
  | entry => entry

def expire (deadline : ℚ) : Option RedisEntry → Option RedisEntry
  | some entry => some { entry with expiresAt := some deadline }
  | none => none

def readScores : Option RedisEntry → Except String (List ℚ)
  | none => .ok []
  | some ⟨.sortedSet scores, _⟩ => .ok scores
  | some ⟨.hash _, _⟩ => .error "WRONGTYPE"

def zcount (minimum : ℚ) (entry : Option RedisEntry) : Except String Nat :=
  (readScores entry).map (List.countP (minimum ≤ ·))

end RedisEntry

namespace RedisDatabase

variable (redis : RedisDatabase)

def find (serverTime : ℚ) (key : String) : Option RedisEntry :=
  (redis key).filter (·.isLive serverTime)

def modify (serverTime : ℚ) (key : String)
    (command : Option RedisEntry → Option RedisEntry) : RedisDatabase :=
  Function.update redis key (command (redis.find serverTime key))

/-- The two `HGET`s of the script; an error where the value is no hash. -/
def readBucket : Option RedisEntry → Except String (Option Bucket)
  | none => .ok none
  | some ⟨.hash bucket, _⟩ => .ok (some bucket)
  | some ⟨.sortedSet _, _⟩ => .error "WRONGTYPE"

/-- The script's argument of `EXPIRE`: its quotients are doubles. -/
def bucketTtl (limit windowSeconds : Int) : Int :=
  let refillRate := binary64 (limit / windowSeconds)
  ⌈binary64 (binary64 limit / refillRate)⌉ + 60

def check (serverTime : ℚ) (delivery : Delivery) (key : String)
    (limit windowSeconds now : Int) : LimitResult × RedisDatabase :=
  match readBucket (redis.find serverTime key) with
  | .error _ => (RedisRateLimiter.failOpen limit, redis)
  | .ok stored =>
      let run := tokenBucketScript stored limit (limit / windowSeconds : ℚ) now
      let after := Function.update redis key
        (some ⟨.hash run.bucket,
          some (serverTime + bucketTtl limit windowSeconds)⟩)
      match delivery with
      | .failsBefore => (RedisRateLimiter.failOpen limit, redis)
      | .failsAfter => (RedisRateLimiter.failOpen limit, after)
      | .completes =>
          ({ allowed := run.reply.allowed ≠ 0, limit := limit,
             remaining := run.reply.remaining,
             retryAfter := run.reply.retryAfter, degraded := false }, after)

/-! ## Commands stay at their key -/

theorem find_congr {redis other : RedisDatabase} {key : String}
    (h : redis key = other key) (serverTime : ℚ) :
    redis.find serverTime key = other.find serverTime key := by
  rw [find, find, h]

theorem modify_actsOn (serverTime : ℚ) (key : String)
    (command : Option RedisEntry → Option RedisEntry) :
    Operation.ActsOn
      (fun redis : RedisDatabase => ((), redis.modify serverTime key command))
      key where
  answer _ := rfl
  value h := by
    simp only [modify, Function.update_self, find_congr h]
  frame redis elsewhere hne := by
    simp only [modify, Function.update_of_ne hne]

theorem check_actsOn (serverTime : ℚ) (delivery : Delivery) (key : String)
    (limit windowSeconds now : Int) :
    Operation.ActsOn
      (fun redis : RedisDatabase =>
        redis.check serverTime delivery key limit windowSeconds now) key where
  answer h := by
    simp only [check, find_congr h]
    split
    · rfl
    · cases delivery <;> rfl
  value h := by
    simp only [check, find_congr h]
    split
    · exact h
    · cases delivery with
      | failsBefore => exact h
      | completes => simp only [Function.update_self]
      | failsAfter => simp only [Function.update_self]
  frame redis elsewhere hne := by
    simp only [check]
    split
    · rfl
    · cases delivery with
      | failsBefore => rfl
      | completes => exact Function.update_of_ne hne _ _
      | failsAfter => exact Function.update_of_ne hne _ _

theorem check_eq {redis : RedisDatabase} {buckets : Redis} {serverTime : ℚ}
    {key : String} (hfind : readBucket (redis.find serverTime key) =
      .ok ((buckets key).map StoredBucket.bucket))
    (delivery : Delivery) (limit windowSeconds now : Int) :
    (redis.check serverTime delivery key limit windowSeconds now).1 =
      (RedisRateLimiter.check buckets delivery key limit windowSeconds now).1 :=
    by
  simp only [check, hfind, RedisRateLimiter.check, RedisRateLimiter.execute]
  cases delivery <;> rfl

end RedisDatabase

end RateLimitedGateway.Infra
