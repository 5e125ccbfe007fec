import RateLimitedGateway.Services.RateLimitService
import RateLimitedGateway.Services.UpstreamHealth

/-!
# Users do not share Redis state

The limiter and the health tracker write to one Redis database, under keys that
clients can influence.  What a user is answered depends on the user's own calls
and on nothing else that happens there.
-/

namespace RateLimitedGateway.Services

open RateLimitedGateway.Foundation RateLimitedGateway.Infra

inductive RedisCall where
  | check (userId : String) (baseLimit : Int) (healthFactor : ℚ) (now : Int)
      (serverTime : ℚ) (delivery : Delivery)
  | record (success : Bool) (now serverTime : ℚ) (delivery : Delivery)
  deriving DecidableEq, Repr

namespace RedisCall

def isCheckOf (userId : String) : RedisCall → Bool
  | check user _ _ _ _ _ => user = userId
  | record _ _ _ _ => false

def perform : RedisCall → RedisDatabase → Option LimitResult × RedisDatabase
  | check userId baseLimit healthFactor now serverTime delivery, redis =>
      let (result, after) := redis.check serverTime delivery (userKey userId)
        (effectiveLimit baseLimit healthFactor) windowSeconds now
      (some result, after)
  | record success now serverTime delivery, redis =>
      (none, (recordUpstreamResult redis serverTime now delivery success).2)

def key : RedisCall → String
  | check userId _ _ _ _ _ => userKey userId
  | record success _ _ _ => windowKey success

def resultsOf (userId : String) (calls : List RedisCall)
    (redis : RedisDatabase) : List LimitResult :=
  ((runAll perform calls redis).1.filter
    fun answered => answered.1.isCheckOf userId).filterMap Prod.snd

end RedisCall

/-! ## Keys -/

theorem userKey_injective : Function.Injective userKey := by
  intro user other hkey
  have htail := congrArg String.toList hkey
  simp only [userKey, String.toList_append] at htail
  exact String.toList_injective (List.append_cancel_left htail)

theorem userKey_ne_windowKey (userId : String) (success : Bool) :
    userKey userId ≠ windowKey success := by
  intro hkey
  have hsecond := congrArg (fun key => key.toList[1]?) hkey
  cases success <;>
    simp [userKey, windowKey, keySuccess, keyError] at hsecond

namespace RedisCall

theorem key_eq_userKey_iff (call : RedisCall) (userId : String) :
    call.key = userKey userId ↔ call.isCheckOf userId = true := by
  cases call with
  | check user baseLimit healthFactor now serverTime delivery =>
      simp [key, isCheckOf, userKey_injective.eq_iff]
  | record success now serverTime delivery =>
      simp [key, isCheckOf, (userKey_ne_windowKey userId success).symm]

theorem perform_actsOn (call : RedisCall) :
    Operation.ActsOn call.perform call.key := by
  cases call with
  | check userId baseLimit healthFactor now serverTime delivery =>
      have hcheck := RedisDatabase.check_actsOn serverTime delivery
        (userKey userId) (effectiveLimit baseLimit healthFactor) windowSeconds
        now
      exact ⟨fun h => congrArg some (hcheck.answer h), hcheck.value,
        hcheck.frame⟩
  | record success now serverTime delivery =>
      have hrecord := recordUpstreamResult_actsOn serverTime now delivery
        success
      exact ⟨fun _ => rfl, hrecord.value, hrecord.frame⟩

/--
A user's results are those of the run without the other users' checks and
without the health records; and no two users, nor a user and the health
windows, have a key in common.
-/
theorem user_isolated (userId : String) :
    (∀ (calls : List RedisCall) (redis : RedisDatabase),
      resultsOf userId calls redis =
        resultsOf userId (calls.filter (isCheckOf userId)) redis) ∧
    (∀ other, userKey other = userKey userId → other = userId) ∧
    ∀ success, userKey userId ≠ windowKey success := by
  refine ⟨?_, fun other hkey => userKey_injective hkey,
    userKey_ne_windowKey userId⟩
  intro calls redis
  let watched : String → Bool := fun key => key = userKey userId
  have hwatched : ∀ call : RedisCall,
      watched call.key = call.isCheckOf userId := by
    intro call
    rw [Bool.eq_iff_iff, decide_eq_true_iff, key_eq_userKey_iff]
  have hrun := (runAll_filter perform_actsOn watched calls
    (fun key _ => rfl : ∀ key, watched key = true → redis key = redis key)).1
  have hfiltered := (runAll_filter perform_actsOn watched
    (calls.filter (isCheckOf userId))
    (fun key _ => rfl : ∀ key, watched key = true → redis key = redis key)).1
  simp only [hwatched] at hrun hfiltered
  rw [List.filter_filter] at hfiltered
  simp only [Bool.and_self] at hfiltered
  rw [resultsOf, resultsOf, hrun, hfiltered]

end RedisCall

end RateLimitedGateway.Services
