import Mathlib.Data.List.Chain
import RateLimitedGateway.Foundation.Projection
import RateLimitedGateway.Infra.RateLimiter.Expiry
import RateLimitedGateway.Services.Isolation
import RateLimitedGateway.Services.LimitOrder

/-!
# The limiter on the shared database

The database is written to by everybody, and forgets a bucket when the time is
over that the latest script has given it.  A user who is asked about notices
neither: the results are those of a map from keys to buckets on which only
checks run and nothing expires.
-/

namespace RateLimitedGateway.Infra

open RateLimitedGateway.Foundation

theorem RedisDatabase.find_of_live {redis : RedisDatabase} {key : String}
    {entry : RedisEntry} (hentry : redis key = some entry) {serverTime : ℚ}
    (hlive : entry.isLive serverTime = true) :
    redis.find serverTime key = some entry := by
  rw [find, hentry, Option.filter_some, if_pos hlive]

theorem RedisDatabase.find_of_dead {redis : RedisDatabase} {key : String}
    {entry : RedisEntry} (hentry : redis key = some entry) {serverTime : ℚ}
    (hdead : ¬ entry.isLive serverTime = true) :
    redis.find serverTime key = none := by
  rw [find, hentry, Option.filter_some, if_neg hdead]

theorem RedisDatabase.bucketQuotient_bounds {limit : Int} (hlimit : 0 < limit) :
    let quotient := binary64 limit / binary64 (limit / windowSeconds)
    (119 / 2 : ℚ) ≤ quotient ∧ quotient ≤ 61 := by
  have hpos : (0 : ℚ) < limit := by exact_mod_cast hlimit
  have hrate : (limit / windowSeconds : ℚ) = limit / 60 := by
    norm_num [windowSeconds]
  obtain ⟨hlimitLow, hlimitHigh⟩ := binary64_near hpos
  obtain ⟨hrateLow, hrateHigh⟩ :=
    binary64_near (x := (limit / 60 : ℚ)) (by positivity)
  have hdouble : 0 < binary64 (limit / 60 : ℚ) := by linarith
  simp only [hrate]
  constructor
  · rw [le_div_iff₀ hdouble]
    linarith
  · rw [div_le_iff₀ hdouble]
    linarith

/-- Rounding makes of the two minutes at most one second more. -/
theorem RedisDatabase.bucketTtl_bounds {limit : Int} (hlimit : 0 < limit) :
    120 ≤ bucketTtl limit windowSeconds ∧
      bucketTtl limit windowSeconds ≤ 121 := by
  obtain ⟨hlow, hhigh⟩ := bucketQuotient_bounds hlimit
  have hleast := binary64_mono (by norm_num) hlow
  have hmost := binary64_mono (le_trans (by norm_num) hlow) hhigh
  have hkeptLow : binary64 (119 / 2) = 119 / 2 := by
    have hkept : binary64 ((119 : ℕ) / 2 ^ 1) = (119 : ℕ) / 2 ^ 1 :=
      binary64_of_digits (by norm_num)
    simpa using hkept
  have hkeptHigh : binary64 61 = 61 := by
    exact binary64_intCast (by norm_num) (by norm_num)
  have hceilLow : (59 : Int) < ⌈binary64 (binary64 limit /
      binary64 (limit / windowSeconds))⌉ := by
    rw [Int.lt_ceil]
    refine lt_of_lt_of_le ?_ (hkeptLow.symm.le.trans hleast)
    norm_num
  have hceilHigh : ⌈binary64 (binary64 limit /
      binary64 (limit / windowSeconds))⌉ ≤ (61 : Int) := by
    rw [Int.ceil_le]
    exact hmost.trans hkeptHigh.le
  simp only [bucketTtl]
  omega

example : RedisDatabase.bucketTtl 11 windowSeconds = 121 := by decide +kernel

theorem RedisDatabase.check_of_found {redis : RedisDatabase} {buckets : Redis}
    {serverTime : ℚ} {key : String} {stored : Option Bucket}
    {limit windowSeconds now : Int}
    (hfind : readBucket (redis.find serverTime key) = .ok stored)
    (htokens : currentTokens stored limit (limit / windowSeconds : ℚ) now =
      currentTokens ((buckets key).map StoredBucket.bucket) limit
        (limit / windowSeconds : ℚ) now)
    (delivery : Delivery) :
    let run := RedisRateLimiter.execute buckets key limit windowSeconds now
    (redis.check serverTime delivery key limit windowSeconds now).1 =
        (RedisRateLimiter.check buckets delivery key limit windowSeconds
          now).1 ∧
      (redis.check serverTime delivery key limit windowSeconds now).2 key =
        if delivery = .failsBefore then redis key
        else some ⟨.hash run.bucket,
          some (serverTime + bucketTtl limit windowSeconds)⟩ := by
  have hrun : tokenBucketScript stored limit (limit / windowSeconds : ℚ) now =
      RedisRateLimiter.execute buckets key limit windowSeconds now := by
    simp only [RedisRateLimiter.execute, tokenBucketScript, htokens]
  simp only [check, hfind, hrun, RedisRateLimiter.check]
  cases delivery with
  | completes => exact ⟨rfl, Function.update_self _ _ _⟩
  | failsBefore => exact ⟨rfl, rfl⟩
  | failsAfter => exact ⟨rfl, Function.update_self _ _ _⟩

end RateLimitedGateway.Infra

/-! ## Limits that change from call to call -/

namespace RateLimitedGateway.Infra.RedisRateLimiter

open Finset

variable (redis : Redis) (key : String) (calls : ℕ → CheckCall)

theorem min_limit_refillAt_le {bound : ℕ} {k : ℕ}
    (hlimit : (calls (k + 1)).limit ≤ bound) :
    min ((calls (k + 1)).limit : ℚ) (refillAt calls (k + 1)) ≤
      secondsCredited (fun j => (calls j).now) k * (bound / 60) := by
  have hrate : (0 : ℚ) ≤ (calls (k + 1)).limit / 60 :=
    (rate_pos (calls (k + 1)).limit_pos).le
  have hcast : ((calls (k + 1)).limit : ℚ) ≤ bound := by exact_mod_cast hlimit
  have hcredited : (0 : ℚ) ≤ secondsCredited (fun j => (calls j).now) k := by
    exact_mod_cast secondsCredited_nonneg _ k
  calc
    min ((calls (k + 1)).limit : ℚ) (refillAt calls (k + 1))
        = secondsCredited (fun j => (calls j).now) k *
            ((calls (k + 1)).limit / 60) := by
      have hfull : ((calls (k + 1)).limit : ℚ) =
          60 * ((calls (k + 1)).limit / 60) := by ring
      simp only [refillAt, windowSeconds, secondsCredited,
        Nat.add_sub_cancel]
      push_cast
      rw [min_mul_of_nonneg _ _ hrate, ← hfull]
    _ ≤ secondsCredited (fun j => (calls j).now) k * (bound / 60) := by gcongr

theorem allowedCount_le_of_limit_le {bound n : ℕ}
    (hlimit : ∀ k ≤ n, (calls k).limit ≤ bound) :
    (allowedCount redis key calls 0 (n + 1) : ℚ) ≤
      bound + creditedSeconds (fun k => (calls k).now) n * (bound / 60) := by
  have hfirst : ((calls 0).limit : ℚ) ≤ bound := by
    exact_mod_cast hlimit 0 (Nat.zero_le n)
  refine (allowedCount_le redis key calls n).trans ?_
  rw [creditedSeconds, Int.cast_sum, sum_mul]
  apply add_le_add hfirst
  apply sum_le_sum
  intro k hk
  exact min_limit_refillAt_le calls (hlimit (k + 1) (mem_range.mp hk))

theorem allowedCount_succ (n : ℕ) :
    allowedCount redis key calls 0 (n + 1) =
      allowedCount redis key calls 0 n +
        if (resultOf redis key calls n).allowed = true then 1 else 0 := by
  simp only [allowedCount, card_filter]
  rw [sum_Ico_succ_top (Nat.zero_le n)]

end RateLimitedGateway.Infra.RedisRateLimiter

namespace RateLimitedGateway.Services

open RateLimitedGateway.Foundation RateLimitedGateway.Infra

structure Execution where
  call : CheckCall
  serverTime : ℚ

namespace RedisCall

def execution? (userId : String) : RedisCall → Option Execution
  | check user baseLimit healthFactor now serverTime delivery =>
      if user = userId ∧ delivery ≠ .failsBefore then
        some
          { call :=
              { limit := effectiveLimit baseLimit healthFactor
                now := now
                limit_pos := effectiveLimit_pos baseLimit healthFactor }
            serverTime := serverTime }
      else none
  | record _ _ _ _ => none

def executions (userId : String) (calls : List RedisCall) : List Execution :=
  calls.filterMap (execution? userId)

/--
Between two scripts on the user's key, the clock of the server gains at most a
minute on the readings that the scripts are given.
-/
def KeepsTime (userId : String) (calls : List RedisCall) : Prop :=
  (executions userId calls).IsChain fun earlier later =>
    later.serverTime - earlier.serverTime ≤
      (later.call.now - earlier.call.now + 60 : ℚ)

def performKept : RedisCall → Redis → Option LimitResult × Redis
  | check userId baseLimit healthFactor now _ delivery, buckets =>
      let (result, after) := RedisRateLimiter.check buckets delivery
        (userKey userId) (effectiveLimit baseLimit healthFactor) windowSeconds
        now
      (some result, after)
  | record _ _ _ _, buckets => (none, buckets)

def resultsKept (userId : String) (calls : List RedisCall) (buckets : Redis) :
    List LimitResult :=
  ((runAll performKept calls buckets).1.filter
    fun answered => answered.1.isCheckOf userId).filterMap Prod.snd

theorem executions_concat (userId : String) (calls : List RedisCall)
    (call : RedisCall) :
    executions userId (calls ++ [call]) =
      executions userId calls ++ (call.execution? userId).toList := by
  cases hexecution : call.execution? userId <;>
    simp [executions, hexecution]

theorem isCheckOf_of_execution {userId : String} {call : RedisCall}
    {execution : Execution} (h : call.execution? userId = some execution) :
    call.isCheckOf userId = true := by
  cases call with
  | record => cases h
  | check user baseLimit healthFactor now serverTime delivery =>
      simp only [execution?] at h
      split at h
      · next hexecuted => simp [isCheckOf, hexecuted.1]
      · cases h

/-! ## The key of one user -/

/-- Both hold the bucket of the last execution, for two minutes at least. -/
def Mirrors (userId : String) (calls : List RedisCall) (redis : RedisDatabase)
    (buckets : Redis) : Prop :=
  match (executions userId calls).getLast? with
  | none => redis (userKey userId) = none ∧ buckets (userKey userId) = none
  | some last => ∃ tokens deadline : ℚ, 0 ≤ tokens ∧
      buckets (userKey userId) = some ⟨⟨tokens, last.call.now⟩, 120⟩ ∧
      last.serverTime + 120 ≤ deadline ∧
      redis (userKey userId) =
        some ⟨.hash ⟨tokens, last.call.now⟩, some deadline⟩

variable {userId : String} {calls : List RedisCall} {redis : RedisDatabase}
variable {buckets : Redis}

theorem Mirrors.tokens (h : Mirrors userId calls redis buckets)
    (execution : Execution)
    (hgain : ∀ last ∈ (executions userId calls).getLast?,
      execution.serverTime - last.serverTime ≤
        (execution.call.now - last.call.now + 60 : ℚ)) :
    ∃ stored, RedisDatabase.readBucket
        (redis.find execution.serverTime (userKey userId)) = .ok stored ∧
      currentTokens stored execution.call.limit
          (execution.call.limit / windowSeconds : ℚ) execution.call.now =
        currentTokens ((buckets (userKey userId)).map StoredBucket.bucket)
          execution.call.limit (execution.call.limit / windowSeconds : ℚ)
          execution.call.now := by
  unfold Mirrors at h
  cases hlast : (executions userId calls).getLast? with
  | none =>
      rw [hlast] at h
      exact ⟨none, by simp [RedisDatabase.find, h.1, RedisDatabase.readBucket],
        by simp [h.2]⟩
  | some last =>
      rw [hlast] at h
      obtain ⟨tokens, deadline, htokens, hbuckets, hdeadline, hredis⟩ := h
      by_cases hlive : execution.serverTime ≤ deadline
      · refine ⟨some ⟨tokens, last.call.now⟩, ?_, by simp [hbuckets]⟩
        rw [RedisDatabase.find_of_live hredis (by simpa [RedisEntry.isLive])]
        rfl
      · refine ⟨none, ?_, ?_⟩
        · rw [RedisDatabase.find_of_dead hredis
            (by simpa [RedisEntry.isLive] using hlive)]
          rfl
        · -- the key has expired, so a minute has passed for the callers too
          have hlong : last.call.now + 60 ≤ execution.call.now := by
            have := hgain last hlast
            have hminute : (last.call.now : ℚ) + 60 ≤ execution.call.now := by
              linarith
            exact_mod_cast hminute
          have hrested : RedisRateLimiter.Rested buckets (userKey userId)
              execution.call.now := by
            intro stored hstored
            rw [hbuckets, Option.some_inj] at hstored
            subst hstored
            exact ⟨htokens, hlong⟩
          rw [RedisRateLimiter.currentTokens_of_rested hrested
            execution.call.limit_pos]
          exact currentTokens_none _ _ _

theorem Mirrors.tokens_nonneg (h : Mirrors userId calls redis buckets)
    {limit : Int} (hlimit : 0 < limit) (now : Int) :
    0 ≤ (RedisRateLimiter.execute buckets (userKey userId) limit windowSeconds
      now).bucket.tokens := by
  apply RedisRateLimiter.tokenBucketScript_tokens_nonneg _
    (RedisRateLimiter.limit_nonneg hlimit) (RedisRateLimiter.rate_pos hlimit).le
  intro bucket hbucket
  obtain ⟨stored, hstored, rfl⟩ := Option.map_eq_some_iff.mp hbucket
  unfold Mirrors at h
  split at h
  · rw [h.2] at hstored
    cases hstored
  · obtain ⟨tokens, -, htokens, hbuckets, -⟩ := h
    rw [hbuckets, Option.some_inj] at hstored
    subst hstored
    exact htokens

theorem execute_bucket (buckets : Redis) (key : String)
    (limit windowSeconds now : Int) :
    let run := RedisRateLimiter.execute buckets key limit windowSeconds now
    run.bucket = ⟨run.bucket.tokens, now⟩ := by
  simp only [RedisRateLimiter.execute, tokenBucketScript_bucket]

theorem perform_of_not_executed {call : RedisCall}
    (h : call.execution? userId = none) (redis : RedisDatabase)
    (buckets : Redis) :
    (call.perform redis).2 (userKey userId) = redis (userKey userId) ∧
      (call.performKept buckets).2 (userKey userId) =
        buckets (userKey userId) := by
  cases call with
  | record success now serverTime delivery =>
      refine ⟨?_, rfl⟩
      exact (perform_actsOn (.record success now serverTime delivery)).frame
        redis (userKey_ne_windowKey userId success)
  | check user baseLimit healthFactor now serverTime delivery =>
      by_cases huser : user = userId
      · subst huser
        have hbefore : delivery = .failsBefore := by
          simpa [execution?] using h
        subst hbefore
        refine ⟨?_, rfl⟩
        simp only [perform, RedisDatabase.check]
        split <;> rfl
      · have hne : userKey userId ≠ userKey user :=
          fun hkey => huser (userKey_injective hkey).symm
        constructor
        · exact (perform_actsOn
            (.check user baseLimit healthFactor now serverTime delivery)).frame
              redis hne
        · simp only [performKept, RedisRateLimiter.check_redis]
          split
          · rfl
          · exact if_neg hne

theorem Mirrors.perform {call : RedisCall}
    (h : Mirrors userId calls redis buckets)
    (htime : KeepsTime userId (calls ++ [call])) :
    (call.isCheckOf userId = true →
      (call.perform redis).1 = (call.performKept buckets).1) ∧
    Mirrors userId (calls ++ [call]) (call.perform redis).2
      (call.performKept buckets).2 := by
  rw [KeepsTime, executions_concat] at htime
  cases hexecution : call.execution? userId with
  | none =>
      obtain ⟨hredis, hbuckets⟩ :=
        perform_of_not_executed hexecution redis buckets
      constructor
      · intro hcheck
        cases call with
        | record => cases hcheck
        | check user baseLimit healthFactor now serverTime delivery =>
            have huser : user = userId := by simpa [isCheckOf] using hcheck
            have hbefore : delivery = .failsBefore := by
              simpa [execution?, huser] using hexecution
            subst hbefore
            simp only [RedisCall.perform, performKept, RedisDatabase.check,
              RedisRateLimiter.check]
            split <;> rfl
      · rw [Mirrors, executions_concat, hexecution, Option.toList_none,
          List.append_nil, hredis, hbuckets]
        exact h
  | some execution =>
      have hcheck := isCheckOf_of_execution hexecution
      cases call with
      | record => cases hcheck
      | check user baseLimit healthFactor now serverTime delivery =>
          have huser : user = userId := by simpa [isCheckOf] using hcheck
          subst huser
          have hdelivery : delivery ≠ .failsBefore := by
            rintro rfl
            simp [execution?] at hexecution
          have hpos := effectiveLimit_pos baseLimit healthFactor
          obtain rfl : execution =
              ⟨⟨effectiveLimit baseLimit healthFactor, now, hpos⟩,
                serverTime⟩ := by
            simpa [execution?, hdelivery, eq_comm] using hexecution
          rw [hexecution, Option.toList_some, List.isChain_append] at htime
          obtain ⟨stored, hfind, htokens⟩ := h.tokens
            ⟨⟨effectiveLimit baseLimit healthFactor, now, hpos⟩, serverTime⟩
            fun last hlast => htime.2.2 last hlast _ rfl
          obtain ⟨hresult, hafter⟩ :=
            RedisDatabase.check_of_found hfind htokens delivery
          refine ⟨fun _ => congrArg some hresult, ?_⟩
          rw [Mirrors, executions_concat, hexecution]
          simp only [Option.toList_some, List.getLast?_concat]
          have hbucket := execute_bucket buckets (userKey user)
            (effectiveLimit baseLimit healthFactor) windowSeconds now
          have httl : (120 : ℚ) ≤ RedisDatabase.bucketTtl
              (effectiveLimit baseLimit healthFactor) windowSeconds := by
            exact_mod_cast (RedisDatabase.bucketTtl_bounds hpos).1
          refine ⟨_, _, h.tokens_nonneg hpos now, ?_, add_le_add_right httl _,
            ?_⟩
          · simp only [performKept, RedisRateLimiter.check_redis,
              if_neg hdelivery, Redis.set_same,
              RedisRateLimiter.execute_ttl _ _ hpos]
            exact congrArg (fun bucket => some (StoredBucket.mk bucket 120))
              hbucket
          · simp only [RedisCall.perform, hafter, if_neg hdelivery]
            exact congrArg (fun bucket => some (RedisEntry.mk (.hash bucket)
              _)) hbucket

theorem mirrors_run (hredis : redis (userKey userId) = none)
    (htime : KeepsTime userId calls) :
    resultsOf userId calls redis = resultsKept userId calls Redis.empty ∧
      Mirrors userId calls (runAll perform calls redis).2
        (runAll performKept calls Redis.empty).2 := by
  induction calls using List.reverseRecOn with
  | nil => exact ⟨rfl, hredis, rfl⟩
  | append_singleton calls call ih =>
      have hearlier : KeepsTime userId calls := by
        rw [KeepsTime, executions_concat] at htime
        exact htime.left_of_append
      obtain ⟨hresults, hmirrors⟩ := ih hearlier
      obtain ⟨hanswer, hafter⟩ := hmirrors.perform htime
      rw [runAll_concat, runAll_concat]
      refine ⟨?_, hafter⟩
      simp only [resultsOf, resultsKept, runAll_concat, List.filter_append,
        List.filterMap_append] at hresults ⊢
      rw [hresults]
      congr 1
      cases hcheck : call.isCheckOf userId with
      | false => simp [hcheck]
      | true => simp [hcheck, hanswer hcheck]

/-! ## How many calls a user gets through -/

def granted (results : List LimitResult) : ℕ :=
  results.countP fun result => result.allowed && !result.degraded

def sequence (executions : List Execution) (k : ℕ) : CheckCall :=
  match executions[k]? with
  | some execution => execution.call
  | none => { limit := 1, now := 0, limit_pos := Int.one_pos }

theorem execute_congr_key {buckets other : Redis} {key : String}
    (h : buckets key = other key) (limit windowSeconds now : Int) :
    RedisRateLimiter.execute buckets key limit windowSeconds now =
      RedisRateLimiter.execute other key limit windowSeconds now := by
  simp only [RedisRateLimiter.execute, h]

theorem granted_check_le {buckets other : Redis} {key : String}
    (h : buckets key = other key) (delivery : Delivery)
    (limit windowSeconds now : Int) :
    granted [(RedisRateLimiter.check buckets delivery key limit windowSeconds
        now).1] ≤
      if (RedisRateLimiter.check other .completes key limit windowSeconds
        now).1.allowed = true then 1 else 0 := by
  cases delivery with
  | failsBefore => simp [granted, RedisRateLimiter.check,
      RedisRateLimiter.failOpen]
  | failsAfter => simp [granted, RedisRateLimiter.check,
      RedisRateLimiter.failOpen]
  | completes =>
      simp only [granted, RedisRateLimiter.check, execute_congr_key h,
        List.countP_singleton, Bool.not_false, Bool.and_true]
      exact le_rfl

theorem granted_concat (userId : String) (calls : List RedisCall)
    (call : RedisCall) (buckets : Redis) :
    granted (resultsKept userId (calls ++ [call]) buckets) =
      granted (resultsKept userId calls buckets) +
        if call.isCheckOf userId then
          granted (call.performKept
            (runAll performKept calls buckets).2).1.toList
        else 0 := by
  simp only [granted, resultsKept, runAll_concat, List.filter_append,
    List.filterMap_append, List.countP_append]
  congr 1
  cases hcheck : call.isCheckOf userId with
  | false => simp [hcheck]
  | true =>
      cases (call.performKept (runAll performKept calls buckets).2).1 <;>
        simp [hcheck]

theorem granted_of_not_executed {call : RedisCall}
    (h : call.execution? userId = none) (buckets : Redis) :
    (if call.isCheckOf userId then
      granted (call.performKept buckets).1.toList else 0) = 0 := by
  cases call with
  | record => simp [isCheckOf]
  | check user baseLimit healthFactor now serverTime delivery =>
      by_cases huser : user = userId
      · have hbefore : delivery = .failsBefore := by
          simpa [execution?, huser] using h
        subst hbefore
        simp [granted, performKept, RedisRateLimiter.check,
          RedisRateLimiter.failOpen]
      · simp [isCheckOf, huser]

theorem kept_run {checks : ℕ → CheckCall}
    (hchecks : ∀ k execution, (executions userId calls)[k]? = some execution →
      checks k = execution.call) :
    (runAll performKept calls Redis.empty).2 (userKey userId) =
        RedisRateLimiter.redisBefore Redis.empty (userKey userId) checks
          (executions userId calls).length (userKey userId) ∧
      granted (resultsKept userId calls Redis.empty) ≤
        RedisRateLimiter.allowedCount Redis.empty (userKey userId) checks 0
          (executions userId calls).length := by
  induction calls using List.reverseRecOn with
  | nil => exact ⟨rfl, Nat.zero_le _⟩
  | append_singleton calls call ih =>
      rw [executions_concat] at hchecks ⊢
      obtain ⟨hbuckets, hgranted⟩ := ih (fun k execution hk =>
        hchecks k execution (by
          rw [List.getElem?_append_left (List.getElem?_eq_some_iff.mp hk).1]
          exact hk))
      rw [runAll_concat, granted_concat]
      cases hexecution : call.execution? userId with
      | none =>
          rw [Option.toList_none, List.append_nil]
          refine ⟨(perform_of_not_executed hexecution (fun _ => none) _).2.trans
            hbuckets, ?_⟩
          rwa [granted_of_not_executed hexecution, Nat.add_zero]
      | some execution =>
          have hcheck := isCheckOf_of_execution hexecution
          have hlast : checks (executions userId calls).length =
              execution.call :=
            hchecks _ execution (by rw [hexecution]; simp)
          cases call with
          | record => cases hcheck
          | check user baseLimit healthFactor now serverTime delivery =>
              have huser : user = userId := by simpa [isCheckOf] using hcheck
              subst huser
              have hdelivery : delivery ≠ .failsBefore := by
                rintro rfl
                simp [execution?] at hexecution
              have hcall : execution.call =
                  ⟨effectiveLimit baseLimit healthFactor, now,
                    effectiveLimit_pos baseLimit healthFactor⟩ := by
                have := hexecution
                simp only [execution?, true_and, if_pos hdelivery,
                  Option.some_inj] at this
                rw [← this]
              rw [Option.toList_some, List.length_append,
                List.length_singleton, RedisRateLimiter.allowedCount_succ]
              constructor
              · simp only [performKept, RedisRateLimiter.redisBefore,
                  RedisRateLimiter.check_redis, if_neg hdelivery,
                  Redis.set_same, hlast, hcall, execute_congr_key hbuckets]
                simp
              · refine Nat.add_le_add hgranted ?_
                rw [if_pos hcheck, RedisRateLimiter.resultOf, hlast, hcall]
                exact granted_check_le hbuckets delivery _ _ _

/-- The user's results do not show who else writes, nor that keys expire. -/
theorem resultsOf_eq_resultsKept (hredis : redis (userKey userId) = none)
    (htime : KeepsTime userId calls) :
    resultsOf userId calls redis = resultsKept userId calls Redis.empty :=
  (mirrors_run hredis htime).1

def returning : List RedisCall :=
  [.check "alice" 1 1 0 0 .completes, .record false 0 0 .completes,
    .check "bob" 1 1 1 1 .completes, .check "alice" 1 1 200 130 .completes]

theorem resultsOf_eq_resultsKept_returning :
    resultsOf "alice" returning (fun _ => none) =
      [⟨true, 1, 0, 0, false⟩, ⟨true, 1, 0, 0, false⟩] := by
  refine (resultsOf_eq_resultsKept rfl ?_).trans (by decide +kernel)
  unfold KeepsTime
  decide +kernel

theorem sequence_eq {executions : List Execution} {k : ℕ}
    {execution : Execution} (h : executions[k]? = some execution) :
    sequence executions k = execution.call := by
  simp only [sequence, h]

/--
Whatever else happens on the database, a user whose limits stay below a bound
gets no more calls granted than a full bucket and its refill along the readings.
-/
theorem granted_le {bound : ℕ} (hredis : redis (userKey userId) = none)
    (htime : KeepsTime userId calls)
    (hbound : ∀ execution ∈ executions userId calls,
      execution.call.limit ≤ bound) :
    (granted (resultsOf userId calls redis) : ℚ) ≤ bound +
      creditedSeconds
        (fun k => (sequence (executions userId calls) k).now)
        ((executions userId calls).length - 1) * (bound / 60) := by
  obtain ⟨-, hgranted⟩ := kept_run fun k execution
    (hk : (executions userId calls)[k]? = some execution) => sequence_eq hk
  rw [(mirrors_run hredis htime).1]
  cases hlength : (executions userId calls).length with
  | zero =>
      rw [hlength] at hgranted
      have hnone : granted (resultsKept userId calls Redis.empty) = 0 :=
        Nat.le_zero.mp hgranted
      rw [hnone]
      simp only [creditedSeconds]
      norm_num
  | succ n =>
      rw [hlength] at hgranted
      have hlimit : ∀ k ≤ n,
          (sequence (executions userId calls) k).limit ≤ bound := by
        intro k hk
        have hlt : k < (executions userId calls).length := by omega
        rw [sequence_eq (List.getElem?_eq_getElem hlt)]
        exact hbound _ (List.getElem_mem hlt)
      have hcount := RedisRateLimiter.allowedCount_le_of_limit_le Redis.empty
        (userKey userId) (sequence (executions userId calls)) hlimit
      have hcast : (granted (resultsKept userId calls Redis.empty) : ℚ) ≤
          RedisRateLimiter.allowedCount Redis.empty (userKey userId)
            (sequence (executions userId calls)) 0 (n + 1) := by
        exact_mod_cast hgranted
      exact hcast.trans hcount

end RedisCall

end RateLimitedGateway.Services
