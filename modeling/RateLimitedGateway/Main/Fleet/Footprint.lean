import RateLimitedGateway.Main.Fleet.Order
import RateLimitedGateway.Services.HealthSamples

/-!
# What the fleet leaves in Redis

Every key goes back to the latest call that has written to it, and is gone two
or three minutes later, a second of rounding aside.  Buckets exist for users
with an accepted token only, and a window holds no more than the readings of its
last minute.
-/

namespace RateLimitedGateway.Services.RedisCall

open RateLimitedGateway.Foundation RateLimitedGateway.Infra

/-- Redis executes what it is asked for, whether or not the caller learns it. -/
def isExecuted : RedisCall → Bool
  | check _ _ _ _ _ delivery => delivery ≠ .failsBefore
  | record _ _ _ delivery => delivery ≠ .failsBefore

def serverTime : RedisCall → ℚ
  | check _ _ _ _ serverTime _ => serverTime
  | record _ _ serverTime _ => serverTime

def timeToLive : RedisCall → ℚ
  | check _ baseLimit healthFactor _ _ _ =>
      RedisDatabase.bucketTtl (effectiveLimit baseLimit healthFactor)
        windowSeconds
  | record _ _ _ _ => 180

theorem timeToLive_of_isCheckOf {call : RedisCall} {userId : String}
    (hcheck : call.isCheckOf userId = true) :
    call.timeToLive = 120 ∨ call.timeToLive = 121 := by
  cases call with
  | record success now serverTime delivery => cases hcheck
  | check user baseLimit healthFactor now serverTime delivery =>
      obtain ⟨hlow, hhigh⟩ := RedisDatabase.bucketTtl_bounds
        (effectiveLimit_pos baseLimit healthFactor)
      simp only [timeToLive]
      generalize RedisDatabase.bucketTtl
        (effectiveLimit baseLimit healthFactor) windowSeconds = ttl
        at hlow hhigh
      obtain rfl | rfl : ttl = 120 ∨ ttl = 121 := by omega
      · exact .inl (by norm_num)
      · exact .inr (by norm_num)

def uses (key : String) (call : RedisCall) : Bool :=
  call.key = key && call.isExecuted

def lastUse (key : String) (calls : List RedisCall) : Option RedisCall :=
  (calls.filter (uses key)).getLast?

def Leaves (calls : List RedisCall) (call : RedisCall) (value : RedisValue) :
    Prop :=
  match call, value with
  | check _ baseLimit healthFactor now _ _, .hash bucket =>
      bucket.lastRefill = now ∧ 0 ≤ bucket.tokens ∧
        bucket.tokens ≤ effectiveLimit baseLimit healthFactor
  | record success now _ _, .sortedSet scores =>
      scores.Nodup ∧ ∀ score ∈ scores, now - 60 < score ∧
        ∃ serverTime delivery, delivery ≠ .failsBefore ∧
          record success score serverTime delivery ∈ calls
  | _, _ => False

/-- Each key is as the latest call that has used it leaves it. -/
def Footprint (calls : List RedisCall) (redis : RedisDatabase) : Prop :=
  ∀ key, match lastUse key calls with
    | none => redis key = none
    | some call => ∃ value, Leaves calls call value ∧
        redis key = some ⟨value, some (call.serverTime + call.timeToLive)⟩

variable {calls : List RedisCall} {redis : RedisDatabase}

theorem Leaves.mono {later : List RedisCall} {call : RedisCall}
    {value : RedisValue} (h : Leaves calls call value)
    (hsub : ∀ other ∈ calls, other ∈ later) : Leaves later call value := by
  cases call with
  | check userId baseLimit healthFactor now serverTime delivery =>
      cases value with
      | hash bucket => exact h
      | sortedSet scores => cases h
  | record success now serverTime delivery =>
      cases value with
      | hash bucket => cases h
      | sortedSet scores =>
          refine ⟨h.1, fun score hscore => ?_⟩
          obtain ⟨hrecent, serverTime, delivery, hexecuted, hmem⟩ :=
            h.2 score hscore
          exact ⟨hrecent, serverTime, delivery, hexecuted, hsub _ hmem⟩

theorem lastUse_concat (key : String) (calls : List RedisCall)
    (call : RedisCall) :
    lastUse key (calls ++ [call]) =
      if uses key call then some call else lastUse key calls := by
  unfold lastUse
  cases huses : uses key call <;> simp [huses]

theorem uses_of_lastUse {key : String} {call : RedisCall}
    (h : lastUse key calls = some call) :
    call ∈ calls ∧ call.key = key ∧ call.isExecuted = true := by
  have hmem := List.mem_of_getLast? h
  simpa [uses] using hmem

/-! ## One call -/

theorem Footprint.found (h : Footprint calls redis) (serverTime : ℚ)
    (key : String) :
    redis.find serverTime key = none ∨ ∃ call value expiresAt,
      call.key = key ∧ Leaves calls call value ∧
        redis.find serverTime key = some ⟨value, expiresAt⟩ := by
  have hkey := h key
  cases huse : lastUse key calls with
  | none =>
      rw [huse] at hkey
      left
      rw [RedisDatabase.find, hkey]
      rfl
  | some call =>
      rw [huse] at hkey
      obtain ⟨value, hleaves, hredis⟩ := hkey
      rw [RedisDatabase.find, hredis, Option.filter_some]
      split
      · exact .inr ⟨call, value, _, (uses_of_lastUse huse).2.1, hleaves, rfl⟩
      · exact .inl rfl

theorem Footprint.bucket (h : Footprint calls redis) (serverTime : ℚ)
    (userId : String) :
    ∃ stored, RedisDatabase.readBucket
        (redis.find serverTime (userKey userId)) = .ok stored ∧
      ∀ bucket, stored = some bucket → 0 ≤ bucket.tokens := by
  rcases h.found serverTime (userKey userId) with
    hnone | ⟨call, value, expiresAt, hown, hleaves, hfound⟩
  · rw [hnone]
    exact ⟨none, rfl, nofun⟩
  · rw [hfound]
    cases call with
    | record success now serverTime delivery =>
        exact absurd hown.symm (userKey_ne_windowKey userId success)
    | check user baseLimit healthFactor now serverTime delivery =>
        cases value with
        | sortedSet scores => cases hleaves
        | hash bucket =>
            refine ⟨some bucket, rfl, ?_⟩
            rintro _ ⟨⟩
            exact hleaves.2.1

theorem Footprint.window (h : Footprint calls redis) (serverTime : ℚ)
    (success : Bool) :
    ∃ scores, RedisEntry.readScores
        (redis.find serverTime (windowKey success)) = .ok scores ∧
      scores.Nodup ∧ ∀ score ∈ scores, ∃ serverTime delivery,
        delivery ≠ .failsBefore ∧
          record success score serverTime delivery ∈ calls := by
  rcases h.found serverTime (windowKey success) with
    hnone | ⟨call, value, expiresAt, hown, hleaves, hfound⟩
  · rw [hnone]
    exact ⟨[], rfl, List.nodup_nil, nofun⟩
  · rw [hfound]
    cases call with
    | check user baseLimit healthFactor now serverTime delivery =>
        exact absurd hown (userKey_ne_windowKey user success)
    | record kind now serverTime delivery =>
        obtain rfl := windowKey_injective hown
        cases value with
        | hash bucket => cases hleaves
        | sortedSet scores =>
            exact ⟨scores, rfl, hleaves.1,
              fun score hscore => (hleaves.2 score hscore).2⟩

theorem perform_of_not_isExecuted {call : RedisCall}
    (h : call.isExecuted = false) (redis : RedisDatabase) :
    (call.perform redis).2 = redis := by
  cases call with
  | check userId baseLimit healthFactor now serverTime delivery =>
      obtain rfl : delivery = .failsBefore := by simpa [isExecuted] using h
      simp only [perform, RedisDatabase.check]
      split <;> rfl
  | record success now serverTime delivery =>
      obtain rfl : delivery = .failsBefore := by simpa [isExecuted] using h
      rfl

theorem check_leaves {serverTime : ℚ} {userId : String}
    {stored : Option Bucket}
    (hread : RedisDatabase.readBucket
      (redis.find serverTime (userKey userId)) = .ok stored)
    (hnonneg : ∀ bucket, stored = some bucket → 0 ≤ bucket.tokens)
    {delivery : Delivery} (hdelivery : delivery ≠ .failsBefore) {limit : Int}
    (hpos : 0 < limit) (now : Int) :
    ∃ bucket : Bucket, bucket.lastRefill = now ∧ 0 ≤ bucket.tokens ∧
      bucket.tokens ≤ limit ∧
      (redis.check serverTime delivery (userKey userId) limit windowSeconds
        now).2 (userKey userId) =
          some ⟨.hash bucket,
            some (serverTime + RedisDatabase.bucketTtl limit windowSeconds)⟩ :=
    by
  -- a map from keys to buckets in which the script finds the same
  let buckets : Redis := fun _ => stored.map fun bucket => ⟨bucket, 0⟩
  have hbuckets : (buckets (userKey userId)).map StoredBucket.bucket =
      stored := by
    cases stored <;> rfl
  have htokens := congrArg
    (currentTokens · limit (limit / windowSeconds : ℚ) now) hbuckets.symm
  obtain ⟨-, hafter⟩ := RedisDatabase.check_of_found hread htokens delivery
  refine ⟨(RedisRateLimiter.execute buckets (userKey userId) limit
    windowSeconds now).bucket, ?_, ?_, ?_, ?_⟩
  · simp only [RedisRateLimiter.execute, tokenBucketScript_bucket]
  · simp only [RedisRateLimiter.execute, hbuckets]
    exact RedisRateLimiter.tokenBucketScript_tokens_nonneg hnonneg
      (RedisRateLimiter.limit_nonneg hpos) (RedisRateLimiter.rate_pos hpos).le
      now
  · have hfull := currentTokens_le_capacity stored limit
      (limit / windowSeconds : ℚ) now
    simp only [RedisRateLimiter.execute, hbuckets, tokenBucketScript_bucket]
    split <;> linarith
  · rw [hafter, if_neg hdelivery]

theorem Footprint.written (h : Footprint calls redis) {call : RedisCall}
    (hexecuted : call.isExecuted = true) :
    ∃ value, Leaves (calls ++ [call]) call value ∧
      (call.perform redis).2 call.key =
        some ⟨value, some (call.serverTime + call.timeToLive)⟩ := by
  cases call with
  | check userId baseLimit healthFactor now serverTime delivery =>
      obtain ⟨stored, hread, hnonneg⟩ := h.bucket serverTime userId
      obtain ⟨bucket, hnow, hlow, hhigh, hafter⟩ := check_leaves hread hnonneg
        (of_decide_eq_true hexecuted)
        (effectiveLimit_pos baseLimit healthFactor) now
      exact ⟨.hash bucket, ⟨hnow, hlow, hhigh⟩, hafter⟩
  | record success now serverTime delivery =>
      have hdelivery : delivery ≠ .failsBefore := of_decide_eq_true hexecuted
      obtain ⟨scores, hread, hnodup, hmade⟩ := h.window serverTime success
      refine ⟨.sortedSet ((scores.insert now).filter (now - 60 < ·)),
        ⟨hnodup.insert.filter _, ?_⟩, ?_⟩
      · intro score hscore
        rw [List.mem_filter, List.mem_insert_iff, decide_eq_true_eq] at hscore
        obtain ⟨rfl | hold, hrecent⟩ := hscore
        · exact ⟨hrecent, serverTime, delivery, hdelivery, by simp⟩
        · obtain ⟨serverTime', delivery', hexecuted', hmem⟩ := hmade score hold
          exact ⟨hrecent, serverTime', delivery', hexecuted',
            List.mem_append_left _ hmem⟩
      · have happly := recordCall_apply redis
          ⟨⟨now, serverTime⟩, success, delivery⟩ success
        rw [if_pos ⟨rfl, hdelivery⟩, recordCommands_eq hread] at happly
        exact happly

theorem Footprint.perform (h : Footprint calls redis) (call : RedisCall) :
    Footprint (calls ++ [call]) (call.perform redis).2 := by
  intro key
  rw [lastUse_concat]
  by_cases huses : uses key call = true
  · rw [if_pos huses]
    obtain ⟨rfl, hexecuted⟩ : call.key = key ∧ call.isExecuted = true := by
      simpa [uses] using huses
    exact h.written hexecuted
  · rw [if_neg huses]
    have hsame : (call.perform redis).2 key = redis key := by
      by_cases hkey : call.key = key
      · rw [perform_of_not_isExecuted]
        simpa [uses, hkey] using huses
      · exact (perform_actsOn call).frame redis (Ne.symm hkey)
    rw [hsame]
    have hkey := h key
    cases huse : lastUse key calls with
    | none =>
        rw [huse] at hkey
        exact hkey
    | some latest =>
        rw [huse] at hkey
        obtain ⟨value, hleaves, hredis⟩ := hkey
        exact ⟨value, hleaves.mono fun other hmem =>
          List.mem_append_left _ hmem, hredis⟩

theorem footprint_run (hempty : ∀ key, redis key = none)
    (calls : List RedisCall) :
    Footprint calls (runAll RedisCall.perform calls redis).2 := by
  induction calls using List.reverseRecOn with
  | nil => exact hempty
  | append_singleton calls call ih =>
      rw [runAll_concat]
      exact ih.perform call

end RateLimitedGateway.Services.RedisCall

namespace RateLimitedGateway.Main

open RateLimitedGateway.Foundation RateLimitedGateway.Infra
open RateLimitedGateway.Services
open Coroutine (Keeps)

variable {jobs : ℕ → Job} {shared : Shared} {last : Fleet}
variable {history : List FleetEntry}

theorem accepted_of_isCheckOf
    (h : History (fleetMachine jobs) (fleetStart jobs shared) history last)
    {call : RedisCall} (hmem : call ∈ redisCalls history) {userId : String}
    (hcheck : call.isCheckOf userId = true) :
    ∃ id claims, (jobs id).app.acceptedClaims (jobs id).request = some claims ∧
      claims.sub = userId := by
  obtain ⟨entry, hentry, hview⟩ := exists_view_of_mem hmem
  obtain ⟨later, earlier, rfl⟩ := List.append_of_mem hentry
  have hkeeps : Keeps ((jobs entry.input.1).app.orderly
        (jobs entry.input.1).request)
      (fun _ _ => True) ((fleetStart jobs shared).process entry.input.1)
      (App.firstStage (jobs entry.input.1).request) := App.orderly_requestTask
  have hfollows := (allowed_of_history h hkeeps fun _ _ => trivial).2
  obtain ⟨before, ⟨id, now⟩, ⟨question, reply⟩, after⟩ := entry
  cases question with
  | check user baseLimit healthFactor =>
      obtain rfl := Option.some.inj hview
      obtain rfl : user = userId := by
        simpa [RedisCall.isCheckOf] using hcheck
      obtain ⟨claims, haccepted, hsub⟩ :=
        Option.map_eq_some_iff.mp (hfollows _ _ _ rfl)
      exact ⟨id, claims, haccepted, hsub⟩
  | record success =>
      obtain rfl := Option.some.inj hview
      cases hcheck
  | _ => cases hview

/--
A key is there exactly as long as the latest call that has used it provides
for, and holds what that call leaves.  No one but a user whose token has been
accepted has a bucket, and none for more than two minutes and a second.
-/
theorem redis_footprint (hempty : ∀ key, shared.redis key = none)
    (h : History (fleetMachine jobs) (fleetStart jobs shared) history last)
    (key : String) (serverTime : ℚ) :
    ((last.shared.redis.find serverTime key).isSome = true ↔
      ∃ call, RedisCall.lastUse key (redisCalls history) = some call ∧
        serverTime ≤ call.serverTime + call.timeToLive) ∧
    ∀ entry, last.shared.redis.find serverTime key = some entry →
      ∃ call, RedisCall.lastUse key (redisCalls history) = some call ∧
        RedisCall.Leaves (redisCalls history) call entry.value ∧
        ∀ userId, key = userKey userId →
          (call.timeToLive = 120 ∨ call.timeToLive = 121) ∧ ∃ id claims,
            (jobs id).app.acceptedClaims (jobs id).request = some claims ∧
              claims.sub = userId := by
  have hfootprint : RedisCall.Footprint (redisCalls history)
      last.shared.redis := by
    have hredis : (runAll RedisCall.perform (redisCalls history)
        shared.redis).2 = last.shared.redis :=
      congrArg Prod.snd (redis_of_history h)
    rw [← hredis]
    exact RedisCall.footprint_run hempty _
  have hkey := hfootprint key
  cases huse : RedisCall.lastUse key (redisCalls history) with
  | none =>
      rw [huse] at hkey
      simp [RedisDatabase.find, hkey]
  | some call =>
      rw [huse] at hkey
      obtain ⟨value, hleaves, hredis⟩ := hkey
      obtain ⟨hmem, hown, -⟩ := RedisCall.uses_of_lastUse huse
      rw [RedisDatabase.find, hredis, Option.filter_some]
      constructor
      · simp [RedisEntry.isLive]
      · intro entry hfound
        split at hfound
        · obtain rfl := Option.some.inj hfound
          refine ⟨call, rfl, hleaves, fun userId huser => ?_⟩
          have hcheck :=
            (call.key_eq_userKey_iff userId).mp (hown.trans huser)
          exact ⟨RedisCall.timeToLive_of_isCheckOf hcheck,
            accepted_of_isCheckOf h hmem hcheck⟩
        · cases hfound

theorem redis_footprint_twoVisits :
    (twoVisits.2.shared.redis.find 120 (userKey "alice")).isSome = true ∧
      ¬ (twoVisits.2.shared.redis.find 121 (userKey "alice")).isSome = true :=
    by
  have huse : RedisCall.lastUse (userKey "alice") (redisCalls twoVisits.1) =
      some (.check "alice" 60 1 0 0 .completes) := by decide +kernel
  have httl : RedisDatabase.bucketTtl (effectiveLimit 60 1) windowSeconds =
      120 := by decide +kernel
  constructor
  · rw [(redis_footprint (fun _ => rfl) twoVisits_history _ _).1]
    exact ⟨_, huse,
      by norm_num [RedisCall.serverTime, RedisCall.timeToLive, httl]⟩
  · rw [(redis_footprint (fun _ => rfl) twoVisits_history _ _).1]
    rintro ⟨call, hcall, hlive⟩
    obtain rfl := Option.some.inj (huse.symm.trans hcall)
    norm_num [RedisCall.serverTime, RedisCall.timeToLive, httl] at hlive

end RateLimitedGateway.Main
