import RateLimitedGateway.Main.Fleet.Admission

/-!
# The quota that a response promises

A granted check tells the user how many more are certain.  The promise is kept
on the shared database too, where other workers check and record, and where
keys expire: whoever finds no bucket is given a full one.
-/

namespace RateLimitedGateway.Services.RedisCall

open RateLimitedGateway.Foundation RateLimitedGateway.Infra

variable {userId : String} {redis : RedisDatabase} {tokens : ℚ}

/-- If there is a bucket of the user, it has at least so many tokens left. -/
def Holds (userId : String) (tokens : ℚ) (redis : RedisDatabase) : Prop :=
  ∀ bucket expiresAt,
    redis (userKey userId) = some ⟨.hash bucket, expiresAt⟩ →
      tokens ≤ bucket.tokens

theorem Holds.mono (h : Holds userId tokens redis) {fewer : ℚ}
    (hfewer : fewer ≤ tokens) : Holds userId fewer redis :=
  fun bucket expiresAt hfound => hfewer.trans (h bucket expiresAt hfound)

theorem Holds.le_currentTokens (h : Holds userId tokens redis) {limit : Int}
    (hpos : 0 < limit) (hlimit : tokens ≤ limit) {serverTime : ℚ}
    {stored : Option Bucket}
    (hread : RedisDatabase.readBucket
      (redis.find serverTime (userKey userId)) = .ok stored) (now : Int) :
    tokens ≤ currentTokens stored limit (limit / windowSeconds : ℚ) now := by
  cases stored with
  | none => rwa [currentTokens_none]
  | some bucket =>
      have hstored : ∃ expiresAt,
          redis (userKey userId) = some ⟨.hash bucket, expiresAt⟩ := by
        unfold RedisDatabase.find at hread
        cases hfound : redis (userKey userId) with
        | none =>
            rw [hfound] at hread
            cases hread
        | some entry =>
            obtain ⟨value, expiresAt⟩ := entry
            rw [hfound, Option.filter_some] at hread
            split at hread
            · cases value with
              | hash found =>
                  cases hread
                  exact ⟨expiresAt, rfl⟩
              | sortedSet scores => cases hread
            · cases hread
      obtain ⟨expiresAt, hstored⟩ := hstored
      have htokens := h bucket expiresAt hstored
      have hgain : 0 ≤ max 0 ((now : ℚ) - bucket.lastRefill) *
          (limit / windowSeconds) :=
        mul_nonneg (le_max_left _ _) (RedisRateLimiter.rate_pos hpos).le
      rw [currentTokens_some]
      exact le_min (by linarith) hlimit

theorem Holds.check_allowed (h : Holds userId 1 redis) (serverTime : ℚ)
    (delivery : Delivery) {limit : Int} (hpos : 0 < limit) (now : Int) :
    (redis.check serverTime delivery (userKey userId) limit windowSeconds
      now).1.allowed = true := by
  unfold RedisDatabase.check
  cases hread : RedisDatabase.readBucket
      (redis.find serverTime (userKey userId)) with
  | error text => rfl
  | ok stored =>
      cases delivery with
      | failsBefore => rfl
      | failsAfter => rfl
      | completes =>
          have hone := h.le_currentTokens hpos (by exact_mod_cast hpos) hread
            now
          simp only [decide_eq_true_eq]
          exact (tokenBucketScript_allowed _ _ _ _).mpr hone

theorem Holds.check (h : Holds userId tokens redis) (serverTime : ℚ)
    (delivery : Delivery) {limit : Int} (hpos : 0 < limit)
    (hlimit : tokens ≤ limit) (now : Int) :
    Holds userId (tokens - 1) (redis.check serverTime delivery
      (userKey userId) limit windowSeconds now).2 := by
  have hfewer : tokens - 1 ≤ tokens := sub_le_self _ zero_le_one
  unfold RedisDatabase.check
  cases hread : RedisDatabase.readBucket
      (redis.find serverTime (userKey userId)) with
  | error text => exact h.mono hfewer
  | ok stored =>
      have hcurrent := h.le_currentTokens hpos hlimit hread now
      have hafter : ∀ ttl, Holds userId (tokens - 1)
          (Function.update redis (userKey userId) (some ⟨.hash
            (tokenBucketScript stored limit (limit / windowSeconds : ℚ)
              now).bucket, ttl⟩)) := by
        intro ttl bucket expiresAt hfound
        rw [Function.update_self] at hfound
        cases hfound
        rw [tokenBucketScript_bucket]
        dsimp only
        split <;> linarith
      cases delivery with
      | failsBefore => exact h.mono hfewer
      | failsAfter => exact hafter _
      | completes => exact hafter _

theorem Holds.perform (h : Holds userId tokens redis) (call : RedisCall)
    (hlimit : ∀ execution ∈ call.execution? userId,
      tokens ≤ execution.call.limit) :
    Holds userId (tokens - (call.execution? userId).toList.length)
      (call.perform redis).2 := by
  cases hexecution : call.execution? userId with
  | none =>
      have hsame := (perform_of_not_executed hexecution redis Redis.empty).1
      rw [Option.toList_none, List.length_nil, Nat.cast_zero, sub_zero, Holds,
        hsame]
      exact h
  | some execution =>
      have hbelow := hlimit execution hexecution
      cases call with
      | record => cases hexecution
      | check user baseLimit healthFactor now serverTime delivery =>
          simp only [execution?] at hexecution
          split at hexecution
          · next hexecuted =>
              obtain ⟨rfl, -⟩ := hexecuted
              obtain rfl := Option.some.inj hexecution
              rw [Option.toList_some, List.length_singleton, Nat.cast_one]
              exact h.check serverTime delivery
                (effectiveLimit_pos baseLimit healthFactor) hbelow now
          · cases hexecution

theorem Holds.runAll (h : Holds userId tokens redis) {calls : List RedisCall}
    (hlimits : ∀ execution ∈ executions userId calls,
      tokens ≤ execution.call.limit) :
    Holds userId (tokens - (executions userId calls).length)
      (runAll RedisCall.perform calls redis).2 := by
  induction calls using List.reverseRecOn with
  | nil => simpa [executions, Foundation.runAll] using h
  | append_singleton calls call ih =>
      simp only [executions_concat, List.mem_append,
        Option.mem_toList] at hlimits
      have hearlier := ih fun execution hmem => hlimits execution (.inl hmem)
      have hstep := hearlier.perform call fun execution hmem =>
        (sub_le_self _ (Nat.cast_nonneg _)).trans
          (hlimits execution (.inr hmem))
      rw [runAll_concat, executions_concat, List.length_append, Nat.cast_add,
        ← sub_sub]
      exact hstep

theorem holds_remaining {call : RedisCall} {result : LimitResult}
    (hcheck : call.isCheckOf userId = true)
    (hresult : (call.perform redis).1 = some result)
    (hreal : result.degraded = false) (hsome : 0 < result.remaining) :
    Holds userId result.remaining (call.perform redis).2 := by
  cases call with
  | record => cases hcheck
  | check user baseLimit healthFactor now serverTime delivery =>
      obtain rfl : user = userId := by simpa [isCheckOf] using hcheck
      simp only [perform, RedisDatabase.check] at hresult ⊢
      cases hread : RedisDatabase.readBucket
          (redis.find serverTime (userKey user)) with
      | error text =>
          rw [hread] at hresult
          obtain rfl := Option.some.inj hresult
          cases hreal
      | ok stored =>
          rw [hread] at hresult
          cases delivery with
          | failsBefore =>
              obtain rfl := Option.some.inj hresult
              cases hreal
          | failsAfter =>
              obtain rfl := Option.some.inj hresult
              cases hreal
          | completes =>
              obtain rfl := Option.some.inj hresult
              intro bucket expiresAt hfound
              simp only [Function.update_self] at hfound
              cases hfound
              simp only [tokenBucketScript] at hsome ⊢
              split
              · exact Int.floor_le _
              · next hdenied => simp [hdenied] at hsome

theorem allowed_of_remaining {between : List RedisCall}
    {first next : RedisCall} (hfirst : first.isCheckOf userId = true)
    (hnext : next.isCheckOf userId = true) {promised answered : LimitResult}
    (hpromised : (first.perform redis).1 = some promised)
    (hreal : promised.degraded = false)
    (hlimits : ∀ execution ∈ executions userId between,
      promised.remaining ≤ execution.call.limit)
    (hfew : (executions userId between).length < promised.remaining)
    (hanswered : (next.perform
      (runAll perform between (first.perform redis).2).2).1 = some answered) :
    answered.allowed = true := by
  have hholds := (holds_remaining hfirst hpromised hreal (by omega)).runAll
    fun execution hmem => by exact_mod_cast hlimits execution hmem
  have hone : (1 : Int) ≤ promised.remaining -
    (executions userId between).length := by omega
  cases next with
  | record => cases hnext
  | check user baseLimit healthFactor now serverTime delivery =>
      obtain rfl : user = userId := by simpa [isCheckOf] using hnext
      obtain rfl := Option.some.inj hanswered
      exact (hholds.mono (by exact_mod_cast hone)).check_allowed _ _
        (effectiveLimit_pos _ _) _

end RateLimitedGateway.Services.RedisCall

namespace RateLimitedGateway.Main

open RateLimitedGateway.Foundation RateLimitedGateway.Infra
open RateLimitedGateway.Services

variable {jobs : ℕ → Job} {shared : Shared} {last : Fleet}

theorem redisCalls_append (later earlier : List FleetEntry) :
    redisCalls (later ++ earlier) = redisCalls earlier ++ redisCalls later := by
  simp only [redisCalls, List.filterMap_append, List.reverse_append,
    List.map_append]

theorem check_of_checkedBy {userId : String} {entry : FleetEntry}
    {result : LimitResult}
    (hstep : fleetMachine jobs entry.before entry.input =
      some (entry.output, entry.after))
    (hchecked : checkedBy userId entry.output = some result) :
    ∃ call : RedisCall, redisCalls [entry] = [call] ∧
      call.isCheckOf userId = true ∧
      (call.perform entry.before.shared.redis).1 = some result := by
  obtain ⟨before, ⟨id, now⟩, ⟨question, reply⟩, after⟩ := entry
  obtain ⟨resume, -, hperform, -⟩ := interleaved_cases hstep
  cases question with
  | check user baseLimit healthFactor =>
      simp only [checkedBy] at hchecked
      split at hchecked
      · next huser =>
          obtain rfl := Option.some.inj hchecked
          exact ⟨_, rfl, by simp [RedisCall.isCheckOf, huser],
            congrArg Prod.fst (perform_check hperform)⟩
      · cases hchecked
  | _ => cases hchecked

theorem redis_before
    {later earlier : List FleetEntry} {entry : FleetEntry}
    (h : History (fleetMachine jobs) (fleetStart jobs shared)
      (later ++ entry :: earlier) last) :
    entry.before.shared.redis =
      (runAll RedisCall.perform (redisCalls earlier) shared.redis).2 :=
  (congrArg Prod.snd (redis_of_history h.at_entry.1)).symm

/--
A user who is told that so many calls are left is not turned away before they
are made, whatever the other users and the other workers do in between: of the
user's own checks, only those count that Redis executes.
-/
theorem remaining_kept {userId : String}
    {later between earlier : List FleetEntry} {granted next : FleetEntry}
    (h : History (fleetMachine jobs) (fleetStart jobs shared)
      (later ++ next :: (between ++ granted :: earlier)) last)
    {promised answered : LimitResult}
    (hpromised : checkedBy userId granted.output = some promised)
    (hreal : promised.degraded = false)
    (hlimits : ∀ execution ∈ RedisCall.executions userId (redisCalls between),
      promised.remaining ≤ execution.call.limit)
    (hfew : (RedisCall.executions userId (redisCalls between)).length <
      promised.remaining)
    (hanswered : checkedBy userId next.output = some answered) :
    answered.allowed = true := by
  obtain ⟨hpast, hnextStep, -⟩ := h.at_entry
  obtain ⟨-, hgrantedStep, -⟩ := hpast.at_entry
  obtain ⟨call, hcall, hcheck, hresult⟩ :=
    check_of_checkedBy hnextStep hanswered
  obtain ⟨first, hfirst, hfirstCheck, hfirstResult⟩ :=
    check_of_checkedBy hgrantedStep hpromised
  have hcalls : redisCalls (between ++ granted :: earlier) =
      redisCalls earlier ++ [first] ++ redisCalls between := by
    rw [redisCalls_append, ← List.singleton_append, redisCalls_append, hfirst]
  rw [redis_before hpast] at hfirstResult
  rw [redis_before h, hcalls, runAll_append, runAll_concat] at hresult
  exact RedisCall.allowed_of_remaining hfirstCheck hcheck hfirstResult hreal
    hlimits hfew hresult

def threeVisits : List FleetEntry × Fleet :=
  played (fleetMachine aliceJobs) (fleetStart aliceJobs idle)
    ((List.replicate 4 [0, 1]).flatten.map (·, calm) ++
      List.replicate 4 (2, calm))

theorem remaining_kept_threeVisits :
    (threeVisits.1.head?.bind (checkedBy "alice" ·.output)).any (·.allowed) =
      true := by
  have h : History (fleetMachine aliceJobs) (fleetStart aliceJobs idle)
      threeVisits.1 threeVisits.2 := history_played (by decide +kernel)
  have hthird : threeVisits.1.head?.bind (checkedBy "alice" ·.output) =
      some ⟨true, 60, 57, 0, false⟩ := by decide +kernel
  have hfirst : threeVisits.1[5]?.bind (checkedBy "alice" ·.output) =
      some ⟨true, 60, 59, 0, false⟩ := by decide +kernel
  rw [hthird]
  obtain ⟨next, hnext, hanswered⟩ := Option.bind_eq_some_iff.mp hthird
  obtain ⟨granted, hgranted, hpromised⟩ := Option.bind_eq_some_iff.mp hfirst
  obtain ⟨past, hpast⟩ := List.head?_eq_some_iff.mp hnext
  have hsplit : threeVisits.1 = [] ++ next ::
      ((threeVisits.1.drop 1).take 4 ++ granted :: threeVisits.1.drop 6) := by
    obtain ⟨hlt, rfl⟩ := List.getElem?_eq_some_iff.mp hgranted
    have hdrop : threeVisits.1.drop 5 = (threeVisits.1.drop 1).drop 4 := by
      rw [List.drop_drop]
    rw [← List.drop_eq_getElem_cons hlt, hdrop, List.take_append_drop,
      List.nil_append, hpast]
    rfl
  have hlimits : (RedisCall.executions "alice"
      (redisCalls ((threeVisits.1.drop 1).take 4))).all
        (fun execution => 59 ≤ execution.call.limit) = true := by
    decide +kernel
  rw [hsplit] at h
  refine remaining_kept h hpromised rfl ?_ (by decide +kernel) hanswered
  intro execution hmem
  exact of_decide_eq_true (List.all_eq_true.mp hlimits execution hmem)

end RateLimitedGateway.Main
