import RateLimitedGateway.Services.HealthSamples
import RateLimitedGateway.Services.Isolation

/-!
# When limits are halved

The rate of errors is a quotient of doubles, and is compared with a double that
is a little more than a fifth.  For all totals that can occur this is the exact
comparison; so the factor follows from how many results Redis has been told of.
-/

namespace RateLimitedGateway.Services

open RateLimitedGateway.Foundation RateLimitedGateway.Infra

/-! ## The exact fifth -/

theorem errorThreshold_lt_quotient_iff {errors total : ℕ} (hpos : 0 < total)
    (htotal : total ≤ 8 * 10 ^ 15) :
    errorThreshold < binary64 (errors / total) ↔ total < 5 * errors := by
  have hcast : (0 : ℚ) < total := by exact_mod_cast hpos
  rw [errorThreshold_lt_iff (by positivity), lt_div_iff₀ hcast]
  constructor
  · intro hrate
    have hscaled : (total : ℚ) < 5 * errors := by linarith
    exact_mod_cast hscaled
  · intro hrate
    have hscaled : (total : ℚ) + 1 ≤ 5 * errors := by exact_mod_cast hrate
    have hbound : (total : ℚ) ≤ 8 * 10 ^ 15 := by exact_mod_cast htotal
    linarith

theorem getHealthFactor_eq_degraded_iff {successes errors : ℕ}
    (htotal : successes + errors ≤ 8 * 10 ^ 15) :
    getHealthFactor (some (successes, errors)) = degradedFactor ↔
      10 ≤ successes + errors ∧ successes + errors < 5 * errors := by
  have hne : (1 : ℚ) ≠ degradedFactor := by norm_num [degradedFactor]
  simp only [getHealthFactor]
  by_cases hfew : successes + errors < 10
  · rw [if_pos hfew]
    simp only [hne, false_iff]
    omega
  · have hpos : 0 < successes + errors := by omega
    have hexact :
        errorThreshold < binary64 (errors / (successes + errors : ℕ)) ↔
          successes + errors < 5 * errors :=
      errorThreshold_lt_quotient_iff hpos htotal
    rw [if_neg hfew]
    by_cases hrate : successes + errors < 5 * errors
    · rw [if_pos (hexact.mpr hrate)]
      simp only [true_iff]
      omega
    · rw [if_neg fun hlt => hrate (hexact.mp hlt)]
      simp only [hne, false_iff]
      omega

/-! ## What Redis has been told of -/

def samples (success : Bool) (since : ℚ) (calls : List RecordCall) : ℕ :=
  ((executed (recent since (ofKind success calls))).map
    (·.now)).dedup.length

theorem samples_le (success : Bool) (since : ℚ) (calls : List RecordCall) :
    samples success since calls ≤ calls.length := by
  have hsublist : (executed (recent since (ofKind success calls))).Sublist
      calls :=
    List.filter_sublist.trans
      (List.filter_sublist.trans List.filter_sublist)
  refine (List.dedup_sublist _).length_le.trans ?_
  rw [List.length_map]
  exact hsublist.length_le

structure ServerRuns (calls : List RecordCall) (reader : Moment) : Prop where
  ordered : (executed calls).Pairwise (·.serverTime ≤ ·.serverTime)
  reached : ∀ call ∈ executed calls, call.serverTime ≤ reader.serverTime

theorem healthCounts_eq_samples {redis : RedisDatabase}
    {calls : List RecordCall} {reader : Moment}
    (hwindows : ∀ success, redis (windowKey success) =
      recordAll calls (windowKey success))
    (hserver : ServerRuns calls reader)
    (hreader : ∀ call ∈ executed calls, call.toMoment.Before reader)
    (hborder : ∀ call ∈ calls, call.now ≠ reader.now - 60) :
    healthCounts redis reader =
      some (samples true (reader.now - 60) calls,
        samples false (reader.now - 60) calls) := by
  have hcount : ∀ success, RedisEntry.zcount (reader.now - 60)
      (redis.find reader.serverTime (windowKey success)) =
        .ok (samples success (reader.now - 60) calls) := by
    intro success
    have hpruned : ∀ call ∈ executed calls,
        call.now - 60 ≤ reader.now - 60 := fun call hmem =>
      sub_le_sub_right (hreader call hmem).1 60
    have hlive : ∀ call ∈ executed calls, reader.now - 60 < call.now →
        reader.serverTime ≤ call.serverTime + 180 := fun call hmem hrecent => by
      linarith [(hreader call hmem).2]
    obtain ⟨scores, hsampled⟩ := sampled_of_serverTimes hserver.ordered
      hserver.reached hpruned hlive success
    rw [RedisDatabase.find_congr (hwindows success)]
    apply hsampled.zcount
    intro call hcall
    exact hborder call (List.filter_sublist.subset hcall)
  have hsuccesses := hcount true
  have herrors := hcount false
  simp only [windowKey, if_true] at hsuccesses
  simp only [windowKey, Bool.false_eq_true, if_false] at herrors
  simp only [healthCounts, hsuccesses, herrors]

namespace RedisCall

def recordCall? : RedisCall → Option RecordCall
  | check _ _ _ _ _ _ => none
  | record success now serverTime delivery =>
      some ⟨⟨now, serverTime⟩, success, delivery⟩

def recordCalls (calls : List RedisCall) : List RecordCall :=
  calls.filterMap recordCall?

theorem windows_of_calls {redis : RedisDatabase} (calls : List RedisCall)
    (hredis : ∀ success, redis (windowKey success) = none) (success : Bool) :
    (runAll perform calls redis).2 (windowKey success) =
      recordAll (recordCalls calls) (windowKey success) := by
  induction calls using List.reverseRecOn with
  | nil => exact hredis success
  | append_singleton calls call ih =>
      rw [runAll_append]
      cases call with
      | check userId baseLimit healthFactor now serverTime delivery =>
          have hframe := (perform_actsOn (.check userId baseLimit healthFactor
            now serverTime delivery)).frame (runAll perform calls redis).2
              (userKey_ne_windowKey userId success).symm
          have hrecords : recordCalls (calls ++ [.check userId baseLimit
              healthFactor now serverTime delivery]) = recordCalls calls := by
            simp [recordCalls, recordCall?]
          rw [hrecords, ← ih]
          exact hframe
      | record kind now serverTime delivery =>
          have hrecords : recordCalls (calls ++ [.record kind now serverTime
              delivery]) = recordCalls calls ++
                [⟨⟨now, serverTime⟩, kind, delivery⟩] := by
            simp [recordCalls, recordCall?]
          rw [hrecords, recordAll, List.foldl_append, ← recordAll]
          simp only [runAll, perform, List.foldl_cons, List.foldl_nil]
          change recordCall (runAll perform calls redis).2
            ⟨⟨now, serverTime⟩, kind, delivery⟩ (windowKey success) = _
          rw [recordCall_apply, recordCall_apply, ih,
            RedisDatabase.find_congr ih]

end RedisCall

end RateLimitedGateway.Services
