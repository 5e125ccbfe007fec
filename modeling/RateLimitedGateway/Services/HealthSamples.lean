import Mathlib.Data.List.Dedup
import RateLimitedGateway.Services.UpstreamHealth

/-!
# The samples behind the health factor

Workers write one sample for each upstream result, writers prune, and a window
that nobody writes to expires.  Neither pruning nor expiry ever costs a sample
of the last minute.  But a sample is the member that its own clock reading
names, and two results of one kind with the same reading are one sample.
-/

namespace RateLimitedGateway.Services

open RateLimitedGateway.Foundation RateLimitedGateway.Infra

/-- The gateway's reading of the clock and the time at the Redis server. -/
structure Moment where
  now : ℚ
  serverTime : ℚ
  deriving DecidableEq, Repr

/-- The clock does not go back, and the server gains at most two minutes. -/
def Moment.Before (earlier later : Moment) : Prop :=
  earlier.now ≤ later.now ∧
    later.serverTime - earlier.serverTime ≤ later.now - earlier.now + 120

structure RecordCall extends Moment where
  success : Bool
  delivery : Delivery
  deriving DecidableEq, Repr

def recordCall (redis : RedisDatabase) (call : RecordCall) : RedisDatabase :=
  (recordUpstreamResult redis call.serverTime call.now call.delivery
    call.success).2

def recordAll (calls : List RecordCall) : RedisDatabase :=
  calls.foldl recordCall fun _ => none

/-- The totals of `get_health_factor`; `none` is a `RedisError`. -/
def healthCounts (redis : RedisDatabase) (reader : Moment) :
    Option (Nat × Nat) :=
  let since := reader.now - 60
  match RedisEntry.zcount since (redis.find reader.serverTime keySuccess),
      RedisEntry.zcount since (redis.find reader.serverTime keyError) with
  | .ok successes, .ok errors => some (successes, errors)
  | _, _ => none

/-! ## The calls that count -/

def ofKind (success : Bool) (calls : List RecordCall) : List RecordCall :=
  calls.filter (·.success = success)

def recent (since : ℚ) (calls : List RecordCall) : List RecordCall :=
  calls.filter (since < ·.now)

def executed (calls : List RecordCall) : List RecordCall :=
  calls.filter (·.delivery ≠ .failsBefore)

def recordsMade (success : Bool) (since : ℚ) (calls : List RecordCall) : ℕ :=
  (recent since (ofKind success calls)).length

def Distinct (calls : List RecordCall) : Prop :=
  (∀ call ∈ calls, call.delivery ≠ .failsBefore) ∧
    (calls.map (·.now)).Nodup

instance (calls : List RecordCall) : Decidable (Distinct calls) :=
  inferInstanceAs (Decidable (_ ∧ _))

/-! ## One write -/

theorem recordCommands_eq {entry : Option RedisEntry} {scores : List ℚ}
    (hscores : RedisEntry.readScores entry = .ok scores) (serverTime now : ℚ) :
    recordCommands serverTime now entry =
      some ⟨.sortedSet ((scores.insert now).filter (now - 60 < ·)),
        some (serverTime + 180)⟩ := by
  have hkept : (scores.insert now).filter (now - 60 < ·) ≠ [] := by
    apply List.ne_nil_of_mem (a := now)
    simp
  cases entry with
  | none =>
      cases hscores
      simp [recordCommands, RedisEntry.zadd, RedisEntry.zremrangebyscore,
        RedisEntry.expire]
  | some entry =>
      obtain ⟨value, expiresAt⟩ := entry
      cases value with
      | hash bucket => cases hscores
      | sortedSet found =>
          cases hscores
          simp only [recordCommands, RedisEntry.zadd,
            RedisEntry.zremrangebyscore, if_neg hkept, RedisEntry.expire]

theorem windowKey_injective {success other : Bool}
    (h : windowKey success = windowKey other) : success = other := by
  revert success other
  decide

theorem recordCall_apply (redis : RedisDatabase) (call : RecordCall)
    (success : Bool) :
    recordCall redis call (windowKey success) =
      if call.success = success ∧ call.delivery ≠ .failsBefore then
        recordCommands call.serverTime call.now
          (redis.find call.serverTime (windowKey success))
      else redis (windowKey success) := by
  by_cases hkind : call.success = success
  · subst hkind
    cases hdelivery : call.delivery <;>
      simp [recordCall, recordUpstreamResult, executePipeline, hdelivery,
        RedisDatabase.modify]
  · rw [if_neg (fun h => hkind h.1)]
    have hne : windowKey success ≠ windowKey call.success :=
      fun h => hkind (windowKey_injective h).symm
    exact (recordUpstreamResult_actsOn _ _ _ _).frame redis hne

/-! ## What a window holds -/

structure Sampled (entry : Option RedisEntry) (calls : List RecordCall)
    (since : ℚ) (scores : List ℚ) : Prop where
  reads : RedisEntry.readScores entry = .ok scores
  nodup : scores.Nodup
  made : ∀ x ∈ scores, ∃ call ∈ calls, call.now = x
  kept : ∀ call ∈ calls, since < call.now → call.now ∈ scores

theorem Sampled.mono {entry : Option RedisEntry} {calls : List RecordCall}
    {since later : ℚ} {scores : List ℚ} (h : Sampled entry calls since scores)
    (hlater : since ≤ later) : Sampled entry calls later scores :=
  { h with
    kept := fun call hmem hrecent =>
      h.kept call hmem (lt_of_le_of_lt hlater hrecent) }

theorem sampled_nil (since : ℚ) : Sampled none [] since [] where
  reads := rfl
  nodup := List.nodup_nil
  made _ hmem := absurd hmem List.not_mem_nil
  kept _ hmem := absurd hmem List.not_mem_nil

theorem executed_ofKind_append (success : Bool) (calls : List RecordCall)
    (call : RecordCall) :
    executed (ofKind success (calls ++ [call])) =
      executed (ofKind success calls) ++
        if call.success = success ∧ call.delivery ≠ .failsBefore then [call]
        else [] := by
  simp only [executed, ofKind, List.filter_append]
  by_cases hkind : call.success = success <;>
    by_cases hdelivery : call.delivery = .failsBefore <;>
    simp [hkind, hdelivery]

theorem find_recordCall_of_executed {redis : RedisDatabase}
    {call : RecordCall} {success : Bool} {scores : List ℚ}
    (hexecuted : call.success = success ∧ call.delivery ≠ .failsBefore)
    (hscores : RedisEntry.readScores
      (redis.find call.serverTime (windowKey success)) = .ok scores)
    (serverTime : ℚ) :
    RedisEntry.readScores
        ((recordCall redis call).find serverTime (windowKey success)) =
      .ok (if serverTime ≤ call.serverTime + 180 then
        (scores.insert call.now).filter (call.now - 60 < ·) else []) := by
  rw [RedisDatabase.find, recordCall_apply, if_pos hexecuted,
    recordCommands_eq hscores, Option.filter_some]
  by_cases hlive : serverTime ≤ call.serverTime + 180
  · simp only [RedisEntry.isLive, hlive, decide_true, if_true]
    rfl
  · simp only [RedisEntry.isLive, hlive, decide_false, Bool.false_eq_true,
      if_false]
    rfl

theorem Sampled.record {redis : RedisDatabase} {call : RecordCall}
    {success : Bool} {calls : List RecordCall} {since serverTime : ℚ}
    {scores : List ℚ}
    (hsampled : Sampled (redis.find call.serverTime (windowKey success)) calls
      since scores)
    (hexecuted : call.success = success ∧ call.delivery ≠ .failsBefore)
    (hpruned : call.now - 60 ≤ since)
    (hlive : ∀ sample ∈ calls ++ [call], since < sample.now →
      serverTime ≤ call.serverTime + 180) :
    ∃ after, Sampled
      ((recordCall redis call).find serverTime (windowKey success))
      (calls ++ [call]) since after := by
  refine ⟨_, find_recordCall_of_executed hexecuted hsampled.reads _, ?_, ?_, ?_⟩
  · split
    · exact (hsampled.nodup.insert).filter _
    · exact List.nodup_nil
  · intro x hx
    split at hx
    · rw [List.mem_filter, List.mem_insert_iff] at hx
      obtain ⟨rfl | hold, -⟩ := hx
      · exact ⟨call, by simp, rfl⟩
      · obtain ⟨earlier, hmem, rfl⟩ := hsampled.made x hold
        exact ⟨earlier, by simp [hmem], rfl⟩
    · cases hx
  · intro sample hmem hrecent
    rw [if_pos (hlive sample hmem hrecent), List.mem_filter,
      List.mem_insert_iff]
    constructor
    · rw [List.mem_append, List.mem_singleton] at hmem
      rcases hmem with hmem | rfl
      · exact .inr (hsampled.kept sample hmem hrecent)
      · exact .inl rfl
    · exact decide_eq_true (lt_of_le_of_lt hpruned hrecent)

theorem recordAll_append (calls : List RecordCall) (call : RecordCall) :
    recordAll (calls ++ [call]) = recordCall (recordAll calls) call := by
  simp [recordAll]

theorem recordAll_append_of_not {calls : List RecordCall} {call : RecordCall}
    {success : Bool}
    (hnot : ¬ (call.success = success ∧ call.delivery ≠ .failsBefore)) :
    recordAll (calls ++ [call]) (windowKey success) =
      recordAll calls (windowKey success) := by
  rw [recordAll_append, recordCall_apply, if_neg hnot]

theorem mem_of_mem_executed_ofKind {calls : List RecordCall} {success : Bool}
    {call : RecordCall} (hmem : call ∈ executed (ofKind success calls)) :
    call ∈ executed calls := by
  rw [executed, List.mem_filter] at hmem ⊢
  exact ⟨List.filter_sublist.subset hmem.1, hmem.2⟩

theorem sampled_recordAll {calls : List RecordCall}
    (hclock : calls.Pairwise fun earlier later =>
      earlier.toMoment.Before later.toMoment)
    {reader : Moment} (hreader : ∀ call ∈ calls, call.toMoment.Before reader)
    (success : Bool) :
    ∃ scores, Sampled
      ((recordAll calls).find reader.serverTime (windowKey success))
      (executed (ofKind success calls)) (reader.now - 60) scores := by
  induction calls using List.reverseRecOn generalizing reader with
  | nil => exact ⟨[], sampled_nil _⟩
  | append_singleton calls call ih =>
      rw [List.pairwise_append] at hclock
      obtain ⟨hclock, -, hlast⟩ := hclock
      have hcall : ∀ earlier ∈ calls, earlier.toMoment.Before call.toMoment :=
        fun earlier hmem => hlast earlier hmem call (List.mem_singleton_self _)
      rw [executed_ofKind_append]
      by_cases hexecuted :
          call.success = success ∧ call.delivery ≠ .failsBefore
      · obtain ⟨scores, hsampled⟩ := ih hclock hcall
        obtain ⟨hnow, hdrift⟩ := hreader call (by simp)
        have hpruned : call.now - 60 ≤ reader.now - 60 := by linarith
        rw [if_pos hexecuted, recordAll_append]
        refine (hsampled.mono hpruned).record hexecuted hpruned ?_
        intro sample hmem hrecent
        have hsample : sample.now ≤ call.now := by
          rw [List.mem_append, List.mem_singleton] at hmem
          rcases hmem with hmem | rfl
          · exact (hcall sample ((List.filter_sublist.trans
              List.filter_sublist).subset hmem)).1
          · exact le_rfl
        linarith
      · rw [if_neg hexecuted, List.append_nil,
          RedisDatabase.find_congr (recordAll_append_of_not hexecuted)]
        exact ih hclock fun earlier hmem => hreader earlier (by simp [hmem])

/-- Where the server's clock does not go back, in whatever order the calls
have read theirs. -/
theorem sampled_of_serverTimes {calls : List RecordCall} {since serverTime : ℚ}
    (hserver : (executed calls).Pairwise (·.serverTime ≤ ·.serverTime))
    (hlast : ∀ call ∈ executed calls, call.serverTime ≤ serverTime)
    (hpruned : ∀ call ∈ executed calls, call.now - 60 ≤ since)
    (hlive : ∀ call ∈ executed calls, since < call.now →
      serverTime ≤ call.serverTime + 180) (success : Bool) :
    ∃ scores, Sampled ((recordAll calls).find serverTime (windowKey success))
      (executed (ofKind success calls)) since scores := by
  induction calls using List.reverseRecOn generalizing serverTime with
  | nil => exact ⟨[], sampled_nil _⟩
  | append_singleton calls call ih =>
      have hsplit : executed (calls ++ [call]) =
          executed calls ++ executed [call] := List.filter_append _ _
      have hbefore : ∀ earlier ∈ executed calls,
          earlier ∈ executed (calls ++ [call]) := by
        intro earlier hmem
        rw [hsplit]
        exact List.mem_append_left _ hmem
      have hpruned' : ∀ earlier ∈ executed calls, earlier.now - 60 ≤ since :=
        fun earlier hmem => hpruned earlier (hbefore earlier hmem)
      rw [hsplit, List.pairwise_append] at hserver
      obtain ⟨hserver, -, horder⟩ := hserver
      rw [executed_ofKind_append]
      by_cases hexecuted :
          call.success = success ∧ call.delivery ≠ .failsBefore
      · have hself : call ∈ executed [call] := by
          simp [executed, hexecuted.2]
        have hmem : call ∈ executed (calls ++ [call]) := by
          rw [hsplit]
          exact List.mem_append_right _ hself
        obtain ⟨scores, hsampled⟩ := ih hserver
          (fun earlier hearlier => horder earlier hearlier call hself) hpruned'
          fun earlier hearlier hrecent => (hlast call hmem).trans
            (hlive earlier (hbefore earlier hearlier) hrecent)
        rw [if_pos hexecuted, recordAll_append]
        refine hsampled.record hexecuted (hpruned call hmem) ?_
        intro sample hsample hrecent
        rcases List.mem_append.mp hsample with hsample | hsample
        · have hearlier := mem_of_mem_executed_ofKind hsample
          have hordered := horder sample hearlier call hself
          have hkept := hlive sample (hbefore sample hearlier) hrecent
          linarith
        · rw [List.mem_singleton.mp hsample] at hrecent
          exact hlive call hmem hrecent
      · rw [if_neg hexecuted, List.append_nil,
          RedisDatabase.find_congr (recordAll_append_of_not hexecuted)]
        exact ih hserver (fun earlier hmem => hlast earlier (hbefore _ hmem))
          hpruned' fun earlier hmem => hlive earlier (hbefore _ hmem)

/-! ## What the reader counts -/

theorem length_dedup_eq_iff {calls : List RecordCall} :
    ((executed calls).map (·.now)).dedup.length = calls.length ↔
      Distinct calls := by
  have hdedup := (List.dedup_sublist ((executed calls).map (·.now))).length_le
  have hexecuted : (executed calls).length ≤ calls.length :=
    List.length_filter_le _ _
  rw [List.length_map] at hdedup
  constructor
  · intro hlength
    have hall : executed calls = calls := by
      have hall' : (executed calls).length = calls.length := by omega
      exact List.filter_sublist.eq_of_length hall'
    constructor
    · intro call hmem
      rw [← hall, executed, List.mem_filter] at hmem
      simpa using hmem.2
    · rw [hall] at hlength
      have hsame := (List.dedup_sublist (calls.map (·.now))).eq_of_length
        (by rw [hlength, List.length_map])
      exact List.dedup_eq_self.mp hsame
  · rintro ⟨hdelivered, hnodup⟩
    have hall : executed calls = calls := by
      apply List.filter_eq_self.mpr
      simpa using hdelivered
    rw [hall, hnodup.dedup, List.length_map]

theorem Sampled.zcount {entry : Option RedisEntry} {calls : List RecordCall}
    {since : ℚ} {scores : List ℚ}
    (hsampled : Sampled entry (executed calls) since scores)
    (hborder : ∀ call ∈ calls, call.now ≠ since) :
    RedisEntry.zcount since entry = .ok
      ((executed (recent since calls)).map (·.now)).dedup.length := by
  have hsame : (scores.filter (since ≤ ·)).Perm
      ((executed (recent since calls)).map (·.now)).dedup := by
    rw [List.perm_ext_iff_of_nodup (hsampled.nodup.filter _)
      (List.nodup_dedup _)]
    intro x
    simp only [List.mem_filter, List.mem_dedup, List.mem_map, executed, recent,
      decide_eq_true_eq]
    constructor
    · rintro ⟨hmem, hsince⟩
      obtain ⟨call, hcall, rfl⟩ := hsampled.made x hmem
      rw [executed, List.mem_filter, decide_eq_true_eq] at hcall
      have hpast := lt_of_le_of_ne hsince (hborder call hcall.1).symm
      exact ⟨call, ⟨⟨hcall.1, hpast⟩, hcall.2⟩, rfl⟩
    · rintro ⟨call, ⟨⟨hcall, hpast⟩, hexecuted⟩, rfl⟩
      refine ⟨hsampled.kept call ?_ hpast, hpast.le⟩
      rw [executed, List.mem_filter, decide_eq_true_eq]
      exact ⟨hcall, hexecuted⟩
  rw [RedisEntry.zcount, hsampled.reads, ← hsame.length_eq,
    ← List.countP_eq_length_filter]
  rfl

def totalsMade (calls : List RecordCall) (now : ℚ) : Nat × Nat :=
  (recordsMade true (now - 60) calls, recordsMade false (now - 60) calls)

/--
The totals are the numbers of calls in the last minute exactly when, of each
kind, no call of that minute failed and no two share a reading.
-/
theorem healthCounts_eq_totalsMade_iff {calls : List RecordCall}
    {reader : Moment}
    (hclock : calls.Pairwise fun earlier later =>
      earlier.toMoment.Before later.toMoment)
    (hreader : ∀ call ∈ calls, call.toMoment.Before reader)
    (hborder : ∀ call ∈ calls, call.now ≠ reader.now - 60) :
    healthCounts (recordAll calls) reader =
        some (totalsMade calls reader.now) ↔
      ∀ success,
        Distinct (recent (reader.now - 60) (ofKind success calls)) := by
  have hcount : ∀ success, RedisEntry.zcount (reader.now - 60)
      ((recordAll calls).find reader.serverTime (windowKey success)) = .ok
        ((executed (recent (reader.now - 60)
          (ofKind success calls))).map (·.now)).dedup.length := by
    intro success
    obtain ⟨scores, hsampled⟩ := sampled_recordAll hclock hreader success
    apply hsampled.zcount
    intro call hcall
    exact hborder call (List.filter_sublist.subset hcall)
  have hsuccesses := hcount true
  have herrors := hcount false
  simp only [windowKey, if_true] at hsuccesses
  simp only [windowKey, Bool.false_eq_true, if_false] at herrors
  simp only [healthCounts, hsuccesses, herrors, totalsMade, Option.some.injEq,
    Prod.mk.injEq, recordsMade, length_dedup_eq_iff, Bool.forall_bool]
  exact and_comm

def oneAMinute : List RecordCall :=
  [⟨⟨10, 0⟩, true, .completes⟩, ⟨⟨30, 20⟩, false, .failsAfter⟩,
    ⟨⟨70, 60⟩, true, .completes⟩]

theorem healthCounts_eq_totalsMade_iff_oneAMinute :
    healthCounts (recordAll oneAMinute) ⟨80, 70⟩ =
      some (totalsMade oneAMinute 80) := by
  refine (healthCounts_eq_totalsMade_iff ?_ ?_ ?_).mpr ?_
  · norm_num [oneAMinute, Moment.Before]
  · norm_num [oneAMinute, Moment.Before]
  · norm_num [oneAMinute]
  · decide +kernel

theorem equal_readings_lose_a_sample :
    ¬ ∀ (calls : List RecordCall) (reader : Moment),
      (calls.Pairwise fun earlier later =>
        earlier.toMoment.Before later.toMoment) →
      (∀ call ∈ calls, call.toMoment.Before reader) →
      (∀ call ∈ calls, call.now ≠ reader.now - 60) →
      (∀ call ∈ calls, call.delivery = .completes) →
      healthCounts (recordAll calls) reader =
        some (totalsMade calls reader.now) := by
  intro hkept
  have hcounts := hkept
    [⟨⟨100, 100⟩, true, .completes⟩, ⟨⟨100, 100⟩, true, .completes⟩] ⟨100, 100⟩
    (by norm_num [Moment.Before]) (by norm_num [Moment.Before]) (by norm_num)
    (by norm_num)
  revert hcounts
  decide +kernel

end RateLimitedGateway.Services
