import RateLimitedGateway.Main.Fleet.Admission
import RateLimitedGateway.Services.Halving

/-!
# What a check goes by

The limit of a check comes from the row and the totals that its own request has
read.  Between the reads and the check other requests run; but what has been
written before a request begins, the request sees.
-/

namespace RateLimitedGateway.Main

open RateLimitedGateway.Core RateLimitedGateway.Foundation
open RateLimitedGateway.Http RateLimitedGateway.Infra
open RateLimitedGateway.Middleware RateLimitedGateway.Routes
open RateLimitedGateway.Services
open Coroutine (Contract Keeps keeps_await)

variable {jobs : ℕ → Job} {shared : Shared} {last : Fleet}

/-! ## The reads of a request -/

structure Told (settings : Settings) (claims : Claims)
    (turns : List (Turn Question.Answer)) (baseLimit : Int)
    (healthFactor : ℚ) : Prop where
  factor : ∃ counts, (⟨.healthCounts, counts⟩ : Turn Question.Answer) ∈ turns ∧
    healthFactor = getHealthFactor counts
  limit : ∃ row utcNow,
    (⟨.selectOverride claims.sub, .ok row⟩ : Turn Question.Answer) ∈ turns ∧
    (⟨.utcNow, utcNow⟩ : Turn Question.Answer) ∈ turns ∧
    baseLimit = resolveLimit settings row utcNow claims.tier

def informed (settings : Settings) (accepted : Option Claims) :
    Contract Question.Answer (List (Turn Question.Answer)) where
  allows turns question :=
    match question with
    | .check user baseLimit healthFactor => ∃ claims, accepted = some claims ∧
        user = claims.sub ∧ Told settings claims turns baseLimit healthFactor
    | _ => True
  promises _ _ := True
  remember turns turn := turn :: turns

theorem informed_rememberAll (settings : Settings) (accepted : Option Claims)
    (turns : List (Turn Question.Answer)) :
    (informed settings accepted).rememberAll [] turns = turns := by
  induction turns with
  | nil => rfl
  | cons turn turns ih => exact congrArg (turn :: ·) ih

namespace App

variable (app : App) (front : QuotaFront) (request : Request)

theorem informed_handledTask (state : RequestState)
    (turns : List (Turn Question.Answer)) :
    Keeps (informed app.settings (app.acceptedClaims request))
      (fun _ _ => True) (app.handledTask front request state) turns := by
  have hasks := app.handledTask_asks front request state
  generalize app.handledTask front request state = program at hasks
  induction program generalizing turns with
  | done served => trivial
  | await question resume ih =>
      refine keeps_await ?_ fun reply _ => ih reply _ (hasks.2 reply trivial)
      have hquestion := hasks.1
      cases question with
      | check user baseLimit healthFactor => cases hquestion
      | _ => trivial

theorem informed_requestTask :
    Keeps (informed app.settings (app.acceptedClaims request))
      (fun _ _ => True) (app.requestTask front request) [] := by
  refine Keeps.followed ?_ fun turns served => ?_
  · unfold serveTask
    cases hpassed : app.passed request with
    | none => trivial
    | some state =>
        refine Keeps.followed ?_ fun _ _ => trivial
        obtain ⟨-, -, htask⟩ | ⟨claims, haccepted, -, htask⟩ :=
          app.limitedTask_cases front request hpassed <;> rw [htask]
        · exact app.informed_handledTask front request _ _
        · refine keeps_await trivial fun counts _ => keeps_await trivial ?_
          rintro (text | row) -
          · trivial
          refine keeps_await trivial fun utcNow _ => ?_
          change Keeps _ _ (if overflows _ = true then _ else _) _
          split
          · trivial
          refine keeps_await ⟨claims, haccepted, rfl, ?_, ?_⟩ fun result _ => ?_
          · exact ⟨counts, by simp [informed], rfl⟩
          · exact ⟨row, utcNow, by simp [informed], by simp [informed], rfl⟩
          · change Keeps _ _ (if result.allowed = true then _ else _) _
            split
            · exact (app.informed_handledTask front request _ _).followed
                fun _ _ => trivial
            · trivial
  · split
    · trivial
    · exact keeps_await trivial fun _ _ => trivial

end App

theorem told_of_history {first : Fleet} {entry : FleetEntry}
    {later earlier : List FleetEntry}
    (h : History (fleetMachine jobs) first (later ++ entry :: earlier) last)
    {job : Job} (hunstarted : first.process entry.input.1 =
      job.app.requestTask job.front job.request)
    {user : String} {baseLimit : Int} {healthFactor : ℚ} {result : LimitResult}
    (hcheck : entry.output = ⟨.check user baseLimit healthFactor, result⟩) :
    ∃ claims, job.app.acceptedClaims job.request = some claims ∧
      user = claims.sub ∧
      Told job.app.settings claims (turnsOf entry.input.1 earlier) baseLimit
        healthFactor := by
  have hkeeps := job.app.informed_requestTask job.front job.request
  rw [← hunstarted] at hkeeps
  have hallowed := allowed_of_history h hkeeps fun _ _ => trivial
  rw [informed_rememberAll, hcheck] at hallowed
  exact hallowed

/-! ## The row -/

def writesQuota (userId : String) (entry : FleetEntry) : Bool :=
  match entry.output.1 with
  | .commitQuota user _ _ => insertedId user = userId
  | .deleteQuota user => user = userId
  | _ => false

theorem override_of_quiet {first : Fleet} {history : List FleetEntry}
    {userId : String} (h : History (fleetMachine jobs) first history last)
    (hquiet : ∀ entry ∈ history, writesQuota userId entry = false) :
    ∀ entry ∈ history, entry.before.shared.overrides userId =
      first.shared.overrides userId := by
  refine (h.stable (P := fun fleet => fleet.shared.overrides userId =
    first.shared.overrides userId) rfl ?_).2
  intro entry hmem hbefore
  obtain ⟨_, _, hstep⟩ := h.of_mem hmem
  obtain ⟨_, -, hturn, -⟩ := interleaved_cases hstep
  have hframe := (perform_frame hturn).2.1
  have hwrites := hquiet entry hmem
  rw [← hbefore]
  obtain ⟨before, input, ⟨question, reply⟩, after⟩ := entry
  cases question with
  | commitQuota user existing body =>
      simp only [perform] at hturn
      split at hturn
      · obtain ⟨-, hafter⟩ := Prod.mk.inj (Option.some.inj hturn)
        rw [← hafter]
      · obtain ⟨-, hafter⟩ := Prod.mk.inj (Option.some.inj hturn)
        rw [← hafter]
        exact Shared.setOverride_of_ne _
          (Ne.symm (of_decide_eq_false hwrites)) _
  | deleteQuota user =>
      simp only [perform] at hturn
      split at hturn
      · obtain ⟨-, hafter⟩ := Prod.mk.inj (Option.some.inj hturn)
        rw [← hafter]
      · obtain ⟨-, hafter⟩ := Prod.mk.inj (Option.some.inj hturn)
        rw [← hafter]
        exact Shared.setOverride_of_ne _
          (Ne.symm (of_decide_eq_false hwrites)) _
  | _ => exact congrFun (hframe rfl) userId

theorem perform_selectOverride {id : ℕ} {now : Circumstances}
    {before after : Shared} {userId : String} {row : Option QuotaOverride}
    (h : perform jobs id (.selectOverride userId) now before =
      some (.ok row, after)) :
    selectOverride before.overrides userId = .ok row := by
  simp only [perform] at h
  split at h
  · obtain ⟨hrow, -⟩ := Prod.mk.inj (Option.some.inj h)
    cases hrow
  · exact (Prod.mk.inj (Option.some.inj h)).1

/--
A quota takes effect on the next request: of a request that begins after the
row of its user has been written for the last time, the check has the limit of
that row, as of the request's own reading of the clock, times a health factor
that the request has been answered.
-/
theorem override_in_force {middle : Fleet} {before : List FleetEntry}
    {entry : FleetEntry} {later earlier : List FleetEntry}
    (hbefore : History (fleetMachine jobs) (fleetStart jobs shared) before
      middle)
    (hduring : History (fleetMachine jobs) middle (later ++ entry :: earlier)
      last)
    (hunstarted : turnsOf entry.input.1 before = [])
    {user : String} {baseLimit : Int} {healthFactor : ℚ} {result : LimitResult}
    (hcheck : entry.output = ⟨.check user baseLimit healthFactor, result⟩)
    (hquiet : ∀ other ∈ earlier, writesQuota user other = false) :
    ∃ claims row utcNow counts,
      (jobs entry.input.1).app.acceptedClaims (jobs entry.input.1).request =
          some claims ∧
        user = claims.sub ∧
        selectOverride middle.shared.overrides user = .ok row ∧
        (⟨.utcNow, utcNow⟩ : Turn Question.Answer) ∈
          turnsOf entry.input.1 earlier ∧
        (⟨.healthCounts, counts⟩ : Turn Question.Answer) ∈
          turnsOf entry.input.1 earlier ∧
        baseLimit = resolveLimit (jobs entry.input.1).app.settings row utcNow
          claims.tier ∧
        healthFactor = getHealthFactor counts := by
  have hprocess : middle.process entry.input.1 =
      (jobs entry.input.1).app.requestTask (jobs entry.input.1).front
        (jobs entry.input.1).request := by
    have hleads := leads_of_history hbefore entry.input.1
    rw [hunstarted] at hleads
    exact hleads.eq_of_nil
  obtain ⟨claims, haccepted, rfl, ⟨counts, hcounts, hfactor⟩,
    row, utcNow, hrow, hnow, hlimit⟩ :=
      told_of_history hduring hprocess hcheck
  refine ⟨claims, row, utcNow, counts, haccepted, rfl, ?_, hnow, hcounts,
    hlimit, hfactor⟩
  obtain ⟨read, hread, hanswer⟩ := List.mem_map.mp hrow
  obtain ⟨hmem, -⟩ := List.mem_filter.mp hread
  obtain ⟨hearlier, -⟩ := hduring.at_entry
  have hsame := override_of_quiet hearlier hquiet read hmem
  obtain ⟨_, _, hstep⟩ := hearlier.of_mem hmem
  obtain ⟨_, -, hturn, -⟩ := interleaved_cases hstep
  obtain ⟨readBefore, readInput, readOutput, readAfter⟩ := read
  simp only at hanswer
  subst hanswer
  rw [← perform_selectOverride hturn]
  simp only [selectOverride]
  simp only at hsame
  rw [hsame]

def adminPut : Request :=
  { method := "PUT"
    scopePath := "/admin/quota/alice"
    url? := some ⟨"/admin/quota/alice", ""⟩
    headers := [("x-admin-key", "0123456789abcdef")]
    client := some "127.0.0.1"
    body := [] }

theorem no_reason_length_le :
    ∀ text ∈ (none : Option String), text.length ≤ 512 := by
  intro text htext
  cases htext

def quotaJobs (id : ℕ) : Job :=
  if id = 0 then
    { aliceJob with
      front :=
        { aliceJob.front with
          readBody := fun _ => some
            { customLimit := 5, reason := none, expiresAt := none,
              customLimit_pos := by decide, customLimit_le := by decide,
              reason_length_le := no_reason_length_le } }
      request := adminPut }
  else aliceJob

def quotaSet : List FleetEntry × Fleet :=
  played (fleetMachine quotaJobs) (fleetStart quotaJobs idle)
    (List.replicate 4 (0, calm))

def quotaRead : List FleetEntry × Fleet :=
  played (fleetMachine quotaJobs) quotaSet.2 (List.replicate 3 (1, calm))

def checkFields : Turn Question.Answer →
    Option (String × Int × ℚ × LimitResult)
  | ⟨.check user baseLimit healthFactor, result⟩ =>
      some (user, baseLimit, healthFactor, result)
  | _ => none

theorem eq_of_checkFields {turn : Turn Question.Answer} {user : String}
    {baseLimit : Int} {healthFactor : ℚ} {result : LimitResult}
    (h : checkFields turn = some (user, baseLimit, healthFactor, result)) :
    turn = ⟨.check user baseLimit healthFactor, result⟩ := by
  obtain ⟨question, reply⟩ := turn
  cases question with
  | check other limit factor =>
      cases h
      rfl
  | _ => cases h

theorem override_in_force_quotaRead :
    ∃ claims row utcNow counts,
      aliceJob.app.acceptedClaims aliceGet = some claims ∧
        "alice" = claims.sub ∧
        selectOverride quotaSet.2.shared.overrides "alice" = .ok row ∧
        (⟨.utcNow, utcNow⟩ : Turn Question.Answer) ∈ turnsOf 1 quotaRead.1 ∧
        (⟨.healthCounts, counts⟩ : Turn Question.Answer) ∈
          turnsOf 1 quotaRead.1 ∧
        5 = resolveLimit aliceJob.app.settings row utcNow claims.tier ∧
        1 = getHealthFactor counts := by
  have hfields : (fleetMachine quotaJobs quotaRead.2 (1, calm)).bind
      (fun stepped => checkFields stepped.1) =
        some ("alice", 5, 1, ⟨true, 5, 4, 0, false⟩) := by decide +kernel
  obtain ⟨⟨turn, after⟩, hstep, hturn⟩ := Option.bind_eq_some_iff.mp hfields
  have hbefore : History (fleetMachine quotaJobs) (fleetStart quotaJobs idle)
      quotaSet.1 quotaSet.2 := history_played (by decide +kernel)
  have hearlier : History (fleetMachine quotaJobs) quotaSet.2 quotaRead.1
      quotaRead.2 := history_played (by decide +kernel)
  have hunstarted : turnsOf 1 quotaSet.1 = [] :=
    List.eq_nil_of_length_eq_zero (by decide +kernel)
  have hquiet : (quotaRead.1.all fun other => !writesQuota "alice" other) =
      true := by decide +kernel
  let entry : FleetEntry := ⟨quotaRead.2, (1, calm), turn, after⟩
  have hduring : History (fleetMachine quotaJobs) quotaSet.2
      ([] ++ entry :: quotaRead.1) after := .next hearlier hstep
  refine override_in_force hbefore hduring hunstarted
    (eq_of_checkFields hturn) fun other hmem => ?_
  simpa using List.all_eq_true.mp hquiet other hmem

/-! ## The factor -/

def resultsRecorded (history : List FleetEntry) : List RecordCall :=
  RedisCall.recordCalls (redisCalls history)

theorem windows_of_history {history : List FleetEntry}
    (hwindows : ∀ success, shared.redis (windowKey success) = none)
    (h : History (fleetMachine jobs) (fleetStart jobs shared) history last)
    (success : Bool) :
    last.shared.redis (windowKey success) =
      recordAll (resultsRecorded history) (windowKey success) := by
  have hredis : (runAll RedisCall.perform (redisCalls history)
      shared.redis).2 = last.shared.redis :=
    congrArg Prod.snd (redis_of_history h)
  rw [← hredis]
  exact RedisCall.windows_of_calls (redisCalls history) hwindows success

/--
A health factor that a request is answered halves its limit exactly when, of
the results of the last minute that all workers have told Redis of, there are
ten or more, and more than a fifth of them are failures.  The workers' clocks
may disagree among each other, as long as none of them is past the reader's.
-/
theorem halved_iff_fifth_failed {entry : FleetEntry}
    {later earlier : List FleetEntry}
    (hwindows : ∀ success, shared.redis (windowKey success) = none)
    (h : History (fleetMachine jobs) (fleetStart jobs shared)
      (later ++ entry :: earlier) last)
    {counts : Option (ℕ × ℕ)} (hcounts : entry.output = ⟨.healthCounts, counts⟩)
    (hdelivery : entry.input.2.delivery = .completes)
    (hserver : ServerRuns (resultsRecorded earlier)
      ⟨entry.input.2.time, entry.input.2.serverTime⟩)
    (hreader : ∀ call ∈ executed (resultsRecorded earlier),
      call.toMoment.Before ⟨entry.input.2.time, entry.input.2.serverTime⟩)
    (hborder : ∀ call ∈ resultsRecorded earlier,
      call.now ≠ entry.input.2.time - 60)
    (hlength : (resultsRecorded earlier).length ≤ 4 * 10 ^ 15) :
    let successes := samples true (entry.input.2.time - 60)
      (resultsRecorded earlier)
    let errors := samples false (entry.input.2.time - 60)
      (resultsRecorded earlier)
    getHealthFactor counts = degradedFactor ↔
      10 ≤ successes + errors ∧ successes + errors < 5 * errors := by
  intro successes errors
  obtain ⟨hearlier, hstep, -⟩ := h.at_entry
  obtain ⟨_, -, hturn, -⟩ := interleaved_cases hstep
  have hread := healthCounts_eq_samples (windows_of_history hwindows hearlier)
    hserver hreader hborder
  obtain ⟨before, ⟨id, now⟩, output, after⟩ := entry
  simp only at hcounts
  subst hcounts
  have hanswer : counts = some (successes, errors) := by
    simp only [perform] at hturn
    simp only at hdelivery
    rw [hdelivery] at hturn
    rw [← hread]
    exact (Prod.mk.inj (Option.some.inj hturn)).1.symm
  rw [hanswer]
  apply getHealthFactor_eq_degraded_iff
  have hsuccesses : successes ≤ _ := samples_le true _ _
  have herrors : errors ≤ _ := samples_le false _ _
  omega

def workerJobs (id : ℕ) : Job := { aliceJob with worker := id }

/-- Ten requests time out; each clock is behind the one before. -/
def tenTimeouts : List FleetEntry × Fleet :=
  played (fleetMachine workerJobs) (fleetStart workerJobs idle)
    ((List.range 10).flatMap fun id => List.replicate 8
      (id, { calm with
        time := 10 - id
        exchange := .lost .timeoutException }))

def countsRead : Turn Question.Answer → Option (Option (ℕ × ℕ))
  | ⟨.healthCounts, counts⟩ => some counts
  | _ => none

theorem eq_of_countsRead {turn : Turn Question.Answer}
    {counts : Option (ℕ × ℕ)} (h : countsRead turn = some counts) :
    turn = ⟨.healthCounts, counts⟩ := by
  obtain ⟨question, reply⟩ := turn
  cases question with
  | healthCounts =>
      cases h
      rfl
  | _ => cases h

theorem halved_iff_fifth_failed_tenTimeouts :
    getHealthFactor (some (0, 10)) = degradedFactor := by
  let now : Circumstances := { calm with time := 10 }
  have hearlier : History (fleetMachine workerJobs) (fleetStart workerJobs idle)
      tenTimeouts.1 tenTimeouts.2 := history_played (by decide +kernel)
  have hresults : resultsRecorded tenTimeouts.1 =
      (List.range 10).map fun id : ℕ =>
        ⟨⟨10 - id, 0⟩, false, Delivery.completes⟩ := by decide +kernel
  have hread : (fleetMachine workerJobs tenTimeouts.2 (10, now)).bind
      (fun stepped => countsRead stepped.1) = some (some (0, 10)) := by
    decide +kernel
  have hsamples :
      let successes := samples true (10 - 60) (resultsRecorded tenTimeouts.1)
      let errors := samples false (10 - 60) (resultsRecorded tenTimeouts.1)
      10 ≤ successes + errors ∧ successes + errors < 5 * errors := by
    decide +kernel
  obtain ⟨⟨turn, after⟩, hstep, hturn⟩ := Option.bind_eq_some_iff.mp hread
  let entry : FleetEntry := ⟨tenTimeouts.2, (10, now), turn, after⟩
  have h : History (fleetMachine workerJobs) (fleetStart workerJobs idle)
      ([] ++ entry :: tenTimeouts.1) after := .next hearlier hstep
  refine (halved_iff_fifth_failed (fun _ => rfl) h (eq_of_countsRead hturn) rfl
    ⟨?_, ?_⟩ ?_ ?_ ?_).mpr hsamples <;> rw [hresults]
  · decide +kernel
  · norm_num [executed, List.range_succ, entry, now, calm]
  · norm_num [executed, Moment.Before, List.range_succ, entry, now, calm]
  · norm_num [List.range_succ, entry, now, calm]
  · decide

end RateLimitedGateway.Main
