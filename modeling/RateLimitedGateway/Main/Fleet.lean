import RateLimitedGateway.Foundation.Projection
import RateLimitedGateway.Infra.CircuitBreaker.OpenPeriod
import RateLimitedGateway.Infra.LogStore
import RateLimitedGateway.Main.Awaiting
import RateLimitedGateway.Services.HealthSamples
import RateLimitedGateway.Services.Isolation

/-!
# A fleet of workers

Any number of requests run on any number of workers.  They share the Redis
database, the table of overrides and the log; each worker has a circuit breaker
of its own.  One turn of a request is one round trip, or one section under the
breaker's lock; clock readings and failures are those of the turn.
-/

namespace RateLimitedGateway.Infra

theorem RedisDatabase.exists_check_eq (redis : RedisDatabase) (serverTime : ℚ)
    (delivery : Delivery) (key : String) (limit windowSeconds now : Int) :
    ∃ buckets delivery',
      (redis.check serverTime delivery key limit windowSeconds now).1 =
        (RedisRateLimiter.check buckets delivery' key limit windowSeconds
          now).1 := by
  cases hfind : readBucket (redis.find serverTime key) with
  | error text =>
      exact ⟨Redis.empty, .failsBefore, by simp only [check, hfind]; rfl⟩
  | ok stored =>
      refine ⟨fun _ => stored.map (StoredBucket.mk · 0), delivery, ?_⟩
      apply check_eq
      simp [hfind, Function.comp_def]

end RateLimitedGateway.Infra

namespace RateLimitedGateway.Main

open RateLimitedGateway.Foundation RateLimitedGateway.Http
open RateLimitedGateway.Infra RateLimitedGateway.Middleware
open RateLimitedGateway.Routes RateLimitedGateway.Services

structure Shared where
  redis : RedisDatabase
  overrides : QuotaTable
  log : List RequestLog
  breakers : ℕ → Calls ℕ

/-- What a turn meets: the clocks, and how the other side behaves. -/
structure Circumstances where
  /-- `epoch_now()`, `time.time()`, `time.monotonic()` and `utc_now()`. -/
  epochNow : Int
  time : ℚ
  monotonic : ℚ
  utcNow : ℚ
  serverTime : ℚ
  delivery : Delivery
  databaseError : Option String
  exchange : Exchange

def Circumstances.query {α : Type} (now : Circumstances)
    (answer : Except DbError α) : Except DbError α :=
  match now.databaseError with
  | some _ => .error .dbApiError
  | none => answer

theorem Circumstances.query_eq_ok {α : Type} (now : Circumstances)
    {answer : Except DbError α} {result : α}
    (h : now.query answer = .ok result) : answer = .ok result := by
  unfold query at h
  split at h
  · cases h
  · exact h

structure Job where
  worker : ℕ
  app : App
  front : QuotaFront
  request : Request

def takeSection (calls : Calls ℕ)
    (event : CallEvent HttpxError UpstreamResponse ℕ) :
    Option (CallOutcome HttpxError UpstreamResponse × Calls ℕ) :=
  upstreamBreaker.step calls event

def Shared.setBreaker (shared : Shared) (worker : ℕ) (calls : Calls ℕ) :
    Shared :=
  { shared with breakers := Function.update shared.breakers worker calls }

def Shared.setOverride (shared : Shared) (userId : String)
    (row : Option UserQuotaOverride) : Shared :=
  { shared with overrides := Function.update shared.overrides userId row }

@[simp] theorem Shared.setOverride_self (shared : Shared) (userId : String)
    (row : Option UserQuotaOverride) :
    (shared.setOverride userId row).overrides userId = row :=
  Function.update_self _ _ _

theorem Shared.setOverride_of_ne (shared : Shared) {userId other : String}
    (hne : other ≠ userId) (row : Option UserQuotaOverride) :
    (shared.setOverride userId row).overrides other = shared.overrides other :=
  Function.update_of_ne hne _ _

def perform (jobs : ℕ → Job) :
    Performance Shared ℕ Circumstances Question.Answer :=
  fun id question now shared =>
    let worker := (jobs id).worker
    match question with
    | .healthCounts =>
        match now.delivery with
        | .completes =>
            some (healthCounts shared.redis ⟨now.time, now.serverTime⟩, shared)
        | _ => some (none, shared)
    | .selectOverride userId =>
        match now.databaseError with
        | some text => some (.error text, shared)
        | none => some (selectOverride shared.overrides userId, shared)
    | .utcNow => some (now.utcNow, shared)
    | .check userId baseLimit healthFactor =>
        let (result, redis) := shared.redis.check now.serverTime now.delivery
          (userKey userId) (effectiveLimit baseLimit healthFactor)
          windowSeconds now.epochNow
        some (result, { shared with redis := redis })
    | .enterBreaker =>
        match takeSection (shared.breakers worker)
          (.arrive id now.monotonic) with
        | some (.admitted call, calls) =>
            some (.ok call, shared.setBreaker worker calls)
        | some (.rejected _ exc, calls) =>
            some (.error exc, shared.setBreaker worker calls)
        | _ => none
    | .finishCall call sent =>
        let ending := doUpstreamRequest (jobs id).app.httpx sent now.exchange
        match takeSection (shared.breakers worker)
          (.finish call ending now.monotonic) with
        | some (_, calls) => some (ending, shared.setBreaker worker calls)
        | none => none
    | .record success =>
        let (recorded, redis) := recordUpstreamResult shared.redis
          now.serverTime now.time now.delivery success
        some (recorded, { shared with redis := redis })
    | .selectQuota userId =>
        some (now.query (selectQuota userId (shared.overrides userId)), shared)
    | .commitQuota userId existing body =>
        let inserted := insertedId userId
        match now.query (commitUpsert inserted existing body now.utcNow
          (shared.overrides inserted)) with
        | .error exc => some (.error exc, shared)
        | .ok row => some (.ok (), shared.setOverride inserted row)
    | .refreshQuota userId =>
        some (now.query (refresh (shared.overrides userId)), shared)
    | .deleteQuota userId =>
        match now.query (deleteQuota userId (shared.overrides userId)) with
        | .error exc => some (.error exc, shared)
        | .ok row => some (.ok (), shared.setOverride userId row)
    | .writeLog entry =>
        match now.delivery with
        | .failsBefore => some ((), shared)
        | _ => some ((), { shared with
            log := PostgresLogStore.write shared.log now.utcNow entry })

abbrev Fleet := Processes Shared ℕ Question.Answer Served

abbrev FleetEntry := TurnEntry Shared ℕ Circumstances Question.Answer Served

def fleetMachine (jobs : ℕ → Job) :
    Machine Fleet (ℕ × Circumstances) (Turn Question.Answer) :=
  interleaved (perform jobs)

def fleetStart (jobs : ℕ → Job) (shared : Shared) : Fleet :=
  { shared := shared
    process := fun id =>
      (jobs id).app.requestTask (jobs id).front (jobs id).request }

/-! ## The parts of the shared state -/

def redisView (entry : FleetEntry) : Option (RedisCall × Option LimitResult) :=
  let now := entry.input.2
  match entry.output with
  | ⟨.check userId baseLimit healthFactor, result⟩ =>
      some (.check userId baseLimit healthFactor now.epochNow now.serverTime
        now.delivery, some result)
  | ⟨.record success, _⟩ =>
      some (.record success now.time now.serverTime now.delivery, none)
  | _ => none

def breakerView (jobs : ℕ → Job) (worker : ℕ) (entry : FleetEntry) :
    Option (CallEvent HttpxError UpstreamResponse ℕ ×
      CallOutcome HttpxError UpstreamResponse) :=
  let (id, now) := entry.input
  if (jobs id).worker = worker then
    match entry.output with
    | ⟨.enterBreaker, .ok call⟩ =>
        some (.arrive id now.monotonic, .admitted call)
    | ⟨.enterBreaker, .error exc⟩ =>
        some (.arrive id now.monotonic,
          .rejected (entry.before.shared.breakers worker).arrived exc)
    | ⟨.finishCall call _, ending⟩ =>
        some (.finish call ending now.monotonic, .finished call ending)
    | _ => none
  else none

def redisCalls (history : List FleetEntry) : List RedisCall :=
  (history.filterMap redisView).reverse.map Prod.fst

variable {jobs : ℕ → Job} {first last : Fleet} {history : List FleetEntry}

theorem exists_view_of_mem {call : RedisCall}
    (h : call ∈ redisCalls history) :
    ∃ entry ∈ history, (redisView entry).map Prod.fst = some call := by
  obtain ⟨answered, hanswered, rfl⟩ := List.mem_map.mp h
  obtain ⟨entry, hentry, hview⟩ :=
    List.mem_filterMap.mp (List.mem_reverse.mp hanswered)
  exact ⟨entry, hentry, congrArg (Option.map Prod.fst) hview⟩

def Question.writesRedis : Question → Bool
  | .check _ _ _ => true
  | .record _ => true
  | _ => false

def Question.writesOverrides : Question → Bool
  | .commitQuota _ _ _ => true
  | .deleteQuota _ => true
  | _ => false

def Question.writesBreaker : Question → Bool
  | .enterBreaker => true
  | .finishCall _ _ => true
  | _ => false

def Question.writesLog : Question → Bool
  | .writeLog _ => true
  | _ => false

theorem perform_frame {id : ℕ} {question : Question} {now : Circumstances}
    {shared after : Shared} {reply : question.Answer}
    (h : perform jobs id question now shared = some (reply, after)) :
    (question.writesRedis = false → after.redis = shared.redis) ∧
      (question.writesOverrides = false →
        after.overrides = shared.overrides) ∧
      (question.writesBreaker = false → after.breakers = shared.breakers) ∧
      (question.writesLog = false → after.log = shared.log) := by
  have hself : ∀ {reply' : question.Answer}, some (reply', shared) =
      some (reply, after) → after = shared := by
    rintro _ heq
    exact (congrArg Prod.snd (Option.some.inj heq)).symm
  cases question with
  | healthCounts =>
      simp only [perform] at h
      split at h <;> simp [hself h]
  | selectOverride userId =>
      simp only [perform] at h
      split at h <;> simp [hself h]
  | utcNow => simp [hself h]
  | selectQuota userId => simp [hself h]
  | refreshQuota userId => simp [hself h]
  | check userId baseLimit healthFactor =>
      obtain ⟨-, rfl⟩ := Prod.mk.inj (Option.some.inj h)
      simp [Question.writesRedis]
  | record success =>
      obtain ⟨-, rfl⟩ := Prod.mk.inj (Option.some.inj h)
      simp [Question.writesRedis]
  | writeLog entry =>
      simp only [perform] at h
      split at h
      · simp [hself h]
      · obtain ⟨-, rfl⟩ := Prod.mk.inj (Option.some.inj h)
        simp [Question.writesLog]
  | deleteQuota userId =>
      simp only [perform] at h
      split at h
      · simp [hself h]
      · obtain ⟨-, rfl⟩ := Prod.mk.inj (Option.some.inj h)
        simp [Question.writesOverrides, Shared.setOverride]
  | commitQuota userId existing body =>
      simp only [perform] at h
      split at h
      · simp [hself h]
      · obtain ⟨-, rfl⟩ := Prod.mk.inj (Option.some.inj h)
        simp [Question.writesOverrides, Shared.setOverride]
  | enterBreaker =>
      simp only [perform] at h
      split at h
      · obtain ⟨-, rfl⟩ := Prod.mk.inj (Option.some.inj h)
        simp [Question.writesBreaker, Shared.setBreaker]
      · obtain ⟨-, rfl⟩ := Prod.mk.inj (Option.some.inj h)
        simp [Question.writesBreaker, Shared.setBreaker]
      · cases h
  | finishCall call sent =>
      simp only [perform] at h
      split at h
      · obtain ⟨-, rfl⟩ := Prod.mk.inj (Option.some.inj h)
        simp [Question.writesBreaker, Shared.setBreaker]
      · cases h

section Turns

variable {id : ℕ} {now : Circumstances} {shared after : Shared}

theorem perform_check {userId : String} {baseLimit : Int} {healthFactor : ℚ}
    {result : LimitResult}
    (h : perform jobs id (.check userId baseLimit healthFactor) now shared =
      some (result, after)) :
    (RedisCall.check userId baseLimit healthFactor now.epochNow now.serverTime
      now.delivery).perform shared.redis = (some result, after.redis) := by
  obtain ⟨rfl, rfl⟩ := Prod.mk.inj (Option.some.inj h)
  rfl

theorem perform_record {success : Bool} {recorded : Except String Unit}
    (h : perform jobs id (.record success) now shared =
      some (recorded, after)) :
    recorded = .ok () ∧
      (RedisCall.record success now.time now.serverTime now.delivery).perform
        shared.redis = (none, after.redis) := by
  obtain ⟨rfl, rfl⟩ := Prod.mk.inj (Option.some.inj h)
  exact ⟨recordUpstreamResult_ok _ _ _ _ _, rfl⟩

theorem perform_enterBreaker {entered : Except CircuitOpenError ℕ}
    (h : perform jobs id .enterBreaker now shared = some (entered, after)) :
    let calls := shared.breakers (jobs id).worker
    ∃ outcome left,
      upstreamBreaker.step calls (.arrive id now.monotonic) =
          some ((outcome : CallOutcome HttpxError UpstreamResponse), left) ∧
        after = shared.setBreaker (jobs id).worker left ∧
        (∀ call, entered = .ok call → outcome = .admitted call) ∧
        ∀ exc, entered = .error exc → outcome = .rejected calls.arrived exc :=
    by
  intro calls
  simp only [perform, takeSection] at h
  split at h
  · next call left hstep =>
      obtain ⟨rfl, rfl⟩ := Prod.mk.inj (Option.some.inj h)
      exact ⟨_, left, hstep, rfl, by rintro _ ⟨⟩; rfl, nofun⟩
  · next number exc left hstep =>
      obtain ⟨rfl, rfl⟩ := Prod.mk.inj (Option.some.inj h)
      refine ⟨_, left, hstep, rfl, nofun, ?_⟩
      rintro _ ⟨⟩
      obtain ⟨_, _, _, _, _, _, hout, _⟩ | ⟨_, _, _, _, _, _, hout, _⟩ |
        ⟨_, _, _, _, _, _, hout, _⟩ := CircuitBreaker.step_cases hstep
      · cases hout
      · cases hout
        rfl
      · cases hout
  · cases h

theorem perform_finishCall {call : ℕ} {sent : UpstreamRequest}
    {ending : Ending HttpxError UpstreamResponse}
    (h : perform jobs id (.finishCall call sent) now shared =
      some (ending, after)) :
    ending = doUpstreamRequest (jobs id).app.httpx sent now.exchange ∧
      ∃ left, upstreamBreaker.step (shared.breakers (jobs id).worker)
          (.finish call ending now.monotonic) =
            some (.finished call ending, left) ∧
        after = shared.setBreaker (jobs id).worker left := by
  simp only [perform, takeSection] at h
  split at h
  · next outcome left hstep =>
      obtain ⟨rfl, rfl⟩ := Prod.mk.inj (Option.some.inj h)
      obtain ⟨_, _, _, heq, _⟩ | ⟨_, _, _, heq, _⟩ |
        ⟨_, _, _, heq, _, _, hout, _⟩ := CircuitBreaker.step_cases hstep
      · cases heq
      · cases heq
      · cases heq
        exact ⟨rfl, left, by rw [hstep, hout], rfl⟩
  · cases h

end Turns

theorem simulates_redis {entry : FleetEntry}
    (hstep : fleetMachine jobs entry.before entry.input =
      some (entry.output, entry.after)) :
    entry.Simulates (storeMachine RedisCall.perform)
      (fun fleet : Fleet => fleet.shared.redis) redisView := by
  obtain ⟨before, ⟨id, now⟩, ⟨question, reply⟩, after⟩ := entry
  obtain ⟨resume, -, hperform, -⟩ := interleaved_cases hstep
  cases question with
  | check userId baseLimit healthFactor =>
      exact congrArg some (perform_check hperform)
  | record success => exact congrArg some (perform_record hperform).2
  | _ => exact (perform_frame hperform).1 rfl

theorem simulates_breaker (worker : ℕ) {entry : FleetEntry}
    (hstep : fleetMachine jobs entry.before entry.input =
      some (entry.output, entry.after)) :
    entry.Simulates upstreamBreaker.step
      (fun fleet : Fleet => fleet.shared.breakers worker)
      (breakerView jobs worker) := by
  obtain ⟨before, ⟨id, now⟩, ⟨question, reply⟩, after⟩ := entry
  obtain ⟨resume, -, hperform, -⟩ := interleaved_cases hstep
  have hframe := (perform_frame hperform).2.2.1
  by_cases hworker : (jobs id).worker = worker
  · subst hworker
    cases question with
    | enterBreaker =>
        obtain ⟨outcome, left, htaken, hafter, hok, herror⟩ :=
          perform_enterBreaker hperform
        have hself : after.shared.breakers (jobs id).worker = left := by
          rw [hafter]
          exact Function.update_self _ _ _
        cases reply with
        | ok call =>
            simp only [Entry.Simulates, breakerView, if_true, hself]
            rw [htaken, hok call rfl]
        | error exc =>
            simp only [Entry.Simulates, breakerView, if_true, hself]
            rw [htaken, herror exc rfl]
    | finishCall call sent =>
        obtain ⟨-, left, htaken, hafter⟩ := perform_finishCall hperform
        have hself : after.shared.breakers (jobs id).worker = left := by
          rw [hafter]
          exact Function.update_self _ _ _
        simp only [Entry.Simulates, breakerView, if_true, hself]
        exact htaken
    | _ =>
        simp only [Entry.Simulates, breakerView, if_true]
        exact congrFun (hframe rfl) _
  · simp only [Entry.Simulates, breakerView, hworker, if_false]
    have hother : ∀ left,
        (before.shared.setBreaker (jobs id).worker left).breakers worker =
          before.shared.breakers worker :=
      fun left => Function.update_of_ne (Ne.symm hworker) _ _
    cases question with
    | enterBreaker =>
        obtain ⟨outcome, left, -, hafter, -⟩ := perform_enterBreaker hperform
        rw [hafter]
        exact hother left
    | finishCall call sent =>
        obtain ⟨-, left, -, hafter⟩ := perform_finishCall hperform
        rw [hafter]
        exact hother left
    | _ => exact congrFun (hframe rfl) worker

theorem perform_promised {id : ℕ} {question : Question} {now : Circumstances}
    {before after : Shared} {reply : question.Answer}
    (h : perform jobs id question now before = some (reply, after)) :
    Promised (jobs id).app.httpx question reply := by
  cases question with
  | check userId baseLimit healthFactor =>
      obtain ⟨rfl, -⟩ := Prod.mk.inj (Option.some.inj h)
      obtain ⟨buckets, delivery, hcheck⟩ := before.redis.exists_check_eq
        now.serverTime now.delivery (userKey userId)
        (effectiveLimit baseLimit healthFactor) windowSeconds now.epochNow
      exact ⟨buckets, delivery, now.epochNow, hcheck⟩
  | enterBreaker =>
      obtain ⟨outcome, left, hstep, -, hok, herror⟩ := perform_enterBreaker h
      obtain ⟨_, _, entered, heq, _, henter, hout, _⟩ |
        ⟨_, _, exc, heq, _, henter, hout, _⟩ |
        ⟨_, _, _, heq, _⟩ := CircuitBreaker.step_cases hstep
      · cases reply with
        | ok call => exact ⟨_, _, entered, henter⟩
        | error exc =>
            have hrejected := herror exc rfl
            rw [hout] at hrejected
            cases hrejected
      · cases reply with
        | ok call =>
            have hadmitted := hok call rfl
            rw [hout] at hadmitted
            cases hadmitted
        | error exc' =>
            have hrejected := herror exc' rfl
            rw [hout] at hrejected
            cases hrejected
            exact ⟨_, _, henter⟩
      · cases heq
  | finishCall call sent =>
      obtain ⟨rfl, -⟩ := perform_finishCall h
      exact ⟨now.exchange, rfl⟩
  | record success => exact (perform_record h).1
  | _ => trivial

theorem promised_of_history {shared : Shared}
    (h : History (fleetMachine jobs) (fleetStart jobs shared) history last) :
    (∀ entry ∈ history, Promised (jobs entry.input.1).app.httpx entry.output.1
      entry.output.2) ∧
    ∀ id, Coroutine.Keeps (collaborating (jobs id).app.httpx)
      (fun _ served => ∃ answers, served =
        ((jobs id).app.answering answers).serve (jobs id).request)
      (last.process id) () := by
  obtain ⟨-, hpromised, hkept⟩ := keeps_of_history (P := fun _ => True)
    (fun id => collaborating (jobs id).app.httpx) (fun _ => ()) trivial
    (fun id => (jobs id).app.keeps_requestTask (jobs id).front
      (jobs id).request)
    (fun _ _ _ _ _ _ _ _ _ hperform => ⟨trivial, perform_promised hperform⟩) h
  exact ⟨fun entry hmem => (hpromised entry hmem).2.1, hkept⟩

/-- The Redis database is that of the calls, whoever makes them. -/
theorem redis_of_history
    (h : History (fleetMachine jobs) first history last) :
    runAll RedisCall.perform (redisCalls history) first.shared.redis =
      ((history.filterMap redisView).reverse, last.shared.redis) := by
  have hproject := h.project fun entry hstep =>
    show entry.Simulates _ _ _ from simulates_redis hstep
  have hrun := runAll_of_history hproject
  have hcalls : redisCalls history =
      (history.filterMap (Entry.shown
        (fun fleet : Fleet => fleet.shared.redis) redisView)).reverse.map
          (·.input) := by
    rw [redisCalls, ← map_shown (fun fleet : Fleet => fleet.shared.redis),
      ← List.map_reverse, List.map_map]
    rfl
  rw [hcalls, hrun, List.map_reverse, map_shown]

/-- The breaker of each worker has a history of its own. -/
theorem breaker_of_history (worker : ℕ)
    (h : History (fleetMachine jobs) first history last) :
    History upstreamBreaker.step (first.shared.breakers worker)
      (history.filterMap (Entry.shown
        (fun fleet : Fleet => fleet.shared.breakers worker)
        (breakerView jobs worker)))
      (last.shared.breakers worker) :=
  h.project fun _ hstep => simulates_breaker worker hstep

/-! ## Two requests of one user -/

def aliceJob : Job :=
  { worker := 0
    app :=
      { freshApp with
        jwtDecode := fun _ => .decoded ⟨some "alice", some "free"⟩ }
    front :=
      { readBody := fun _ => none
        render := fun _ => ⟨.text "", 200, [], none⟩
        noContent := ⟨.text "", 204, [], none⟩ }
    request := aliceGet }

def aliceJobs : ℕ → Job := fun _ => aliceJob

def calm : Circumstances :=
  { epochNow := 0, time := 0, monotonic := 0, utcNow := 0, serverTime := 0,
    delivery := .completes, databaseError := none,
    exchange := .answered ⟨200, [], []⟩ }

def idle : Shared :=
  { redis := fun _ => none, overrides := fun _ => none, log := [],
    breakers := fun _ => Calls.fresh 0 }

def twoVisits : List FleetEntry × Fleet :=
  played (fleetMachine aliceJobs) (fleetStart aliceJobs idle)
    (List.replicate 8 [(0, calm), (1, calm)]).flatten

theorem twoVisits_history :
    History (fleetMachine aliceJobs) (fleetStart aliceJobs idle) twoVisits.1
      twoVisits.2 :=
  history_played (by decide +kernel)

theorem twoVisits_done : ∃ served, twoVisits.2.process 0 = .done served :=
  Coroutine.exists_done (by decide +kernel)

end RateLimitedGateway.Main
