import RateLimitedGateway.Main.Fleet.Admission

/-!
# What the fleet writes down

Each request leaves one row in the log, after everything else that it does; the
rows of denied requests are the denials of the limiter.
-/

namespace RateLimitedGateway.Main

open RateLimitedGateway.Core RateLimitedGateway.Foundation
open RateLimitedGateway.Http RateLimitedGateway.Infra
open RateLimitedGateway.Middleware RateLimitedGateway.Routes
open RateLimitedGateway.Services
open Coroutine (Contract Keeps asking keeps_await keeps_pure)

variable {jobs : ℕ → Job} {shared : Shared} {last : Fleet}
variable {history : List FleetEntry}

/-! ## The rows -/

def written? : Turn Question.Answer → Option LogEntry
  | ⟨.writeLog entry, _⟩ => some entry
  | _ => none

def addedRows (entry : FleetEntry) : List RequestLog :=
  match entry.output with
  | ⟨.writeLog log, _⟩ =>
      match entry.input.2.delivery with
      | .failsBefore => []
      | _ => PostgresLogStore.write [] entry.input.2.utcNow log
  | _ => []

theorem perform_log {before after : Fleet} {id : ℕ} {now : Circumstances}
    {turn : Turn Question.Answer}
    (h : perform jobs id turn.1 now before.shared =
      some (turn.2, after.shared)) :
    after.shared.log =
      before.shared.log ++ addedRows ⟨before, (id, now), turn, after⟩ := by
  obtain ⟨question, reply⟩ := turn
  have hframe := (perform_frame h).2.2.2
  cases question with
  | writeLog entry =>
      simp only [perform] at h
      simp only [addedRows]
      cases hdelivery : now.delivery <;> rw [hdelivery] at h <;>
        obtain ⟨-, hafter⟩ := Prod.mk.inj (Option.some.inj h) <;>
        rw [← hafter]
      · exact PostgresLogStore.write_eq_append _ _ _
      · exact (List.append_nil _).symm
      · exact PostgresLogStore.write_eq_append _ _ _
  | _ => exact (hframe rfl).trans (List.append_nil _).symm

theorem log_of_history {first : Fleet}
    (h : History (fleetMachine jobs) first history last) :
    last.shared.log =
      first.shared.log ++ history.reverse.flatMap addedRows := by
  induction h with
  | start => exact (List.append_nil _).symm
  | next hpast hstep ih =>
      obtain ⟨_, -, hturn, -⟩ := interleaved_cases hstep
      rw [perform_log hturn, ih, List.reverse_cons, List.flatMap_append,
        List.append_assoc, List.flatMap_singleton]

/-! ## One row for each request -/

theorem App.loggedEntries_serve (app : App) (request : Request) :
    loggedEntries (app.serve request).events =
      (loggedEntries (app.serve request).events).head?.toList := by
  by_cases hpasses : app.Passes request
  · rw [app.serve_events request, if_pos hpasses]
    by_cases hurl : request.url? = none
    · rw [app.recorded_events_of_unreadable request hurl]
      rfl
    · obtain ⟨events, entry, hevents, hunlogged, -⟩ :=
        app.recorded_events_eq request hurl
      rw [hevents, loggedEntries_append_logged hunlogged entry]
      rfl
  · rw [app.serve_events request, if_neg hpasses]
    rfl

def writing (httpx : Httpx) : Contract Question.Answer (List LogEntry) where
  allows written _ := written = []
  promises := Promised httpx
  remember written turn := (written? turn).toList ++ written

namespace App

variable (app : App) (front : QuotaFront) (request : Request)

theorem limitedTask_asks {state : RequestState}
    (hpassed : app.passed request = some state) :
    Keeps (asking fun question : Question => question.writesLog = false)
      (fun _ _ => True) (app.limitedTask front request state) () := by
  have hhandled : ∀ state, Keeps
      (asking fun question : Question => question.writesLog = false)
      (fun _ _ => True) (app.handledTask front request state) () := by
    intro state
    refine ((app.handledTask_asks front request state).weaken
      fun _ _ _ => trivial).asking_mono ?_
    intro question hhandlers
    cases question with
    | writeLog entry => cases hhandlers
    | _ => rfl
  have hchecked : ∀ userId tier, Keeps
      (asking fun question : Question => question.writesLog = false)
      (fun _ _ => True) (app.checkedTask front request state userId tier) () :=
    by
    intro userId tier
    refine keeps_await rfl fun counts _ => keeps_await rfl ?_
    rintro (text | row) -
    · trivial
    refine keeps_await rfl fun utcNow _ => ?_
    change Keeps _ _ (if overflows _ = true then _ else _) ()
    split
    · trivial
    refine keeps_await rfl fun result _ => ?_
    change Keeps _ _ (if result.allowed = true then _ else _) ()
    split
    · exact (hhandled _).followed fun _ _ => trivial
    · trivial
  obtain ⟨-, -, htask⟩ | ⟨claims, -, -, htask⟩ :=
    app.limitedTask_cases front request hpassed <;> rw [htask]
  · exact hhandled state
  · exact hchecked claims.sub claims.tier

theorem serveTask_asks :
    Keeps (asking fun question : Question => question.writesLog = false)
      (fun _ _ => True) (app.serveTask front request) () := by
  unfold serveTask
  cases hpassed : app.passed request with
  | none => trivial
  | some state =>
      exact (app.limitedTask_asks front request hpassed).followed
        fun _ _ => trivial

theorem writing_requestTask :
    Keeps (writing app.httpx)
      (fun written served => written = loggedEntries served.events)
      (app.requestTask front request) [] := by
  have hserve : Keeps (writing app.httpx)
      (fun rest served => (rest = [] ∧ True) ∧
        ∃ answers, served = (app.answering answers).serve request)
      (app.serveTask front request) [] := by
    refine ((app.serveTask_asks front request).of_asking ?_).together
      (app.keeps_serveTask front request) fun _ _ hpromised => hpromised
    intro question hquestion
    refine ⟨rfl, fun reply => ?_⟩
    cases question with
    | writeLog entry => cases hquestion
    | _ => rfl
  refine hserve.bind ?_
  rintro _ served ⟨⟨rfl, -⟩, answers, rfl⟩
  have honce := (app.answering answers).loggedEntries_serve request
  split
  · next hnone =>
      rw [hnone] at honce
      exact keeps_pure honce.symm
  · next entry hentry =>
      rw [hentry] at honce
      exact keeps_await rfl fun _ _ => keeps_pure honce.symm

end App

theorem written_of_history
    (h : History (fleetMachine jobs) (fleetStart jobs shared) history last)
    (id : ℕ) :
    (turnsOf id history).filterMap written? =
      match last.process id with
      | .done served => loggedEntries served.events
      | .await _ _ => [] := by
  obtain ⟨-, -, hkept⟩ := keeps_of_history (P := fun _ => True)
    (fun id => writing (jobs id).app.httpx) (fun _ => []) trivial
    (fun id => (jobs id).app.writing_requestTask (jobs id).front
      (jobs id).request)
    (fun _ _ _ _ _ _ _ _ _ hperform => ⟨trivial, perform_promised hperform⟩) h
  have hremembered : ∀ turns, (writing (jobs id).app.httpx).rememberAll []
      turns = turns.filterMap written? := by
    intro turns
    induction turns with
    | nil => rfl
    | cons turn turns ih =>
        rw [Contract.rememberAll, ih]
        cases hturn : written? turn <;> simp [writing, hturn]
  have hlast := hkept id
  rw [hremembered] at hlast
  cases hprocess : last.process id with
  | done served =>
      rw [hprocess] at hlast
      exact hlast
  | await question resume =>
      rw [hprocess] at hlast
      exact hlast.1

/--
The log is what it has been at first and the rows that have been added in
order; a request that is done has written the entry of its record, once, and
one that is not done has written none.
-/
theorem recorded_once
    (h : History (fleetMachine jobs) (fleetStart jobs shared) history last) :
    last.shared.log = shared.log ++ history.reverse.flatMap addedRows ∧
      ∀ id, (turnsOf id history).filterMap written? =
        match last.process id with
        | .done served => loggedEntries served.events
        | .await _ _ => [] :=
  ⟨log_of_history h, written_of_history h⟩

theorem recorded_once_twoVisits :
    twoVisits.2.shared.log.length = 2 ∧
      twoVisits.2.shared.log =
        [] ++ twoVisits.1.reverse.flatMap addedRows ∧
      ∃ served, twoVisits.2.process 0 = .done served ∧
        (turnsOf 0 twoVisits.1).filterMap written? =
          loggedEntries served.events := by
  obtain ⟨hlog, hwritten⟩ := recorded_once twoVisits_history
  obtain ⟨served, hserved⟩ := twoVisits_done
  have hzero := hwritten 0
  rw [hserved] at hzero
  exact ⟨by decide +kernel, hlog, served, hserved, hzero⟩

/-! ## The rows of denied requests -/

def checks (events : List Event) : List (String × LimitResult) :=
  events.filterMap fun
    | .checked user result => some (user, result)
    | _ => none

namespace App

variable (app : App) (front : QuotaFront) (request : Request)

theorem enclosed_events (callNext : Next) :
    (app.enclosed request callNext {}).events =
      if app.Passes request then (app.recording request callNext {}).events
      else [] := by
  simp only [enclosed, serverErrorDispatch_events, securityHeadersDispatch,
    mapResponse_events]
  by_cases horigins : app.settings.allowedOrigins = [] <;>
    by_cases hhosts : app.settings.allowedHosts = ["*"] <;>
    cases hcors : app.corsAnswer request <;>
    cases hhost : app.hostAnswer request <;>
    simp [Passes, horigins, hhosts, hcors, hhost, answerDispatch]

theorem authDispatch_checks {state : RequestState}
    (hpassed : app.passed request = some state) (served : Served)
    (start : RequestState) :
    checks (authDispatch app.jwtDecode request (fun _ => served) start).events =
      checks served.events := by
  obtain ⟨hpublic, -, -⟩ | ⟨claims, haccepted, -, -⟩ :=
    app.passed_cases request hpassed
  · rw [authDispatch_public hpublic]
  · obtain ⟨token, hauth⟩ :=
      app.authDispatch_eq request haccepted (fun _ => served) start
    rw [hauth]
    rfl

theorem recording_checks (callNext : Next) :
    checks (app.recording request callNext {}).events =
      checks (authDispatch app.jwtDecode request callNext
        (app.begun request)).events := by
  simp only [recording, loggingDispatch, requestIdDispatch, mapResponse_events]
  cases request.url? with
  | none => rfl
  | some url =>
      rw [checks, List.filterMap_append, ← checks]
      exact List.append_nil _

theorem enclosed_checks {state : RequestState}
    (hpassed : app.passed request = some state) (served : Served) :
    checks (app.enclosed request (fun _ => served) {}).events =
      checks served.events := by
  have hpasses : app.Passes request := by
    by_contra hnot
    simp [passed, hnot] at hpassed
  rw [enclosed_events, if_pos hpasses, recording_checks,
    app.authDispatch_checks request hpassed]

theorem enclosed_checks_of_none :
    checks (app.enclosed request (fun state => ⟨.cancelled, state, []⟩)
      {}).events = [] := by
  have hauth : ∀ start, checks (authDispatch app.jwtDecode request
      (fun state => ⟨.cancelled, state, []⟩) start).events = [] := by
    intro start
    cases hpublic : isPublic authPublicPrefixes request.url.path with
    | true =>
        rw [authDispatch_public hpublic]
        rfl
    | false =>
        obtain ⟨exc, hauth⟩ | ⟨text, hauth⟩ | ⟨token, claims, -, -, hauth⟩ :=
          authDispatch_cases app.jwtDecode
            (fun state => ⟨.cancelled, state, []⟩) start hpublic <;>
          rw [hauth] <;> rfl
  rw [enclosed_events]
  split
  · rw [recording_checks, hauth]
  · rfl

end App

def denied (userId : String) (turn : Turn Question.Answer) : ℕ :=
  if (checkedBy userId turn).any (!·.allowed) then 1 else 0

def limitedEntry (userId : String) (entry : LogEntry) : Bool :=
  entry.rateLimited && entry.userId = userId

def limitedWrite (userId : String) (turn : Turn Question.Answer) : ℕ :=
  if (written? turn).any (limitedEntry userId) then 1 else 0

def unwritten (app : App) (request : Request) (userId : String) (rest : ℕ)
    (events : List Event) : Prop :=
  (checks events = [] ∧ rest = 0) ∨
    ∃ claims result, app.acceptedClaims request = some claims ∧
      checks events = [(claims.sub, result)] ∧
      rest = if !result.allowed ∧ claims.sub = userId then 1 else 0

/-- Denials gain what the entries of denied requests cost. -/
def auditing (httpx : Httpx) (userId : String) : Contract Question.Answer ℕ :=
  Coroutine.budget (Promised httpx) (denied userId) (limitedWrite userId)

section Audit

variable {app : App} {front : QuotaFront} {request : Request}
variable {userId : String}

theorem auditing_handledTask (state : RequestState) :
    Keeps (auditing app.httpx userId)
      (fun rest served => rest = 0 ∧ checks served.events = [])
      (app.handledTask front request state) 0 := by
  refine ((app.handledTask_asks front request state).of_asking ?_).weaken ?_
  · intro question hquestion
    cases question with
    | check user baseLimit healthFactor => cases hquestion
    | writeLog entry => cases hquestion
    | _ => exact ⟨fun _ _ => Nat.zero_le _, fun _ => rfl⟩
  · rintro rest served ⟨rfl, hnone⟩
    refine ⟨rfl, List.filterMap_eq_nil_iff.mpr fun event hmem => ?_⟩
    cases event with
    | checked user result => exact absurd hmem (hnone user result)
    | _ => rfl

theorem auditing_limitedTask {state : RequestState}
    (hpassed : app.passed request = some state) :
    Keeps (auditing app.httpx userId)
      (fun rest served => unwritten app request userId rest served.events)
      (app.limitedTask front request state) 0 := by
  obtain ⟨-, -, htask⟩ | ⟨claims, haccepted, -, htask⟩ :=
    app.limitedTask_cases front request hpassed <;> rw [htask]
  · exact (auditing_handledTask _).weaken fun _ _ hnone => .inl hnone.symm
  · refine keeps_await (fun _ _ => Nat.zero_le _) fun counts _ => ?_
    refine keeps_await (fun _ _ => Nat.zero_le _) ?_
    rintro (text | row) -
    · exact keeps_pure (.inl ⟨rfl, rfl⟩)
    refine keeps_await (fun _ _ => Nat.zero_le _) fun utcNow _ => ?_
    change Keeps _ _ (if overflows _ = true then _ else _) 0
    split
    · exact keeps_pure (.inl ⟨rfl, rfl⟩)
    refine keeps_await (fun _ _ => Nat.zero_le _) fun result _ => ?_
    have hrest : (0 + denied userId ⟨.check claims.sub
          (resolveLimit app.settings row utcNow claims.tier)
          (getHealthFactor counts), result⟩ - 0) =
        if !result.allowed ∧ claims.sub = userId then 1 else 0 := by
      by_cases huser : claims.sub = userId <;>
        simp [denied, checkedBy, huser]
    change Keeps _ _ (if result.allowed = true then _ else _) (0 + denied userId
      ⟨.check claims.sub (resolveLimit app.settings row utcNow claims.tier)
        (getHealthFactor counts), result⟩ - 0)
    rw [hrest]
    cases hallowed : result.allowed with
    | true =>
        refine (auditing_handledTask _).bind ?_
        rintro _ served ⟨rfl, hnone⟩
        refine keeps_pure (.inr ⟨claims, result, haccepted, ?_, ?_⟩)
        · simpa [checks] using hnone
        · simp [hallowed]
    | false =>
        refine keeps_pure (.inr ⟨claims, result, haccepted, rfl, ?_⟩)
        simp [hallowed]

theorem auditing_serveTask :
    Keeps (auditing app.httpx userId)
      (fun rest served => unwritten app request userId rest served.events)
      (app.serveTask front request) 0 := by
  unfold App.serveTask
  cases hpassed : app.passed request with
  | none => exact keeps_pure (.inl ⟨app.enclosed_checks_of_none request, rfl⟩)
  | some state =>
      refine (auditing_limitedTask hpassed).bind fun rest served hrest => ?_
      simp only [unwritten, ← app.enclosed_checks request hpassed served]
        at hrest
      exact keeps_pure hrest

theorem mem_checks_iff {events : List Event} {user : String}
    {result : LimitResult} :
    (user, result) ∈ checks events ↔ Event.checked user result ∈ events := by
  rw [checks, List.mem_filterMap]
  constructor
  · rintro ⟨event, hmem, hevent⟩
    cases event with
    | checked other found =>
        simp only [Option.some_inj, Prod.mk.injEq] at hevent
        obtain ⟨rfl, rfl⟩ := hevent
        exact hmem
    | _ => cases hevent
  · intro hmem
    exact ⟨_, hmem, rfl⟩

theorem unwritten_eq {rest : ℕ}
    (hrest : unwritten app request userId rest (app.serve request).events) :
    rest = ((loggedEntries (app.serve request).events).countP
      (limitedEntry userId)) := by
  by_cases hpasses : app.Passes request
  · by_cases hurl : request.url? = none
    · rw [app.serve_events request, if_pos hpasses,
        app.recorded_events_of_unreadable request hurl] at hrest ⊢
      obtain ⟨-, rfl⟩ | ⟨_, _, -, hone, -⟩ := hrest
      · rfl
      · cases hone
    obtain ⟨events, entry, hevents, hunlogged, -, hdescribes⟩ :=
      app.recorded_events_eq request hurl
    have hlimited := hdescribes.rateLimited_iff
    have huser := hdescribes.userId_eq
    rw [app.serve_events request, if_pos hpasses] at hrest ⊢
    rw [hevents, App.loggedEntries_append_logged hunlogged,
      List.countP_singleton]
    simp only [← mem_checks_iff] at hlimited
    obtain ⟨hnone, rfl⟩ | ⟨claims, result, haccepted, hone, rfl⟩ := hrest
    · rw [hnone] at hlimited
      have hfalse : entry.rateLimited = false := by
        simpa using hlimited
      simp [limitedEntry, hfalse]
    · rw [hone] at hlimited
      rw [haccepted] at huser
      have hdenied : entry.rateLimited = !result.allowed := by
        rw [Bool.eq_iff_iff, hlimited]
        simp
      simp [limitedEntry, hdenied, huser]
  · rw [app.serve_events request, if_neg hpasses] at hrest ⊢
    obtain ⟨-, rfl⟩ | ⟨_, _, -, hone, -⟩ := hrest
    · rfl
    · cases hone

theorem auditing_requestTask :
    Keeps (auditing app.httpx userId) (fun rest _ => rest = 0)
      (app.requestTask front request) 0 := by
  refine (auditing_serveTask.together (app.keeps_serveTask front request)
    fun _ _ hpromised => hpromised).bind ?_
  rintro rest _ ⟨hrest, answers, rfl⟩
  have hcount : rest = ((loggedEntries
      ((app.answering answers).serve request).events).countP
        (limitedEntry userId)) := unwritten_eq hrest
  rw [(app.answering answers).loggedEntries_serve request] at hcount
  split
  · next hnone =>
      rw [hnone] at hcount
      exact keeps_pure hcount
  · next entry hentry =>
      rw [hentry, Option.toList_some, List.countP_singleton] at hcount
      have hcost : limitedWrite userId ⟨.writeLog entry, ()⟩ = rest :=
        hcount.symm
      refine keeps_await (fun _ _ => ?_) fun _ _ => keeps_pure ?_
      · exact hcost.le
      · change rest + 0 - limitedWrite userId ⟨.writeLog entry, ()⟩ = 0
        omega

end Audit

def limitedRows (userId : String) (rows : List RequestLog) : ℕ :=
  rows.countP (limitedEntry userId ·.toLogEntry)

theorem limitedRows_addedRows_le {userId : String} (huncut : Uncut 128 userId)
    (entry : FleetEntry) :
    limitedRows userId (addedRows entry) ≤
      limitedWrite userId entry.output := by
  obtain ⟨before, ⟨id, now⟩, ⟨question, reply⟩, after⟩ := entry
  cases question with
  | writeLog log =>
      have hwrite : limitedRows userId
          (PostgresLogStore.write [] now.utcNow log) ≤
            if limitedEntry userId log then 1 else 0 := by
        unfold PostgresLogStore.write
        cases hstored : RequestLog.stored log with
        | none => exact Nat.zero_le _
        | some kept =>
            obtain ⟨hcut, hlimited⟩ := RequestLog.userId_of_stored hstored
            by_cases huser : kept.userId = userId
            · have hsame := huncut log.userId (huser ▸ hcut)
              simp [limitedRows, limitedEntry, hlimited, huser, hsame]
            · simp [limitedRows, limitedEntry, huser]
      simp only [addedRows]
      split
      · exact Nat.zero_le _
      · exact hwrite
  | _ => exact Nat.zero_le _

def Kept (entry : FleetEntry) : Prop :=
  ∀ log ∈ written? entry.output,
    entry.input.2.delivery ≠ .failsBefore ∧ RequestLog.Accepts log

theorem limitedRows_addedRows_of_kept {userId : String} {entry : FleetEntry}
    (hkept : Kept entry) :
    limitedRows userId (addedRows entry) =
      limitedWrite userId entry.output := by
  obtain ⟨before, ⟨id, now⟩, ⟨question, reply⟩, after⟩ := entry
  cases question with
  | writeLog log =>
      obtain ⟨hdelivery, haccepts⟩ := hkept log rfl
      have hstored := (RequestLog.stored_eq_self_iff log).mpr haccepts
      simp only [addedRows, PostgresLogStore.write, hstored, limitedRows,
        limitedWrite, written?, List.nil_append, List.countP_singleton,
        Option.any_some]
      rfl
  | _ => rfl

theorem limitedRows_flatMap (userId : String) (history : List FleetEntry) :
    limitedRows userId (history.reverse.flatMap addedRows) =
      (history.map fun entry => limitedRows userId (addedRows entry)).sum := by
  induction history with
  | nil => rfl
  | cons entry history ih =>
      rw [List.reverse_cons, List.flatMap_append, limitedRows,
        List.countP_append, ← limitedRows, ih, List.flatMap_singleton,
        List.map_cons, List.sum_cons, Nat.add_comm]
      rfl

/--
Of the user's rows in the log, those of denied requests are at most the
denials by the limiter on the shared database, unless the column cuts another
id to the user's; they are as many, once all requests are done that have begun,
if no entry has been lost or cut.
-/
theorem limited_rows_of_denials (userId : String)
    (h : History (fleetMachine jobs) (fleetStart jobs shared) history last) :
    ∃ added, last.shared.log = shared.log ++ added ∧
      (Uncut 128 userId → limitedRows userId added ≤
        (checked userId shared history).countP (!·.allowed)) ∧
      ((∀ entry ∈ history,
          ∃ served, last.process entry.input.1 = .done served) →
        (∀ entry ∈ history, Kept entry) →
        limitedRows userId added =
          (checked userId shared history).countP (!·.allowed)) := by
  have hpromised := (promised_of_history h).1
  have hdenials : (history.map (denied userId ·.output)).sum =
      (checked userId shared history).countP (!·.allowed) := by
    rw [checked_eq h, List.countP_reverse, ← sum_checked]
    rfl
  refine ⟨_, log_of_history h, ?_, ?_⟩
  · intro huncut
    have hspent := cost_le_gain_of_history
      (fun id => Promised (jobs id).app.httpx) (denied userId)
      (limitedWrite userId) (fun _ => true) h
      (fun id _ => auditing_requestTask) hpromised
    simp only [List.filter_true] at hspent
    rw [limitedRows_flatMap, ← hdenials]
    exact (List.sum_le_sum fun entry _ =>
      limitedRows_addedRows_le huncut entry).trans hspent
  · intro hdone hkept
    have hspent := cost_eq_gain_of_history
      (fun id => Promised (jobs id).app.httpx) (denied userId)
      (limitedWrite userId) h (fun id => auditing_requestTask) hdone hpromised
    rw [limitedRows_flatMap, ← hdenials, ← hspent]
    congr 1
    exact List.map_congr_left fun entry hmem =>
      limitedRows_addedRows_of_kept (hkept entry hmem)

def drained : Shared :=
  { idle with
    redis := fun key =>
      if key = "user:alice" then some ⟨.hash ⟨0, 0⟩, none⟩ else none }

def deniedVisits : List FleetEntry × Fleet :=
  played (fleetMachine aliceJobs) (fleetStart aliceJobs drained)
    (List.replicate 5 [(0, calm), (1, calm)]).flatten

theorem limited_rows_of_denials_deniedVisits :
    ∃ added, deniedVisits.2.shared.log = [] ++ added ∧
      limitedRows "alice" added ≤
        (checked "alice" drained deniedVisits.1).countP (!·.allowed) ∧
      limitedRows "alice" added = 2 := by
  have hdone : ∀ entry ∈ deniedVisits.1,
      ∃ served, deniedVisits.2.process entry.input.1 = .done served := by
    have hall : (deniedVisits.1.all fun entry =>
        (deniedVisits.2.process entry.input.1).result?.isSome) = true := by
      decide +kernel
    intro entry hmem
    exact Coroutine.exists_done (List.all_eq_true.mp hall entry hmem)
  have hkept : ∀ entry ∈ deniedVisits.1, Kept entry := by
    have hall : (deniedVisits.1.all fun entry =>
        (written? entry.output).all fun log =>
          entry.input.2.delivery ≠ .failsBefore ∧ RequestLog.Accepts log) =
          true := by
      decide +kernel
    intro entry hmem log hlog
    have hentry := List.all_eq_true.mp hall entry hmem
    rw [Option.mem_def.mp hlog] at hentry
    exact of_decide_eq_true hentry
  have hdenials : (checked "alice" drained deniedVisits.1).countP
      (!·.allowed) = 2 := by decide +kernel
  obtain ⟨added, hlog, hle, heq⟩ := limited_rows_of_denials "alice"
    (history_played (by decide +kernel) : History (fleetMachine aliceJobs)
      (fleetStart aliceJobs drained) deniedVisits.1 deniedVisits.2)
  exact ⟨added, hlog, hle (uncut_of_length_lt (by decide)),
    (heq hdone hkept).trans hdenials⟩

end RateLimitedGateway.Main
