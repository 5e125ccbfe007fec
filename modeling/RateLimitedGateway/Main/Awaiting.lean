import RateLimitedGateway.Foundation.Coroutine
import RateLimitedGateway.Main.Arrival
import RateLimitedGateway.Routes.QuotaHistory

/-!
# A request as a coroutine

Where the gateway awaits a collaborator, other requests may run.  So a request
is a coroutine whose questions are these awaits, in the order of the source;
what lies between two of them runs without interruption.  However its questions
are answered, it serves what the application serves when the collaborators'
answers are fixed beforehand.
-/

namespace RateLimitedGateway.Main

open RateLimitedGateway.Core RateLimitedGateway.Foundation
open RateLimitedGateway.Http RateLimitedGateway.Infra
open RateLimitedGateway.Middleware RateLimitedGateway.Routes
open RateLimitedGateway.Services

inductive Question where
  | healthCounts
  | selectOverride (userId : String)
  | utcNow
  | check (userId : String) (baseLimit : Int) (healthFactor : ℚ)
  | enterBreaker
  | finishCall (call : ℕ) (sent : UpstreamRequest)
  | record (success : Bool)
  | selectQuota (userId : String)
  | commitQuota (userId : String) (existing : Option UserQuotaOverride)
      (body : QuotaOverrideCreate)
  | refreshQuota (userId : String)
  | deleteQuota (userId : String)
  | writeLog (entry : LogEntry)

@[reducible] def Question.Answer : Question → Type
  | healthCounts => Option (ℕ × ℕ)
  | selectOverride _ => Except String (Option QuotaOverride)
  | utcNow => ℚ
  | check _ _ _ => LimitResult
  | enterBreaker => Except CircuitOpenError ℕ
  | finishCall _ _ => Ending HttpxError UpstreamResponse
  | record _ => Except String Unit
  | selectQuota _ => Except DbError (Option UserQuotaOverride)
  | commitQuota _ _ _ => Except DbError Unit
  | refreshQuota _ => Except DbError UserQuotaOverride
  | deleteQuota _ => Except DbError Unit
  | writeLog _ => Unit

abbrev Task := Coroutine Question Question.Answer

def Question.ask (question : Question) : Task question.Answer :=
  Coroutine.ask question

open Question (ask)
open Coroutine (Contract Keeps keeps_await keeps_pure)

/-! ## The handlers -/

structure QuotaFront where
  readBody : Request → Option QuotaOverrideCreate
  render : UserQuotaOverride → Response
  noContent : Response

def dbErrorText : DbError → String
  | .integrityError => "IntegrityError"
  | .staleDataError => "StaleDataError"
  | .invalidRequestError => "InvalidRequestError"
  | .dbApiError => "DBAPIError"

def dbRaised (exc : DbError) : Reply :=
  .raised (.otherException (dbErrorText exc))

def upsertQuotaTask (userId : String) (body : QuotaOverrideCreate) :
    Task (Except DbError UserQuotaOverride) := do
  match ← ask (.selectQuota userId) with
  | .error exc => pure (.error exc)
  | .ok existing =>
      match ← ask (.commitQuota userId existing body) with
      | .error exc => pure (.error exc)
      | .ok () => ask (.refreshQuota userId)

def afterRecordingTask (conclusion : Conclusion) : Task Reply :=
  match conclusion.recorded with
  | none => pure conclusion.reply
  | some success => do
      match ← ask (.record success) with
      | .ok () => pure conclusion.reply
      | .error text => pure (.raised (.otherException text))

namespace App

variable (app : App) (front : QuotaFront) (request : Request)

def proxyTask (path : String) : Task Reply := do
  let sent := upstreamRequest app.settings.upstreamBaseUrl path request
  let called ← do
    match ← ask .enterBreaker with
    | .error exc => pure (.error exc)
    | .ok call => do
        let ending ← ask (.finishCall call sent)
        pure (.ok ending)
  afterRecordingTask (conclude called)

def handlerTask (endpoint : Endpoint) (parameter : String)
    (state : RequestState) : Task Reply :=
  match endpoint with
  | .proxy => app.proxyTask request parameter
  | .upsertQuota =>
      match front.readBody request with
      | none => pure (app.handle .upsertQuota parameter request state)
      | some body => do
          match ← upsertQuotaTask parameter body with
          | .ok override => pure (.responded (front.render override))
          | .error exc => pure (dbRaised exc)
  | .getQuota => do
      match ← ask (.selectQuota parameter) with
      | .error exc => pure (dbRaised exc)
      | .ok none =>
          pure (.raised (.gatewayError ⟨.notFoundError,
            "No quota override for user '" ++ parameter ++ "'.", []⟩))
      | .ok (some override) => pure (.responded (front.render override))
  | .deleteQuota => do
      match ← ask (.deleteQuota parameter) with
      | .error exc => pure (dbRaised exc)
      | .ok () => pure (.responded front.noContent)
  | endpoint => pure (app.handle endpoint parameter request state)

def routerTask (state : RequestState) : Task Served :=
  match findRoute routes request.method request.scopePath with
  | .found endpoint parameter =>
      match app.solve endpoint parameter request with
      | .ok () => do
          let reply ← app.handlerTask front request endpoint parameter state
          pure ⟨reply, state, [.handled endpoint parameter]⟩
      | .error exc => pure ⟨.raised exc, state, []⟩
  | .methodNotAllowed allowed =>
      pure ⟨.raised (.httpException 405 "Method Not Allowed"
        [("Allow", ", ".intercalate allowed)]), state, []⟩
  | .unmatched => pure ⟨app.unmatched request, state, []⟩

/-! ## The middlewares -/

def handledTask (state : RequestState) : Task Served := do
  let served ← app.routerTask front request state
  pure (exceptionDispatch (fun _ => served) state)

def checkedTask (state : RequestState) (userId tier : String) : Task Served :=
  do
    let healthFactor := getHealthFactor (← ask .healthCounts)
    match ← ask (.selectOverride userId) with
    | .error text => pure ⟨.raised (.otherException text), state, []⟩
    | .ok row => do
        let utcNow ← ask .utcNow
        let baseLimit := resolveLimit app.settings row utcNow tier
        if overflows baseLimit then
          pure ⟨.raised (.otherException "OverflowError"), state, []⟩
        else do
          let result ← ask (.check userId baseLimit healthFactor)
          let state := { state with rateLimitInfo := some result }
          if result.allowed then do
            let served ← app.handledTask front request state
            let limited := served.mapResponse (putRateLimit result)
            pure { limited with
              events := .checked userId result :: limited.events }
          else
            pure ⟨.responded (deniedResponse state result), state,
              [.checked userId result]⟩

def limitedTask (state : RequestState) : Task Served :=
  match request.url? with
  | none => pure ⟨.raised (.otherException "ValueError"), state, []⟩
  | some url =>
      if isPublic rateLimitPublicPrefixes url.path then
        app.handledTask front request state
      else
        match state.userId, state.tier with
        | some userId, some tier =>
            app.checkedTask front request state userId tier
        | _, _ => pure ⟨.raised (.otherException "AttributeError"), state, []⟩

def recording (callNext : Next) : Next :=
  loggingDispatch app.latencyMs request
    (requestIdDispatch app.generatedId request
      (authDispatch app.jwtDecode request callNext))

def enclosed (callNext : Next) : Next :=
  let recorded := app.recording request callNext
  let hosted :=
    if app.settings.allowedHosts ≠ ["*"] then
      answerDispatch app.hostAnswer request recorded
    else recorded
  let shared :=
    if app.settings.allowedOrigins ≠ [] then
      answerDispatch app.corsAnswer request fun state =>
        (hosted state).mapResponse (app.corsHeaders request)
    else hosted
  serverErrorDispatch (securityHeadersDispatch app.settings shared)

def passed : Option RequestState :=
  if app.Passes request then
    if isPublic authPublicPrefixes request.url.path then
      some (app.begun request)
    else (app.acceptedClaims request).map (app.begun request).attachUser
  else none

def serveTask : Task Served :=
  match app.passed request with
  | none =>
      pure (app.enclosed request (fun state => ⟨.cancelled, state, []⟩) {})
  | some state => do
      let served ← app.limitedTask front request state
      pure (app.enclosed request (fun _ => served) {})

theorem passed_cases {state : RequestState}
    (hpassed : app.passed request = some state) :
    (isPublic authPublicPrefixes request.url.path = true ∧
        app.acceptedClaims request = none ∧ state = app.begun request) ∨
      ∃ claims, app.acceptedClaims request = some claims ∧
        isPublic authPublicPrefixes request.url.path = false ∧
        state = (app.begun request).attachUser claims := by
  unfold passed at hpassed
  split at hpassed
  · split at hpassed
    · next hpublic =>
        cases hpassed
        exact .inl ⟨hpublic, app.acceptedClaims_of_public request hpublic, rfl⟩
    · obtain ⟨claims, haccepted, rfl⟩ := Option.map_eq_some_iff.mp hpassed
      exact .inr ⟨claims, haccepted,
        app.isPublic_eq_false_of_accepted request haccepted, rfl⟩
  · cases hpassed

theorem limitedTask_cases {state : RequestState}
    (hpassed : app.passed request = some state) :
    (isPublic authPublicPrefixes request.url.path = true ∧
        app.acceptedClaims request = none ∧
        app.limitedTask front request state =
          app.handledTask front request state) ∨
      ∃ claims, app.acceptedClaims request = some claims ∧
        isPublic authPublicPrefixes request.url.path = false ∧
        app.limitedTask front request state =
          app.checkedTask front request state claims.sub claims.tier := by
  obtain ⟨hpublic, hnone, rfl⟩ | ⟨claims, haccepted, hprivate, rfl⟩ :=
    app.passed_cases request hpassed
  · refine .inl ⟨hpublic, hnone, ?_⟩
    simp only [limitedTask, url?_of_isPublic (by decide +kernel) hpublic,
      isPublic_rateLimit, hpublic, if_true]
  · refine .inr ⟨claims, haccepted, hprivate, ?_⟩
    simp only [limitedTask, app.url?_of_accepted request haccepted,
      isPublic_rateLimit, hprivate, RequestState.attachUser,
      Bool.false_eq_true, if_false]

/-- The request, and what `schedule_log` has left to do in the background. -/
def requestTask : Task Served := do
  let served ← app.serveTask front request
  match (loggedEntries served.events).head? with
  | none => pure served
  | some entry => do
      let () ← ask (.writeLog entry)
      pure served

/-! ## The middlewares that only await the next one -/

theorem serve_eq_enclosed :
    app.serve request = app.enclosed request (app.limited request) {} := rfl

theorem authDispatch_congr {callNext other : Next} {state : RequestState}
    (hpublic : isPublic authPublicPrefixes request.url.path = true →
      callNext state = other state)
    (haccepted : ∀ claims, app.acceptedClaims request = some claims →
      callNext (state.attachUser claims) = other (state.attachUser claims)) :
    authDispatch app.jwtDecode request callNext state =
      authDispatch app.jwtDecode request other state := by
  cases hpath : isPublic authPublicPrefixes request.url.path with
  | true =>
      rw [authDispatch_public hpath, authDispatch_public hpath]
      exact hpublic hpath
  | false =>
      simp only [acceptedClaims] at haccepted
      unfold authDispatch
      cases hurl : request.url? with
      | none => rfl
      | some url =>
          rw [Request.url_of_some hurl] at hpath
          simp only [hurl, hpath, Bool.false_eq_true, if_false] at haccepted ⊢
          split
          · next hbearer =>
              rw [if_pos hbearer] at haccepted
              cases hdecode : decodeAccessToken app.jwtDecode (strip
                  (String.ofList (((request.headers.get "Authorization").getD
                    "").toList.drop 7))) with
              | error exc => cases exc <;> rfl
              | ok claims =>
                  rw [hdecode] at haccepted
                  simp only [haccepted claims rfl]
          · rfl

theorem enclosed_congr {callNext other : Next}
    (h : ∀ state, app.passed request = some state →
      callNext state = other state) :
    app.enclosed request callNext {} = app.enclosed request other {} := by
  by_cases hpasses : app.Passes request
  · have hauth : authDispatch app.jwtDecode request callNext
          (app.begun request) =
        authDispatch app.jwtDecode request other (app.begun request) := by
      apply app.authDispatch_congr request
      · intro hpublic
        exact h _ (by simp [passed, hpasses, hpublic])
      · intro claims haccepted
        have hprivate := app.isPublic_eq_false_of_accepted request haccepted
        exact h _ (by simp [passed, hpasses, hprivate, haccepted])
    have hrecording : app.recording request callNext {} =
        app.recording request other {} := by
      have hrequestId : requestIdDispatch app.generatedId request
            (authDispatch app.jwtDecode request callNext) {} =
          requestIdDispatch app.generatedId request
            (authDispatch app.jwtDecode request other) {} :=
        congrArg (fun served : Served => served.mapResponse fun response =>
          response.put "X-Request-ID" (app.effectiveRequestId request)) hauth
      simp only [recording, loggingDispatch, hrequestId]
    by_cases horigins : app.settings.allowedOrigins = [] <;>
      by_cases hhosts : app.settings.allowedHosts = ["*"] <;>
      cases hcors : app.corsAnswer request <;>
      cases hhost : app.hostAnswer request <;>
      simp [enclosed, serverErrorDispatch, securityHeadersDispatch,
        answerDispatch, horigins, hhosts, hcors, hhost, hrecording]
  · by_cases horigins : app.settings.allowedOrigins = [] <;>
      by_cases hhosts : app.settings.allowedHosts = ["*"] <;>
      cases hcors : app.corsAnswer request <;>
      cases hhost : app.hostAnswer request <;>
      simp_all [enclosed, serverErrorDispatch, securityHeadersDispatch,
        answerDispatch, Passes]

end App

/-! ## Answers given one by one, and beforehand -/

/-- What the collaborators answer while one request is served. -/
structure Answers where
  healthCounts : Option (Nat × Nat)
  stores : Stores
  circuit : Circuit
  arrival : ℚ
  exchange : Exchange
  finish : ℚ
  tracker : HealthTracker
  handle : Endpoint → String → Request → RequestState → Reply

def Promised (httpx : Httpx) : (question : Question) → question.Answer → Prop
  | .check userId baseLimit healthFactor, result =>
      ∃ buckets delivery now, result =
        (RedisRateLimiter.check buckets delivery (userKey userId)
          (effectiveLimit baseLimit healthFactor) windowSeconds now).1
  | .enterBreaker, .error exc =>
      ∃ circuit now, upstreamBreaker.enter circuit now = .error exc
  | .enterBreaker, .ok _ =>
      ∃ circuit now entered, upstreamBreaker.enter circuit now = .ok entered
  | .finishCall _ sent, ending =>
      ∃ exchange, ending = doUpstreamRequest httpx sent exchange
  | .record _, recorded => recorded = .ok ()
  | _, _ => True

def collaborating (httpx : Httpx) : Contract Question.Answer Unit where
  allows _ _ := True
  promises := Promised httpx
  remember _ _ := ()

namespace App

variable (app : App) (front : QuotaFront) (request : Request)

def answers : Answers :=
  { healthCounts := app.healthCounts, stores := app.stores,
    circuit := app.circuit, arrival := app.arrival, exchange := app.exchange,
    finish := app.finish, tracker := app.tracker, handle := app.handle }

def answering (answers : Answers) : App :=
  { app with
    healthCounts := answers.healthCounts
    stores := answers.stores
    circuit := answers.circuit
    arrival := answers.arrival
    exchange := answers.exchange
    finish := answers.finish
    tracker := answers.tracker
    handle := answers.handle }

theorem keeps_afterRecordingTask (httpx : Httpx) (conclusion : Conclusion) :
    Keeps (collaborating httpx) (fun _ reply => reply = conclusion.reply)
      (afterRecordingTask conclusion) () := by
  unfold afterRecordingTask
  cases conclusion.recorded with
  | none => rfl
  | some success =>
      refine keeps_await trivial ?_
      rintro recorded rfl
      rfl

theorem keeps_proxyTask (path : String) (state : RequestState) :
    Keeps (collaborating app.httpx)
      (fun _ reply => ∃ answers,
        reply = (app.answering answers).handler .proxy path request state)
      (app.proxyTask request path) () := by
  refine keeps_await trivial ?_
  rintro (exc | call) hentered
  · obtain ⟨circuit, now, henter⟩ := hentered
    refine (keeps_afterRecordingTask app.httpx (conclude (.error exc))).weaken
      ?_
    rintro _ reply rfl
    refine ⟨{ app.answers with circuit := circuit, arrival := now }, ?_⟩
    simp only [handler, afterRecording_eq, ProxyRoute.run, proxyRoute,
      CircuitBreaker.call, answering, henter]
  · obtain ⟨circuit, now, entered, henter⟩ := hentered
    refine keeps_await trivial ?_
    rintro ending ⟨exchange, rfl⟩
    refine (keeps_afterRecordingTask app.httpx (conclude (.ok _))).weaken ?_
    rintro _ reply rfl
    refine ⟨{ app.answers with
      circuit := circuit, arrival := now, exchange := exchange }, ?_⟩
    simp only [handler, afterRecording_eq, ProxyRoute.run, proxyRoute,
      CircuitBreaker.call, answering, henter]
    rfl

def replying (reply : Reply) : Answers :=
  { app.answers with handle := fun _ _ _ _ => reply }

theorem keeps_handlerTask (endpoint : Endpoint) (parameter : String)
    (state : RequestState) :
    Keeps (collaborating app.httpx)
      (fun _ reply => ∃ answers, reply =
        (app.answering answers).handler endpoint parameter request state)
      (app.handlerTask front request endpoint parameter state) () := by
  cases endpoint with
  | proxy => exact app.keeps_proxyTask request parameter state
  | upsertQuota =>
      simp only [handlerTask]
      cases front.readBody request with
      | none => exact ⟨app.answers, rfl⟩
      | some body =>
          refine keeps_await trivial ?_
          rintro (exc | existing) -
          · exact ⟨app.replying _, rfl⟩
          refine keeps_await trivial ?_
          rintro (exc | _) -
          · exact ⟨app.replying _, rfl⟩
          refine keeps_await trivial ?_
          rintro (exc | override) - <;> exact ⟨app.replying _, rfl⟩
  | getQuota =>
      refine keeps_await trivial ?_
      rintro (exc | _ | override) - <;> exact ⟨app.replying _, rfl⟩
  | deleteQuota =>
      refine keeps_await trivial ?_
      rintro (exc | _) - <;> exact ⟨app.replying _, rfl⟩
  | _ => exact ⟨app.answers, rfl⟩

theorem keeps_routerTask (state : RequestState) :
    Keeps (collaborating app.httpx)
      (fun _ served => ∃ answers,
        served = (app.answering answers).router request state)
      (app.routerTask front request state) () := by
  have hsolve : ∀ answers endpoint parameter,
      (app.answering answers).solve endpoint parameter request =
        app.solve endpoint parameter request := fun _ _ _ => rfl
  unfold routerTask router
  cases findRoute routes request.method request.scopePath with
  | methodNotAllowed allowed => exact ⟨app.answers, rfl⟩
  | unmatched => exact ⟨app.answers, rfl⟩
  | found endpoint parameter =>
      simp only [hsolve]
      cases app.solve endpoint parameter request with
      | error exc => exact ⟨app.answers, rfl⟩
      | ok _ =>
          refine (app.keeps_handlerTask front request endpoint parameter
            state).bind ?_
          rintro _ reply ⟨answers, rfl⟩
          exact ⟨answers, rfl⟩

theorem keeps_handledTask (state : RequestState) :
    Keeps (collaborating app.httpx)
      (fun _ served => ∃ answers, served =
        exceptionDispatch ((app.answering answers).router request) state)
      (app.handledTask front request state) () := by
  refine (app.keeps_routerTask front request state).bind ?_
  rintro _ served ⟨answers, rfl⟩
  exact ⟨answers, rfl⟩

theorem keeps_checkedTask {url : Url} (hurl : request.url? = some url)
    (hprivate : isPublic rateLimitPublicPrefixes url.path = false)
    {state : RequestState} {userId tier : String}
    (huser : state.userId = some userId) (htier : state.tier = some tier) :
    Keeps (collaborating app.httpx)
      (fun _ served => ∃ answers,
        served = (app.answering answers).limited request state)
      (app.checkedTask front request state userId tier) () := by
  refine keeps_await trivial fun counts _ => ?_
  refine keeps_await trivial ?_
  rintro (text | row) -
  · refine ⟨{ app.answers with stores :=
      { app.answers.stores with
        selectOverride := fun _ => .error text } }, ?_⟩
    simp [limited, rateLimitDispatch, hurl, hprivate, huser, htier,
      answering, checkRateLimit]
  refine keeps_await trivial fun utcNow _ => ?_
  change Keeps _ _ (if overflows _ = true then _ else _) ()
  cases hover : overflows (resolveLimit app.settings row utcNow tier) with
  | true =>
      refine ⟨{ app.answers with stores :=
        { app.answers.stores with
          selectOverride := fun _ => .ok row, utcNow := utcNow } }, ?_⟩
      simp [limited, rateLimitDispatch, hurl, hprivate, huser, htier,
        answering, checkRateLimit, hover]
  | false =>
      refine keeps_await trivial ?_
      rintro result ⟨buckets, delivery, now, hresult⟩
      -- the answers as they have been given so far
      have hchecked : ∀ answers : Answers,
          let known := { answers with
            healthCounts := counts
            stores :=
              { selectOverride := fun _ => .ok row, redis := buckets,
                delivery := delivery, epochNow := now,
                utcNow := utcNow } }
          (app.answering known).limited request state =
            if result.allowed then
              let served := (exceptionDispatch
                ((app.answering answers).router request)
                { state with rateLimitInfo := some result }).mapResponse
                  (putRateLimit result)
              { served with
                events := .checked userId result :: served.events }
            else
              ⟨.responded (deniedResponse
                  { state with rateLimitInfo := some result } result),
                { state with rateLimitInfo := some result },
                [.checked userId result]⟩ := by
        intro answers known
        simp only [limited, rateLimitDispatch, hurl, hprivate, huser, htier,
          answering, checkRateLimit, hover, Bool.false_eq_true, if_false, known,
          ← hresult]
        rfl
      change Keeps _ _ (if result.allowed = true then _ else _) ()
      cases hallowed : result.allowed with
      | false =>
          refine ⟨_, ((hchecked app.answers).trans ?_).symm⟩
          simp only [hallowed, Bool.false_eq_true, if_false]
      | true =>
          simp only [if_true]
          refine (app.keeps_handledTask front request _).bind ?_
          rintro _ served ⟨answers, rfl⟩
          refine ⟨_, ((hchecked answers).trans ?_).symm⟩
          simp only [hallowed, if_true]

theorem keeps_limitedTask (state : RequestState) :
    Keeps (collaborating app.httpx)
      (fun _ served => ∃ answers,
        served = (app.answering answers).limited request state)
      (app.limitedTask front request state) () := by
  unfold limitedTask
  cases hurl : request.url? with
  | none =>
      exact ⟨app.answers, by simp only [limited, rateLimitDispatch, hurl]⟩
  | some url =>
      simp only []
      cases hpublic : isPublic rateLimitPublicPrefixes url.path with
      | true =>
          refine (app.keeps_handledTask front request state).weaken ?_
          rintro _ served ⟨answers, rfl⟩
          exact ⟨answers, by simp only [limited, rateLimitDispatch, hurl,
            hpublic, if_true]⟩
      | false =>
          simp only [Bool.false_eq_true, if_false]
          split
          · next userId tier huser htier =>
              exact app.keeps_checkedTask front request hurl hpublic huser htier
          · next hnone =>
              refine ⟨app.answers, ?_⟩
              simp only [limited, rateLimitDispatch, answering, hurl, hpublic,
                Bool.false_eq_true, if_false]

theorem enclosed_answering (answers : Answers) (callNext : Next) :
    (app.answering answers).enclosed request callNext =
      app.enclosed request callNext := rfl

/--
However the collaborators answer, with whatever happens in between, a request
is served as by an application to which their answers are given beforehand.
-/
theorem keeps_serveTask :
    Keeps (collaborating app.httpx)
      (fun _ served => ∃ answers,
        served = (app.answering answers).serve request)
      (app.serveTask front request) () := by
  unfold serveTask
  cases hpassed : app.passed request with
  | none =>
      refine ⟨app.answers, ?_⟩
      rw [serve_eq_enclosed, enclosed_answering]
      apply app.enclosed_congr request
      simp [hpassed]
  | some state =>
      refine (app.keeps_limitedTask front request state).bind ?_
      rintro _ served ⟨answers, rfl⟩
      refine ⟨answers, ?_⟩
      rw [serve_eq_enclosed, enclosed_answering]
      apply app.enclosed_congr request
      intro other hother
      rw [hpassed, Option.some_inj] at hother
      rw [hother]

theorem keeps_requestTask :
    Keeps (collaborating app.httpx)
      (fun _ served => ∃ answers,
        served = (app.answering answers).serve request)
      (app.requestTask front request) () := by
  refine (app.keeps_serveTask front request).bind ?_
  intro _ served hserved
  split
  · exact hserved
  · exact keeps_await trivial fun _ _ => hserved

end App

/-! ## What a request asks -/

def Question.isQuota : Question → Bool
  | selectQuota _ => true
  | commitQuota _ _ _ => true
  | refreshQuota _ => true
  | deleteQuota _ => true
  | _ => false

def Question.isHandlers : Question → Bool
  | enterBreaker => true
  | finishCall _ _ => true
  | record _ => true
  | question => question.isQuota

theorem afterRecordingTask_asks (conclusion : Conclusion) :
    Keeps (Coroutine.asking fun question : Question =>
        ∃ success, question = .record success)
      (fun _ _ => True) (afterRecordingTask conclusion) () := by
  unfold afterRecordingTask
  cases conclusion.recorded with
  | none => trivial
  | some success =>
      refine keeps_await ⟨success, rfl⟩ ?_
      rintro (text | _) - <;> trivial

namespace App

variable (app : App) (front : QuotaFront) (request : Request)

theorem handlerTask_asks {endpoint : Endpoint} (hne : endpoint ≠ .proxy)
    (parameter : String) (state : RequestState) :
    Keeps (Coroutine.asking fun question : Question => question.isQuota = true)
      (fun _ _ => True)
      (app.handlerTask front request endpoint parameter state) () := by
  cases endpoint with
  | proxy => exact absurd rfl hne
  | upsertQuota =>
      simp only [handlerTask]
      cases front.readBody request with
      | none => trivial
      | some body =>
          refine keeps_await rfl ?_
          rintro (exc | existing) -
          · trivial
          refine keeps_await rfl ?_
          rintro (exc | _) -
          · trivial
          refine keeps_await rfl ?_
          rintro (exc | override) - <;> trivial
  | getQuota =>
      refine keeps_await rfl ?_
      rintro (exc | _ | override) - <;> trivial
  | deleteQuota =>
      refine keeps_await rfl ?_
      rintro (exc | _) - <;> trivial
  | _ => trivial

theorem handledTask_asks (state : RequestState) :
    Keeps (Coroutine.asking fun question : Question =>
        question.isHandlers = true)
      (fun _ served => ∀ user result,
        Event.checked user result ∉ served.events)
      (app.handledTask front request state) () := by
  have hrouter : Keeps (Coroutine.asking fun question : Question =>
        question.isHandlers = true)
      (fun _ served => ∀ user result,
        Event.checked user result ∉ served.events)
      (app.routerTask front request state) () := by
    unfold routerTask
    cases findRoute routes request.method request.scopePath with
    | methodNotAllowed allowed => exact keeps_pure (by simp)
    | unmatched => exact keeps_pure (by simp)
    | found endpoint parameter =>
        simp only []
        cases app.solve endpoint parameter request with
        | error exc => exact keeps_pure (by simp)
        | ok _ =>
            refine Keeps.followed ?_ fun _ reply => keeps_pure (by simp)
            by_cases hproxy : endpoint = .proxy
            · subst hproxy
              have hrecording : ∀ conclusion, Keeps
                  (Coroutine.asking fun question : Question =>
                    question.isHandlers = true)
                  (fun _ _ => True) (afterRecordingTask conclusion) () := by
                intro conclusion
                apply (afterRecordingTask_asks conclusion).asking_mono
                rintro question ⟨success, rfl⟩
                rfl
              refine keeps_await rfl ?_
              rintro (exc | call) -
              · exact hrecording (conclude (.error exc))
              · exact keeps_await rfl fun ending _ =>
                  hrecording (conclude (.ok ending))
            · refine (app.handlerTask_asks front request hproxy parameter
                state).asking_mono ?_
              intro question hquota
              cases question with
              | enterBreaker => rfl
              | finishCall call sent => rfl
              | record success => rfl
              | _ => exact hquota
  refine hrouter.bind fun _ served hserved => ?_
  intro user result hmem
  apply hserved user result
  simpa using hmem

section Rule

variable {τ : Type} {contract : Contract Question.Answer τ} {memory : τ}
variable {R : τ → Prop} {state : RequestState}

theorem keeps_handledTask_of (hstart : R memory)
    (hhandler : ∀ endpoint parameter,
      findRoute routes request.method request.scopePath =
        .found endpoint parameter →
      Keeps contract (fun rest _ => R rest)
        (app.handlerTask front request endpoint parameter state) memory) :
    Keeps contract (fun rest _ => R rest)
      (app.handledTask front request state) memory := by
  suffices hrouter : Keeps contract (fun rest _ => R rest)
      (app.routerTask front request state) memory from
    hrouter.bind fun _ _ hrest => hrest
  unfold routerTask
  cases hroute : findRoute routes request.method request.scopePath with
  | methodNotAllowed allowed => exact hstart
  | unmatched => exact hstart
  | found endpoint parameter =>
      simp only []
      cases app.solve endpoint parameter request with
      | error exc => exact hstart
      | ok _ =>
          exact (hhandler endpoint parameter hroute).bind
            fun _ _ hrest => hrest

end Rule

end App

end RateLimitedGateway.Main
