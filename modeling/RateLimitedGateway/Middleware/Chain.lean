import RateLimitedGateway.Core.Security
import RateLimitedGateway.Http.Message
import RateLimitedGateway.Infra.LogStore
import RateLimitedGateway.Routes.Table
import RateLimitedGateway.Services.RateLimitService
import RateLimitedGateway.Services.UpstreamHealth

/-!
# The middleware chain

A middleware answers a request itself or calls the next one, and sees how that
ended.  The request's `state` is one namespace that all of them share.  Beside
the reply, serving a request leaves a list of the events on the way, in order.
-/

namespace RateLimitedGateway.Middleware

open RateLimitedGateway.Core RateLimitedGateway.Http RateLimitedGateway.Infra
open RateLimitedGateway.Routes RateLimitedGateway.Services

/-- `request.state`; `none` is an attribute that has not been set. -/
structure RequestState where
  requestId : Option String := none
  userId : Option String := none
  tier : Option String := none
  rateLimitInfo : Option LimitResult := none
  deriving DecidableEq, Repr

def RequestState.attachUser (state : RequestState) (claims : Claims) :
    RequestState :=
  { state with userId := some claims.sub, tier := some claims.tier }

inductive Event where
  | accepted (token : String) (claims : Claims)
  | checked (userId : String) (result : LimitResult)
  | handled (endpoint : Endpoint) (parameter : String)
  | logged (entry : LogEntry)
  deriving DecidableEq, Repr

structure Served where
  reply : Reply
  state : RequestState
  events : List Event
  deriving DecidableEq, Repr

abbrev Next := RequestState → Served

def Served.mapResponse (served : Served) (f : Response → Response) : Served :=
  match served.reply with
  | .responded response => { served with reply := .responded (f response) }
  | _ => served

def authPublicPrefixes : List String :=
  ["/auth", "/admin", "/health", "/ready", "/metrics", "/docs",
    "/openapi.json", "/redoc"]

def rateLimitPublicPrefixes : List String :=
  ["/auth", "/admin", "/health", "/ready", "/docs", "/openapi.json", "/redoc",
    "/metrics"]

def isPublic (prefixes : List String) (path : String) : Bool :=
  prefixes.any fun pre => startsWith path pre

/-- The whitespace of `str.strip` among the characters a header can hold. -/
def isSpace (char : Char) : Bool :=
  char.toNat ∈ [9, 10, 11, 12, 13, 28, 29, 30, 31, 32, 133, 160]

def strip (text : String) : String :=
  String.ofList ((text.toList.dropWhile isSpace).rdropWhile isSpace)

/-! ## Authentication -/

def authFailureResponse (state : RequestState) (exc : GatewayError) :
    Response :=
  jsonResponse exc.errorClass.statusCode
    (.error (buildErrorResponse exc state.requestId))
    [("WWW-Authenticate", "Bearer")]

def authDispatch (jwtDecode : String → JwtResult) (request : Request)
    (callNext : Next) : Next := fun state =>
  match request.url? with
  | none => ⟨.raised (.otherException "ValueError"), state, []⟩
  | some url =>
      if isPublic authPublicPrefixes url.path then callNext state
      else
        let authHeader := (request.headers.get "Authorization").getD ""
        if startsWith authHeader "Bearer " then
          let token := strip (String.ofList (authHeader.toList.drop 7))
          match decodeAccessToken jwtDecode token with
          | .error (.gatewayError exc) =>
              ⟨.responded (authFailureResponse state exc), state, []⟩
          | .error (.otherError text) =>
              ⟨.raised (.otherException text), state, []⟩
          | .ok claims =>
              let served := callNext (state.attachUser claims)
              { served with events := .accepted token claims :: served.events }
        else
          ⟨.responded (authFailureResponse state ⟨.invalidTokenError,
            "Missing or malformed Authorization header.", []⟩), state, []⟩

/-! ## Rate limiting -/

def policyHeader (result : LimitResult) : String :=
  toString result.limit ++ ";w=" ++ toString windowSeconds

def deniedResponse (state : RequestState) (result : LimitResult) : Response :=
  let retryAfter := toString result.retryAfter
  let exc : GatewayError :=
    ⟨.rateLimitExceeded,
      "Rate limit exceeded. Try again in " ++ retryAfter ++ "s.",
      [("retry_after", result.retryAfter)]⟩
  jsonResponse exc.errorClass.statusCode
    (.error (buildErrorResponse exc state.requestId))
    [("Retry-After", retryAfter),
      ("X-RateLimit-Limit", toString result.limit),
      ("X-RateLimit-Remaining", "0"),
      ("X-RateLimit-Retry-After", retryAfter),
      ("X-RateLimit-Policy", policyHeader result)]

def putRateLimit (result : LimitResult) (response : Response) : Response :=
  let limited :=
    (((response.put "X-RateLimit-Limit" (toString result.limit)).put
      "X-RateLimit-Remaining" (toString result.remaining)).put
      "X-RateLimit-Retry-After" (toString result.retryAfter)).put
      "X-RateLimit-Policy" (policyHeader result)
  if result.degraded then limited.put "X-RateLimit-Degraded" "true"
  else limited

def rateLimitDispatch (settings : Settings) (healthCounts : Option (Nat × Nat))
    (stores : Stores) (request : Request) (callNext : Next) : Next :=
  fun state =>
    match request.url? with
    | none => ⟨.raised (.otherException "ValueError"), state, []⟩
    | some url =>
        if isPublic rateLimitPublicPrefixes url.path then callNext state
        else
          match state.userId, state.tier with
          | some userId, some tier =>
              match checkRateLimit settings stores userId tier
                (getHealthFactor healthCounts) with
              | .error text => ⟨.raised (.otherException text), state, []⟩
              | .ok (result, _) =>
                  let state := { state with rateLimitInfo := some result }
                  if result.allowed then
                    let served :=
                      (callNext state).mapResponse (putRateLimit result)
                    { served with
                      events := .checked userId result :: served.events }
                  else
                    ⟨.responded (deniedResponse state result), state,
                      [.checked userId result]⟩
          | _, _ => ⟨.raised (.otherException "AttributeError"), state, []⟩

/-! ## Request ids, logging and security headers -/

def requestIdDispatch (generatedId : String) (request : Request)
    (callNext : Next) : Next := fun state =>
  let requestId :=
    match request.headers.get "X-Request-ID" with
    | some incoming => if incoming ≠ "" then incoming else generatedId
    | none => generatedId
  (callNext { state with requestId := some requestId }).mapResponse
    fun response => response.put "X-Request-ID" requestId

def loggingDispatch (latencyMs : Int) (request : Request) (callNext : Next) :
    Next := fun state =>
  let served := callNext state
  let statusCode :=
    match served.reply with
    | .responded response => response.statusCode
    | _ => 500
  let rateLimited :=
    match served.state.rateLimitInfo with
    | some info => !info.allowed
    | none => false
  -- the `finally` block raises before it schedules, in place of what came
  match request.url? with
  | none => { served with reply := .raised (.otherException "ValueError") }
  | some url =>
      let entry : LogEntry :=
        { requestId := served.state.requestId.getD "unknown"
          userId := served.state.userId.getD "anonymous"
          endpoint := url.path
          method := request.method
          statusCode := statusCode
          latencyMs := latencyMs
          rateLimited := rateLimited
          ip := request.client }
      { served with events := served.events ++ [.logged entry] }

def securityHeadersDispatch (settings : Settings) (callNext : Next) : Next :=
  fun state =>
    (callNext state).mapResponse fun response =>
      let secured := ((response.put "X-Content-Type-Options" "nosniff").put
        "X-Frame-Options" "DENY").put "X-XSS-Protection" "1; mode=block"
      if settings.appEnv = "production" then
        secured.put "Strict-Transport-Security"
          "max-age=31536000; includeSubDomains"
      else secured

def answerDispatch (answer : Request → Option Response) (request : Request)
    (callNext : Next) : Next := fun state =>
  match answer request with
  | some response => ⟨.responded response, state, []⟩
  | none => callNext state

/-! ## What the dispatches can do -/

section Cases

variable {request : Request}

theorem url?_of_isPublic {prefixes : List String}
    (hprefixes : isPublic prefixes "" = false)
    (hpublic : isPublic prefixes request.url.path = true) :
    request.url? = some request.url := by
  cases hurl : request.url? with
  | none => simp [Request.url, hurl, hprefixes] at hpublic
  | some url => rw [Request.url_of_some hurl]

theorem authDispatch_unreadable (hurl : request.url? = none)
    (jwtDecode : String → JwtResult) (callNext : Next) (state : RequestState) :
    authDispatch jwtDecode request callNext state =
      ⟨.raised (.otherException "ValueError"), state, []⟩ := by
  simp only [authDispatch, hurl]

theorem authDispatch_public
    (hpublic : isPublic authPublicPrefixes request.url.path = true)
    (jwtDecode : String → JwtResult) (callNext : Next) :
    authDispatch jwtDecode request callNext = callNext := by
  funext state
  simp only [authDispatch, url?_of_isPublic (by decide +kernel) hpublic,
    hpublic, if_true]

theorem authDispatch_cases (jwtDecode : String → JwtResult) (callNext : Next)
    (state : RequestState)
    (hprivate : isPublic authPublicPrefixes request.url.path = false) :
    (∃ exc, authDispatch jwtDecode request callNext state =
      ⟨.responded (authFailureResponse state exc), state, []⟩) ∨
    (∃ text, authDispatch jwtDecode request callNext state =
      ⟨.raised (.otherException text), state, []⟩) ∨
    ∃ token claims, decodeAccessToken jwtDecode token = .ok claims ∧
      request.url? ≠ none ∧
      authDispatch jwtDecode request callNext state =
        let served := callNext (state.attachUser claims)
        { served with events := .accepted token claims :: served.events } := by
  cases hurl : request.url? with
  | none =>
      exact .inr (.inl ⟨_, authDispatch_unreadable hurl jwtDecode callNext
        state⟩)
  | some url =>
      rw [Request.url_of_some hurl] at hprivate
      simp only [authDispatch, hurl, hprivate, Bool.false_eq_true, if_false]
      by_cases hbearer : startsWith
          ((request.headers.get "Authorization").getD "") "Bearer " = true
      · rw [if_pos hbearer]
        cases hdecode : decodeAccessToken jwtDecode (strip (String.ofList
            (((request.headers.get "Authorization").getD "").toList.drop 7)))
          with
        | error exc =>
            cases exc with
            | gatewayError exc => exact .inl ⟨exc, rfl⟩
            | otherError text => exact .inr (.inl ⟨text, rfl⟩)
        | ok claims =>
            exact .inr (.inr ⟨_, claims, hdecode, by simp, rfl⟩)
      · rw [if_neg hbearer]
        exact .inl ⟨_, rfl⟩

theorem rateLimitDispatch_public
    (hpublic : isPublic rateLimitPublicPrefixes request.url.path = true)
    (settings : Settings) (healthCounts : Option (Nat × Nat)) (stores : Stores)
    (callNext : Next) :
    rateLimitDispatch settings healthCounts stores request callNext =
      callNext := by
  funext state
  simp only [rateLimitDispatch, url?_of_isPublic (by decide +kernel) hpublic,
    hpublic, if_true]

theorem rateLimitDispatch_anonymous {state : RequestState}
    (hprivate : isPublic rateLimitPublicPrefixes request.url.path = false)
    (hanonymous : state.userId = none ∨ state.tier = none)
    {settings : Settings} {healthCounts : Option (Nat × Nat)} {stores : Stores}
    {callNext : Next} :
    rateLimitDispatch settings healthCounts stores request callNext state =
      ⟨.raised (.otherException
        (if request.url? = none then "ValueError" else "AttributeError")),
        state, []⟩ := by
  cases hurl : request.url? with
  | none => simp [rateLimitDispatch, hurl]
  | some url =>
      rw [Request.url_of_some hurl] at hprivate
      rcases hanonymous with hnone | hnone
      · simp [rateLimitDispatch, hurl, hprivate, hnone]
      · simp [rateLimitDispatch, hurl, hprivate, hnone]

theorem rateLimitDispatch_cases (settings : Settings)
    (healthCounts : Option (Nat × Nat)) (stores : Stores) (callNext : Next)
    {state : RequestState} {userId tier : String}
    (hprivate : isPublic rateLimitPublicPrefixes request.url.path = false)
    (huser : state.userId = some userId) (htier : state.tier = some tier) :
    (∃ text, rateLimitDispatch settings healthCounts stores request callNext
      state = ⟨.raised (.otherException text), state, []⟩) ∨
    ∃ result redis, checkRateLimit settings stores userId tier
        (getHealthFactor healthCounts) = .ok (result, redis) ∧
      ((result.allowed = false ∧
        rateLimitDispatch settings healthCounts stores request callNext state =
          ⟨.responded (deniedResponse
              { state with rateLimitInfo := some result } result),
            { state with rateLimitInfo := some result },
            [.checked userId result]⟩) ∨
      (result.allowed = true ∧
        rateLimitDispatch settings healthCounts stores request callNext state =
          let served := (callNext { state with
            rateLimitInfo := some result }).mapResponse (putRateLimit result)
          { served with
            events := .checked userId result :: served.events })) := by
  cases hurl : request.url? with
  | none => exact .inl ⟨"ValueError", by simp only [rateLimitDispatch, hurl]⟩
  | some url =>
      rw [Request.url_of_some hurl] at hprivate
      simp only [rateLimitDispatch, hurl, hprivate, huser, htier,
        Bool.false_eq_true, if_false]
      cases hcheck : checkRateLimit settings stores userId tier
          (getHealthFactor healthCounts) with
      | error text => exact .inl ⟨text, rfl⟩
      | ok checked =>
          obtain ⟨result, redis⟩ := checked
          refine .inr ⟨result, redis, rfl, ?_⟩
          by_cases hallowed : result.allowed = true
          · exact .inr ⟨hallowed, by simp only [hallowed, if_true]⟩
          · have hdenied := Bool.eq_false_iff.mpr hallowed
            exact .inl ⟨hdenied, by
              simp only [hdenied, Bool.false_eq_true, if_false]⟩

end Cases

end RateLimitedGateway.Middleware
