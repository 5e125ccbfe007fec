import RateLimitedGateway.Dependencies
import RateLimitedGateway.Middleware.Chain
import RateLimitedGateway.Routes.Proxy

/-!
# The application

`create_app` puts the middlewares around the router.  What the collaborators of
the gateway answer while one request is served is part of the application here,
so that serving is a function of the request.
-/

namespace RateLimitedGateway.Main

open RateLimitedGateway.Core RateLimitedGateway.Dependencies
open RateLimitedGateway.Http RateLimitedGateway.Infra
open RateLimitedGateway.Middleware RateLimitedGateway.Routes
open RateLimitedGateway.Services

structure App where
  settings : Settings
  jwtDecode : String → JwtResult
  healthCounts : Option (Nat × Nat)
  stores : Stores
  generatedId : String
  latencyMs : Int
  /-- The responses with which CORS and trusted-host checking stop a request. -/
  corsAnswer : Request → Option Response
  hostAnswer : Request → Option Response
  corsHeaders : Request → Response → Response
  httpx : Httpx
  circuit : Circuit
  arrival : ℚ
  exchange : Exchange
  finish : ℚ
  /-- The handlers of the other routes, and the router's answer to no route. -/
  handle : Endpoint → String → Request → RequestState → Reply
  unmatched : Request → Reply
  tracker : HealthTracker := {}
  readBody : Endpoint → Request → BodyReading := fun _ _ => .read
  validate : Endpoint → String → Request → Option String := fun _ _ _ => none

namespace App

variable (app : App)

def proxyRoute : ProxyRoute :=
  { breaker := upstreamBreaker
    upstreamBaseUrl := app.settings.upstreamBaseUrl
    httpx := app.httpx }

def afterRecording (conclusion : Conclusion) : Reply :=
  match conclusion.recorded with
  | none => conclusion.reply
  | some success =>
      match (recordUpstreamResult app.tracker.redis app.tracker.serverTime
        app.tracker.now app.tracker.delivery success).1 with
      | .ok () => conclusion.reply
      | .error text => .raised (.otherException text)

def handler (endpoint : Endpoint) (parameter : String) (request : Request)
    (state : RequestState) : Reply :=
  match endpoint with
  | .proxy =>
      let visit : Visit :=
        { path := parameter, request := request, arrival := app.arrival,
          exchange := app.exchange, finish := app.finish }
      app.afterRecording (app.proxyRoute.run app.circuit visit).1
  | endpoint => app.handle endpoint parameter request state

def solve (endpoint : Endpoint) (parameter : String) (request : Request) :
    Except Raised Unit :=
  solveDependencies app.settings endpoint (app.readBody endpoint request)
    (app.validate endpoint parameter request) request

def router (request : Request) : Next := fun state =>
  match findRoute routes request.method request.scopePath with
  | .found endpoint parameter =>
      match app.solve endpoint parameter request with
      | .ok () =>
          ⟨app.handler endpoint parameter request state, state,
            [.handled endpoint parameter]⟩
      | .error exc => ⟨.raised exc, state, []⟩
  | .methodNotAllowed allowed =>
      ⟨.raised (.httpException 405 "Method Not Allowed"
        [("Allow", ", ".intercalate allowed)]), state, []⟩
  | .unmatched => ⟨app.unmatched request, state, []⟩

end App

def handleGatewayError (exc : GatewayError) (state : RequestState) : Response :=
  jsonResponse exc.errorClass.statusCode
    (.error (buildErrorResponse exc state.requestId))
    (match exc.errorClass, exc.details.lookup "retry_after" with
      | .rateLimitExceeded, some retryAfter =>
          [("Retry-After", toString retryAfter)]
      | _, _ => [])

/-- The exception handlers, FastAPI's own included; the rest propagates. -/
def exceptionDispatch (callNext : Next) : Next := fun state =>
  let served := callNext state
  match served.reply with
  | .raised (.gatewayError exc) =>
      { served with reply := .responded (handleGatewayError exc served.state) }
  | .raised (.httpException statusCode detail headers) =>
      { served with
        reply := .responded (jsonResponse statusCode (.detail detail) headers) }
  | .raised (.validationError errors) =>
      { served with reply := .responded (jsonResponse 422 (.detail errors) []) }
  | _ => served

/-- Starlette's outermost answer to an exception that nothing has handled. -/
def serverErrorDispatch (callNext : Next) : Next := fun state =>
  let served := callNext state
  match served.reply with
  | .raised _ =>
      { served with
        reply := .responded
          { content := .text "Internal Server Error", statusCode := 500,
            headers := [], mediaType := some "text/plain" } }
  | _ => served

namespace App

variable (app : App) (request : Request)

def limited : Next :=
  rateLimitDispatch app.settings app.healthCounts app.stores request
    (exceptionDispatch (app.router request))

def authenticated : Next :=
  authDispatch app.jwtDecode request (app.limited request)

def recorded : Next :=
  loggingDispatch app.latencyMs request
    (requestIdDispatch app.generatedId request (app.authenticated request))

def secured : Next :=
  let hosted :=
    if app.settings.allowedHosts ≠ ["*"] then
      answerDispatch app.hostAnswer request (app.recorded request)
    else app.recorded request
  let shared :=
    if app.settings.allowedOrigins ≠ [] then
      answerDispatch app.corsAnswer request fun state =>
        (hosted state).mapResponse (app.corsHeaders request)
    else hosted
  securityHeadersDispatch app.settings shared

def serve : Served := serverErrorDispatch (app.secured request) {}

/-! ## What the router can do -/

theorem router_cases (state : RequestState) :
    (∃ reply, app.router request state = ⟨reply, state, []⟩ ∧
      ∀ endpoint parameter,
        findRoute routes request.method request.scopePath =
            .found endpoint parameter →
          app.solve endpoint parameter request ≠ .ok ()) ∨
    ∃ endpoint parameter,
      findRoute routes request.method request.scopePath =
          .found endpoint parameter ∧
        app.solve endpoint parameter request = .ok () ∧
        app.router request state =
          ⟨app.handler endpoint parameter request state, state,
            [.handled endpoint parameter]⟩ := by
  unfold router
  cases findRoute routes request.method request.scopePath with
  | found endpoint parameter =>
      simp only []
      cases hsolve : app.solve endpoint parameter request with
      | ok _ => exact .inr ⟨endpoint, parameter, rfl, hsolve, rfl⟩
      | error exc =>
          refine .inl ⟨.raised exc, rfl, ?_⟩
          rintro _ _ ⟨rfl, rfl⟩
          simp [hsolve]
  | methodNotAllowed allowed => exact .inl ⟨_, rfl, nofun⟩
  | unmatched => exact .inl ⟨_, rfl, nofun⟩

theorem handled_mem_router_iff (state : RequestState) {endpoint : Endpoint}
    {parameter : String} :
    Event.handled endpoint parameter ∈ (app.router request state).events ↔
      findRoute routes request.method request.scopePath =
          .found endpoint parameter ∧
        app.solve endpoint parameter request = .ok () := by
  rcases app.router_cases request state with
    ⟨reply, hrouter, hnone⟩ | ⟨found, value, hroute, hsolve, hrouter⟩
  · have hunhandled := hnone endpoint parameter
    simpa [hrouter] using hunhandled
  · rw [hrouter, hroute]
    constructor
    · intro hmem
      cases List.mem_singleton.mp hmem
      exact ⟨rfl, hsolve⟩
    · rintro ⟨⟨rfl, rfl⟩, -⟩
      exact List.mem_singleton_self _

end App

end RateLimitedGateway.Main
