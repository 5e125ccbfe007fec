import RateLimitedGateway.Main

/-!
# Who reaches the upstream

The guard in front of the proxy is split: two middlewares let a request pass
when its path starts with a public prefix, and the router sends it to the
catch-all when no other route matches its method and its whole path.  The proxy
runs unguarded exactly where the two notions differ.
-/

namespace RateLimitedGateway.Main

open RateLimitedGateway.Core RateLimitedGateway.Dependencies
open RateLimitedGateway.Http RateLimitedGateway.Infra
open RateLimitedGateway.Middleware RateLimitedGateway.Routes
open RateLimitedGateway.Services

def Proxied (events : List Event) : Prop :=
  ∃ path, Event.handled .proxy path ∈ events

def Guarded (events : List Event) : Prop :=
  ∃ token claims result, Event.accepted token claims ∈ events ∧
    Event.checked claims.sub result ∈ events ∧ result.allowed = true

def RoutesToProxy (request : Request) : Prop :=
  ∃ path, findRoute routes request.method request.scopePath =
    .found .proxy path

def App.Passes (app : App) (request : Request) : Prop :=
  (app.settings.allowedOrigins ≠ [] → app.corsAnswer request = none) ∧
    (app.settings.allowedHosts ≠ ["*"] → app.hostAnswer request = none)

/-! ## The events of the layers -/

theorem isPublic_rateLimit (path : String) :
    isPublic rateLimitPublicPrefixes path =
      isPublic authPublicPrefixes path := by
  simp only [isPublic, rateLimitPublicPrefixes, authPublicPrefixes,
    List.any_cons, List.any_nil]
  ac_rfl

@[simp] theorem mapResponse_events (served : Served) (f : Response → Response) :
    (served.mapResponse f).events = served.events := by
  unfold Served.mapResponse
  split <;> rfl

@[simp] theorem exceptionDispatch_events (next : Next) (state : RequestState) :
    (exceptionDispatch next state).events = (next state).events := by
  simp only [exceptionDispatch]
  split <;> rfl

@[simp] theorem serverErrorDispatch_events (next : Next)
    (state : RequestState) :
    (serverErrorDispatch next state).events = (next state).events := by
  simp only [serverErrorDispatch]
  split <;> rfl

namespace App

variable (app : App) (request : Request)

theorem recorded_events (state : RequestState) :
    ∃ inner, ∃ entry : Option LogEntry,
      (app.recorded request state).events =
        (app.authenticated request inner).events ++
          entry.toList.map Event.logged := by
  simp only [recorded, loggingDispatch, requestIdDispatch, mapResponse_events]
  cases request.url? with
  | none => exact ⟨_, none, (List.append_nil _).symm⟩
  | some url => exact ⟨_, some _, rfl⟩

instance : Decidable (app.Passes request) :=
  inferInstanceAs (Decidable (_ ∧ _))

theorem serve_events :
    (app.serve request).events =
      if app.Passes request then (app.recorded request {}).events else [] := by
  simp only [serve, secured, serverErrorDispatch_events,
    securityHeadersDispatch, mapResponse_events]
  -- each of the two checks is wired or not, and answers the request or not
  by_cases horigins : app.settings.allowedOrigins = [] <;>
    by_cases hhosts : app.settings.allowedHosts = ["*"] <;>
    cases hcors : app.corsAnswer request <;>
    cases hhost : app.hostAnswer request <;>
    simp [Passes, horigins, hhosts, hcors, hhost, answerDispatch]

theorem authenticated_of_public
    (hpublic : isPublic authPublicPrefixes request.url.path = true)
    (state : RequestState) :
    (app.authenticated request state).events =
      (app.router request state).events := by
  have hlimited : isPublic rateLimitPublicPrefixes request.url.path = true :=
    (isPublic_rateLimit request.url.path).trans hpublic
  rw [authenticated, authDispatch_public hpublic, limited,
    rateLimitDispatch_public hlimited, exceptionDispatch_events]

theorem authenticated_of_private
    (hprivate : isPublic authPublicPrefixes request.url.path = false)
    (state : RequestState)
    (hproxied : Proxied (app.authenticated request state).events) :
    Guarded (app.authenticated request state).events := by
  have hprivate' := (isPublic_rateLimit request.url.path).trans hprivate
  unfold authenticated at hproxied ⊢
  rcases authDispatch_cases app.jwtDecode (app.limited request) state hprivate
    with ⟨exc, hauth⟩ | ⟨text, hauth⟩ | ⟨token, claims, -, -, hauth⟩
  · simp [hauth, Proxied] at hproxied
  · simp [hauth, Proxied] at hproxied
  · rw [hauth] at hproxied ⊢
    unfold limited at hproxied ⊢
    have huser : (state.attachUser claims).userId = some claims.sub := rfl
    have htier : (state.attachUser claims).tier = some claims.tier := rfl
    rcases rateLimitDispatch_cases app.settings app.healthCounts app.stores
        (exceptionDispatch (app.router request)) hprivate' huser htier with
      ⟨text, hlimit⟩ | ⟨result, redis, -, ⟨-, hlimit⟩ | ⟨hallowed, hlimit⟩⟩
    · simp [hlimit, Proxied] at hproxied
    · simp [hlimit, Proxied] at hproxied
    · refine ⟨token, claims, result, ?_, ?_, hallowed⟩
      · simp
      · simp [hlimit]

/-! ## The guarded requests -/

theorem proxied_append_logged (events : List Event)
    (entries : List LogEntry) :
    Proxied (events ++ entries.map Event.logged) ↔ Proxied events := by
  simp [Proxied]

theorem guarded_append_logged (events : List Event)
    (entries : List LogEntry) :
    Guarded (events ++ entries.map Event.logged) ↔ Guarded events := by
  simp [Guarded]

theorem not_guarded_router (state : RequestState) :
    ¬ Guarded (app.router request state).events := by
  unfold Guarded
  rcases app.router_cases request state with
    ⟨reply, hrouter⟩ | ⟨endpoint, parameter, -, -, hrouter⟩ <;> simp [hrouter]

theorem proxied_router_iff (state : RequestState) :
    Proxied (app.router request state).events ↔ RoutesToProxy request := by
  unfold Proxied RoutesToProxy
  simp only [handled_mem_router_iff]
  exact exists_congr fun path =>
    and_iff_left (solveDependencies_proxy _ _ _ _)

/--
The guard covers exactly the requests that the framework stops, whose path has
no public prefix, or that another route takes.
-/
theorem proxy_guarded_iff :
    (Proxied (app.serve request).events →
      Guarded (app.serve request).events) ↔
    ¬ (app.Passes request ∧
      isPublic authPublicPrefixes request.url.path = true ∧
      RoutesToProxy request) := by
  by_cases hpasses : app.Passes request
  · obtain ⟨state, entry, hrecorded⟩ := app.recorded_events request {}
    rw [app.serve_events request, if_pos hpasses, hrecorded,
      proxied_append_logged, guarded_append_logged]
    by_cases hpublic : isPublic authPublicPrefixes request.url.path = true
    · rw [app.authenticated_of_public request hpublic,
        app.proxied_router_iff request state]
      have hanonymous := app.not_guarded_router request state
      tauto
    · have hprivate := Bool.eq_false_iff.mpr hpublic
      have hguarded := app.authenticated_of_private request hprivate state
      tauto
  · rw [app.serve_events request, if_neg hpasses]
    simp [Proxied, hpasses]

end App

/-! ## An anonymous request -/

def freshApp : App :=
  { settings :=
      { jwtSecret := "0123456789abcdef"
        jwtSecret_length := Nat.le_of_ble_eq_true rfl
        adminApiKey := "0123456789abcdef"
        adminApiKey_length := Nat.le_of_ble_eq_true rfl }
    jwtDecode := fun _ => .jwtError
    healthCounts := some (0, 0)
    stores :=
      { selectOverride := fun _ => .ok none, redis := Redis.empty,
        delivery := .completes, epochNow := 0, utcNow := 0 }
    generatedId := "req_0123456789abcdef"
    latencyMs := 1
    corsAnswer := fun _ => none
    hostAnswer := fun _ => none
    corsHeaders := fun _ response => response
    httpx := fun _ => none
    circuit := CircuitBreaker.initial
    arrival := 0
    exchange := .answered ⟨200, [], []⟩
    finish := 0
    handle := fun _ _ _ _ => .responded ⟨.text "", 200, [], none⟩
    unmatched := fun _ => .raised (.httpException 404 "Not Found" []) }

def healthz : Request :=
  { method := "GET"
    scopePath := "/healthz"
    url? := some ⟨"/healthz", ""⟩
    headers := [("host", "localhost")]
    client := some "127.0.0.1"
    body := [] }

theorem healthz_events :
    (freshApp.serve healthz).events =
      [.handled .proxy "healthz",
        .logged
          { requestId := "req_0123456789abcdef", userId := "anonymous",
            endpoint := "/healthz", method := "GET", statusCode := 200,
            latencyMs := 1, rateLimited := false,
            ip := some "127.0.0.1" }] := by
  decide +kernel

/-- The prefix `/health` is public, but the route `/health` is not this path. -/
theorem healthz_is_proxied_unguarded :
    ¬ ∀ (app : App) (request : Request),
      Proxied (app.serve request).events →
        Guarded (app.serve request).events := by
  intro hguarded
  have hanonymous := hguarded freshApp healthz
  rw [healthz_events] at hanonymous
  obtain ⟨token, claims, result, haccepted, -⟩ :=
    hanonymous ⟨"healthz", by simp⟩
  simp at haccepted

end RateLimitedGateway.Main
