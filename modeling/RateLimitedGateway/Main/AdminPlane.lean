import RateLimitedGateway.Main.Arrival

/-!
# The admin plane

Both middlewares let the paths of the admin plane pass, so that nothing stands
in front of its handlers but the dependency that each router declares.  The
metrics route is registered on the application itself and declares none.
-/

namespace RateLimitedGateway.Main

open RateLimitedGateway.Core RateLimitedGateway.Dependencies
open RateLimitedGateway.Http RateLimitedGateway.Middleware
open RateLimitedGateway.Routes

def adminPlane : List Endpoint :=
  [.upsertQuota, .getQuota, .deleteQuota, .listLogs, .getStats,
    .upstreamHealth, .mintToken, .metrics]

def RoutesToMetrics (request : Request) : Prop :=
  ∃ parameter, findRoute routes request.method request.scopePath =
    .found .metrics parameter

theorem adminAuth_of_mem {settings : Settings} {endpoint : Endpoint}
    (hproduction : settings.appEnv = "production")
    (hmem : endpoint ∈ adminPlane) :
    adminAuth settings endpoint = true ∨ endpoint = .metrics := by
  simp only [adminPlane, List.mem_cons, List.not_mem_nil, or_false] at hmem
  rcases hmem with rfl | rfl | rfl | rfl | rfl | rfl | rfl | rfl <;>
    simp [adminAuth, hproduction]

namespace App

variable (app : App) (request : Request)

theorem adminKey_of_handled {endpoint : Endpoint} {parameter : String}
    (hadmin : adminAuth app.settings endpoint = true)
    (hhandled : Event.handled endpoint parameter ∈
      (app.serve request).events) :
    request.headers.get "X-Admin-Key" = some app.settings.adminApiKey := by
  rw [handled_mem_serve_iff] at hhandled
  obtain ⟨-, -, -, hsolved⟩ := hhandled
  obtain ⟨-, hkey, -⟩ := solveDependencies_eq_ok_iff.mp hsolved
  exact hkey hadmin

theorem handled_metrics_iff :
    (∃ parameter, Event.handled .metrics parameter ∈
        (app.serve request).events) ↔
      app.Passes request ∧ (∃ state, app.arriving request = some state) ∧
        RoutesToMetrics request := by
  have hsolved : ∀ parameter,
      app.solve .metrics parameter request = .ok () := fun _ => rfl
  simp only [handled_mem_serve_iff, hsolved, and_true, exists_and_left,
    RoutesToMetrics]

/--
Without the admin key nothing of the admin plane runs, exactly if the request
does not get through to the metrics route.
-/
theorem admin_plane_closed_iff
    (hproduction : app.settings.appEnv = "production")
    (hkey : request.headers.get "X-Admin-Key" ≠
      some app.settings.adminApiKey) :
    (∀ endpoint ∈ adminPlane, ∀ parameter,
      Event.handled endpoint parameter ∉ (app.serve request).events) ↔
    ¬ (app.Passes request ∧ (∃ state, app.arriving request = some state) ∧
      RoutesToMetrics request) := by
  rw [← app.handled_metrics_iff request]
  constructor
  · rintro hclosed ⟨parameter, hhandled⟩
    exact hclosed .metrics (by decide) parameter hhandled
  · intro hmetrics endpoint hmem parameter hhandled
    rcases adminAuth_of_mem hproduction hmem with hadmin | rfl
    · exact hkey (app.adminKey_of_handled request hadmin hhandled)
    · exact hmetrics ⟨parameter, hhandled⟩

end App

def productionApp : App :=
  { freshApp with
    settings := { freshApp.settings with appEnv := "production" } }

def getOf (path : String) : Request :=
  { method := "GET"
    scopePath := path
    url? := some ⟨path, ""⟩
    headers := [("host", "localhost")]
    client := some "127.0.0.1"
    body := [] }

theorem admin_plane_closed_stats :
    findRoute routes "GET" "/admin/stats" = .found .getStats "" ∧
      ¬ ∃ endpoint ∈ adminPlane, ∃ parameter,
        Event.handled endpoint parameter ∈
          (productionApp.serve (getOf "/admin/stats")).events := by
  have hstats :
      findRoute routes "GET" "/admin/stats" = .found .getStats "" := by
    decide +kernel
  refine ⟨hstats, ?_⟩
  rintro ⟨endpoint, hmem, parameter, hhandled⟩
  refine (productionApp.admin_plane_closed_iff (getOf "/admin/stats") rfl
    (by decide)).mpr ?_ endpoint hmem parameter hhandled
  rintro ⟨-, -, value, hroute⟩
  cases hstats.symm.trans hroute

theorem metrics_are_open :
    ¬ ∀ (app : App) (request : Request),
      app.settings.appEnv = "production" →
      request.headers.get "X-Admin-Key" ≠ some app.settings.adminApiKey →
        ∀ endpoint ∈ adminPlane, ∀ parameter,
          Event.handled endpoint parameter ∉ (app.serve request).events := by
  intro hclosed
  have hhandled : Event.handled .metrics "" ∈
      (productionApp.serve (getOf "/metrics")).events := by
    decide +kernel
  exact hclosed productionApp (getOf "/metrics") rfl (by decide) .metrics
    (by decide) "" hhandled

end RateLimitedGateway.Main
