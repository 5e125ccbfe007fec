import Mathlib.Data.List.Basic

/-!
# The route table

`create_app` registers the documentation routes, the specific routers, the
metrics route and last the catch-all.  The router takes the first route in this
order whose path and method both match.
-/

namespace RateLimitedGateway.Routes

inductive Endpoint where
  | openapi
  | swaggerUi
  | swaggerUiRedirect
  | redoc
  | health
  | ready
  | mintToken
  | upsertQuota
  | getQuota
  | deleteQuota
  | listLogs
  | getStats
  | upstreamHealth
  | metrics
  | proxy
  deriving DecidableEq, Repr

/-- A path template; its one parameter, if any, stands at the end. -/
inductive Template where
  | exact (path : String)
  | segment (pre : String)
  | rest (pre : String)
  deriving DecidableEq, Repr

structure Route where
  methods : List String
  template : Template
  endpoint : Endpoint
  deriving DecidableEq, Repr

/-- The pattern's `$` also matches before a newline that ends the path. -/
def beforeNewline (path : List Char) : List Char :=
  if path.getLast? = some '\n' then path.dropLast else path

def Template.match? (template : Template) (path : String) : Option String :=
  match template with
  | .exact expected =>
      if path.toList = expected.toList ∨
        beforeNewline path.toList = expected.toList then some ""
      else none
  | .segment pre =>
      let value := path.toList.drop pre.toList.length
      if pre.toList.isPrefixOf path.toList ∧ value ≠ [] ∧ '/' ∉ value then
        some (String.ofList value)
      else none
  | .rest pre =>
      let value := beforeNewline (path.toList.drop pre.toList.length)
      if pre.toList.isPrefixOf path.toList ∧ '\n' ∉ value then
        some (String.ofList value)
      else none

/-- The methods of a documentation route, to which Starlette adds `HEAD`. -/
def documentationMethods : List String := ["GET", "HEAD"]

def routes : List Route :=
  [⟨documentationMethods, .exact "/openapi.json", .openapi⟩,
    ⟨documentationMethods, .exact "/docs", .swaggerUi⟩,
    ⟨documentationMethods, .exact "/docs/oauth2-redirect", .swaggerUiRedirect⟩,
    ⟨documentationMethods, .exact "/redoc", .redoc⟩,
    ⟨["GET"], .exact "/health", .health⟩,
    ⟨["GET"], .exact "/ready", .ready⟩,
    ⟨["POST"], .exact "/auth/token", .mintToken⟩,
    ⟨["PUT"], .segment "/admin/quota/", .upsertQuota⟩,
    ⟨["GET"], .segment "/admin/quota/", .getQuota⟩,
    ⟨["DELETE"], .segment "/admin/quota/", .deleteQuota⟩,
    ⟨["GET"], .exact "/admin/logs", .listLogs⟩,
    ⟨["GET"], .exact "/admin/stats", .getStats⟩,
    ⟨["GET"], .exact "/admin/upstream-health", .upstreamHealth⟩,
    ⟨["GET"], .exact "/metrics", .metrics⟩,
    ⟨["GET", "POST", "PUT", "DELETE", "PATCH", "HEAD", "OPTIONS"],
      .rest "/", .proxy⟩]

inductive RouteMatch where
  | found (endpoint : Endpoint) (parameter : String)
  | methodNotAllowed (allowed : List String)
  | unmatched
  deriving DecidableEq, Repr

/-- The first full match, else the first route that matches the path only. -/
def findRoute : List Route → String → String → RouteMatch
  | [], _, _ => .unmatched
  | route :: routes, method, path =>
      match route.template.match? path with
      | none => findRoute routes method path
      | some parameter =>
          if method ∈ route.methods then .found route.endpoint parameter
          else
            match findRoute routes method path with
            | .found endpoint parameter => .found endpoint parameter
            | _ => .methodNotAllowed route.methods

theorem beforeNewline_isPrefix (path : List Char) :
    beforeNewline path <+: path := by
  unfold beforeNewline
  split
  · exact List.dropLast_prefix path
  · exact List.prefix_rfl

theorem mem_of_findRoute {table : List Route} {method path : String}
    {endpoint : Endpoint} {parameter : String}
    (h : findRoute table method path = .found endpoint parameter) :
    ∃ route ∈ table, route.endpoint = endpoint ∧
      route.template.match? path = some parameter := by
  induction table with
  | nil => cases h
  | cons route table ih =>
      simp only [findRoute] at h
      split at h
      · obtain ⟨other, hmem, hother⟩ := ih h
        exact ⟨other, List.mem_cons_of_mem _ hmem, hother⟩
      · next found hmatch =>
          split at h
          · cases h
            exact ⟨route, List.mem_cons_self, rfl, hmatch⟩
          · split at h
            · next later hlater =>
                cases h
                obtain ⟨other, hmem, hother⟩ := ih hlater
                exact ⟨other, List.mem_cons_of_mem _ hmem, hother⟩
            · cases h

end RateLimitedGateway.Routes
