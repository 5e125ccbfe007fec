import RateLimitedGateway.Routes.Target

/-!
# Below the base URL

No path changes the host that is asked: the origin of the base URL comes back
from every URL that the proxy assembles.  But the client removes dot segments
after the proxy has put the base path in front, and a path may climb out of it.
-/

namespace RateLimitedGateway.Routes

open RateLimitedGateway.Foundation RateLimitedGateway.Http
open RateLimitedGateway.Infra

/-- What `httpx` makes of an absolute URL. -/
def normalized (parts : Uri.Parts) : Uri.Parts :=
  { parts with path := Uri.removeDotSegments parts.path }

/-- The URL that is asked for; `none` where `httpx` refuses the request. -/
def ProxyRoute.requested (proxy : ProxyRoute) (visit : Visit) :
    Option Uri.Parts :=
  match proxy.httpx (proxy.sent visit) with
  | some _ => none
  | none => some (normalized (Uri.split (proxy.sent visit).url.toList))

namespace BaseUrl

variable (base : BaseUrl)

def segments : List (List Char) :=
  match base.path with
  | [] => []
  | _ :: rest => Uri.segments rest

def stack : List (List Char) := base.segments.foldl Uri.enter []

theorem render_segments : Uri.render base.segments = base.path := by
  unfold segments
  have hslash := base.path_slash
  split
  · next hpath => rw [hpath]; rfl
  · next c rest hpath =>
    rw [hpath] at hslash
    rw [Uri.render_segments, hpath, hslash c rfl]

theorem segments_free : ∀ segment ∈ base.segments,
    Uri.Free ['/'] segment := by
  unfold segments
  split
  · simp
  · exact Uri.segments_free _

theorem stack_free : ∀ segment ∈ base.stack, Uri.Free ['/'] segment :=
  Uri.foldl_enter_free (by simp) base.segments_free

end BaseUrl

/-- The origin of the base URL, and its path or one below it. -/
def Confined (base : BaseUrl) (parts : Uri.Parts) : Prop :=
  parts.scheme = some base.scheme ∧ parts.authority = some base.authority ∧
    Uri.Under (Uri.render base.stack) parts.path

def clientSegments (path : String) : List (List Char) :=
  Uri.segments (Uri.pathOf path.toList)

theorem removeDotSegments_joined (base : BaseUrl) (path : String) :
    Uri.removeDotSegments (base.path ++ '/' :: Uri.pathOf path.toList) =
      Uri.render (Uri.resolve base.stack (clientSegments path)) := by
  have hclient := Uri.segments_free (Uri.pathOf path.toList)
  have hfree : ∀ segment ∈ base.segments ++ clientSegments path,
      Uri.Free ['/'] segment := by
    intro segment hsegment
    rcases List.mem_append.mp hsegment with hmem | hmem
    · exact base.segments_free segment hmem
    · exact hclient segment hmem
  rw [← Uri.render_segments, ← base.render_segments, ← Uri.render_append]
  exact (Uri.removeDotSegments_render hfree).trans
    (congrArg Uri.render (Uri.resolve_append [] base.segments
      (Uri.segments_ne_nil _)))

/--
A request goes to the base URL's origin and below its path exactly when `httpx`
refuses it, or the client's path comes back through every segment of the base
path that it has climbed out of.
-/
theorem requested_confined_iff (base : BaseUrl) {proxy : ProxyRoute}
    (hbase : proxy.upstreamBaseUrl = base.text) (visit : Visit) :
    (∀ parts, proxy.requested visit = some parts → Confined base parts) ↔
      proxy.httpx (proxy.sent visit) ≠ none ∨
        Uri.Returns base.stack (clientSegments visit.path) := by
  obtain ⟨fragment, hsplit⟩ :=
    split_upstreamRequest_url base visit.path visit.request
  have hunder : Uri.Under (Uri.render base.stack)
      (Uri.removeDotSegments
        (base.path ++ '/' :: Uri.pathOf visit.path.toList)) ↔
        Uri.Returns base.stack (clientSegments visit.path) := by
    rw [removeDotSegments_joined, ← Uri.prefix_resolve_iff]
    exact Uri.under_render_iff base.stack_free
      (Uri.resolve_free base.stack_free (Uri.segments_free _))
  rw [ProxyRoute.requested]
  cases hsent : proxy.httpx (proxy.sent visit) with
  | some exc => simp
  | none =>
      rw [ProxyRoute.sent, hbase, hsplit]
      simp only [Option.some.injEq, forall_eq', Confined, normalized, true_and,
        ne_eq, not_true_eq_false, false_or]
      exact hunder

def apiProxy : ProxyRoute :=
  { breaker := upstreamBreaker, upstreamBaseUrl := apiBase.text
    httpx := fun _ => none }

def apiVisit (path : String) : Visit :=
  { path := path, request := getRequest ("/" ++ path) "", arrival := 0
    exchange := .abandoned, finish := 0 }

theorem requested_confined_iff_reentered :
    ∃ parts, apiProxy.requested (apiVisit "../api/users") = some parts ∧
      Confined apiBase parts := by
  have hreturns : Uri.Returns apiBase.stack
      (clientSegments (apiVisit "../api/users").path) := by decide +kernel
  have hrequested : apiProxy.requested (apiVisit "../api/users") =
      some (normalized (Uri.split
        (apiProxy.sent (apiVisit "../api/users")).url.toList)) := rfl
  have hbase : apiProxy.upstreamBaseUrl = apiBase.text := rfl
  exact ⟨_, hrequested,
    (requested_confined_iff apiBase hbase _).mpr (.inr hreturns) _ hrequested⟩

theorem dot_segments_leave_base_path :
    ¬ ∀ (base : BaseUrl) (proxy : ProxyRoute) (visit : Visit),
      proxy.upstreamBaseUrl = base.text →
      findRoute routes visit.request.method visit.request.scopePath =
        .found .proxy visit.path →
      ∀ parts, proxy.requested visit = some parts → Confined base parts := by
  intro hconfined
  have hparts : apiProxy.requested (apiVisit "../admin") =
      some ⟨some "http".toList, some "upstream:8001".toList, "/admin".toList,
        none, none⟩ := by decide +kernel
  have hunder := (hconfined apiBase apiProxy (apiVisit "../admin") rfl
    (by decide +kernel) _ hparts).2.2
  have hbase : Uri.render apiBase.stack = "/api".toList := by decide +kernel
  rw [hbase] at hunder
  rcases hunder with heq | hprefix
  · revert heq
    decide
  · revert hprefix
    decide

end RateLimitedGateway.Routes
