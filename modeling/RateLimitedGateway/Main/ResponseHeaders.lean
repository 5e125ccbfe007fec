import RateLimitedGateway.Main.Arrival

/-!
# The headers of a response

Request id, rate limit and security headers are assigned on the way out, one
layer after the other, over whatever the upstream has sent under these names.
-/

/-! ## Assigning a header -/

namespace RateLimitedGateway.Http

open RateLimitedGateway.Foundation

namespace Headers

theorem values_nil (name : String) : values [] name = [] := rfl

theorem values_cons (field : String × String) (headers : Headers)
    (name : String) :
    values (field :: headers) name =
      (if lower field.1 = lower name then [field.2] else []) ++
        headers.values name := by
  by_cases hname : lower field.1 = lower name <;>
    simp [values, lowered, Dictionary.valuesAt, hname]

theorem values_filter_ne (headers : Headers) {name other : String}
    (hne : lower other ≠ lower name) :
    values (headers.filter fun field => lower field.1 ≠ lower name) other =
      headers.values other := by
  induction headers with
  | nil => rfl
  | cons field headers ih =>
      by_cases hfield : lower field.1 = lower name
      · have hother : lower field.1 ≠ lower other := by
          rw [hfield]
          exact hne.symm
        simpa [values_cons, hfield, hne.symm] using ih
      · simpa [values_cons, hfield] using ih

theorem values_filter_eq_nil (headers : Headers) (name : String) :
    values (headers.filter fun field => lower field.1 ≠ lower name) name =
      [] := by
  induction headers with
  | nil => rfl
  | cons field headers ih =>
      by_cases hfield : lower field.1 = lower name
      · simpa [hfield] using ih
      · simpa [values_cons, hfield] using ih

theorem values_put_same (headers : Headers) (name value : String) :
    (headers.put name value).values name = [value] := by
  induction headers with
  | nil => simp [put, values_cons, values_nil, lower_lower]
  | cons field headers ih =>
      by_cases hfield : lower field.1 = lower name
      · simpa [put, hfield, values_cons] using
          values_filter_eq_nil headers name
      · simp [put, hfield, values_cons, ih]

theorem values_put_of_ne (headers : Headers) {name other : String}
    (hne : lower other ≠ lower name) (value : String) :
    (headers.put name value).values other = headers.values other := by
  induction headers with
  | nil => simp [put, values_cons, values_nil, lower_lower, hne.symm]
  | cons field headers ih =>
      by_cases hfield : lower field.1 = lower name
      · simpa [put, hfield, values_cons, hne.symm] using
          values_filter_ne headers hne
      · simp [put, hfield, values_cons, ih]

end Headers

def Response.values (response : Response) (name : String) : List String :=
  response.headers.values name

@[simp] theorem Response.values_put (response : Response) (name : String)
    (value other : String) :
    (response.put name value).values other =
      if lower other = lower name then [value] else response.values other := by
  split
  · next hsame =>
      rw [Response.values, Response.put, Headers.values, hsame]
      exact response.headers.values_put_same name value
  · next hne => exact response.headers.values_put_of_ne hne value

end RateLimitedGateway.Http

namespace RateLimitedGateway.Main

open RateLimitedGateway.Core RateLimitedGateway.Http RateLimitedGateway.Infra
open RateLimitedGateway.Middleware RateLimitedGateway.Routes
open RateLimitedGateway.Services

/-! ## The limiter's headers -/

structure States (result : LimitResult) (response : Response) : Prop where
  limit_eq : response.values "X-RateLimit-Limit" = [toString result.limit]
  remaining_eq :
    response.values "X-RateLimit-Remaining" = [toString result.remaining]
  retryAfter_eq :
    response.values "X-RateLimit-Retry-After" = [toString result.retryAfter]
  policy_eq : response.values "X-RateLimit-Policy" = [policyHeader result]
  degraded_eq : result.degraded = true →
    response.values "X-RateLimit-Degraded" = ["true"]
  denied : result.allowed = false →
    response.statusCode = 429 ∧
      response.values "Retry-After" = [toString result.retryAfter]

def limitNames : List String :=
  ["X-RateLimit-Limit", "X-RateLimit-Remaining", "X-RateLimit-Retry-After",
    "X-RateLimit-Policy", "X-RateLimit-Degraded", "Retry-After"]

structure KeepsNames (names : List String) (f : Response → Response) :
    Prop where
  statusCode_eq : ∀ response, (f response).statusCode = response.statusCode
  values_eq : ∀ response, ∀ name ∈ names,
    (f response).values name = response.values name

variable {names : List String} {f g : Response → Response}

theorem KeepsNames.comp (hf : KeepsNames names f) (hg : KeepsNames names g) :
    KeepsNames names fun response => f (g response) where
  statusCode_eq _ := (hf.statusCode_eq _).trans (hg.statusCode_eq _)
  values_eq _ name hname :=
    (hf.values_eq _ name hname).trans (hg.values_eq _ name hname)

theorem keepsNames_id : KeepsNames names fun response => response :=
  ⟨fun _ => rfl, fun _ _ _ => rfl⟩

theorem keepsNames_put {name value : String}
    (hother : (names.all fun other => lower other ≠ lower name) = true) :
    KeepsNames names fun response => response.put name value where
  statusCode_eq _ := rfl
  values_eq response other hmem := by
    have hne := List.all_eq_true.mp hother other hmem
    rw [Response.values_put, if_neg (of_decide_eq_true hne)]

theorem KeepsNames.states (hf : KeepsNames limitNames f) {result : LimitResult}
    {response : Response} (h : States result response) :
    States result (f response) where
  limit_eq := (hf.values_eq _ _ (by decide)).trans h.limit_eq
  remaining_eq := (hf.values_eq _ _ (by decide)).trans h.remaining_eq
  retryAfter_eq := (hf.values_eq _ _ (by decide)).trans h.retryAfter_eq
  policy_eq := (hf.values_eq _ _ (by decide)).trans h.policy_eq
  degraded_eq hdegraded :=
    (hf.values_eq _ _ (by decide)).trans (h.degraded_eq hdegraded)
  denied hdenied :=
    ⟨(hf.statusCode_eq _).trans (h.denied hdenied).1,
      (hf.values_eq _ _ (by decide)).trans (h.denied hdenied).2⟩

theorem states_putRateLimit {result : LimitResult}
    (hallowed : result.allowed = true) (response : Response) :
    States result (putRateLimit result response) := by
  unfold putRateLimit
  simp only []
  split
  · constructor <;>
      simp +decide only [Response.values_put, if_true, if_false, hallowed,
        implies_true, reduceCtorEq, IsEmpty.forall_iff]
  · next hcertain =>
      constructor <;>
        simp +decide only [Response.values_put, if_true, if_false, hallowed,
          hcertain, reduceCtorEq, IsEmpty.forall_iff]

theorem states_deniedResponse {result : LimitResult}
    (hnone : result.remaining = 0) (hcertain : result.degraded = false)
    (state : RequestState) :
    States result (deniedResponse state result) := by
  have hzero : toString (0 : Int) = "0" := rfl
  constructor <;>
    simp +decide only [deniedResponse, jsonResponse, Response.values,
      Headers.values_cons, Headers.values_nil, if_true, if_false,
      List.nil_append, List.append_nil, hnone, hcertain, hzero, implies_true,
      ErrorClass.statusCode, and_self, Bool.false_eq_true, false_implies]

/-! ## The headers of the layers outside -/

def ownNames : List String := "X-Request-ID" :: limitNames

theorem KeepsNames.of_ownNames {f : Response → Response}
    (hf : KeepsNames ownNames f) : KeepsNames limitNames f where
  statusCode_eq := hf.statusCode_eq
  values_eq response name hname :=
    hf.values_eq response name (List.mem_cons_of_mem _ hname)

structure Secured (settings : Settings) (response : Response) : Prop where
  options_eq : response.values "X-Content-Type-Options" = ["nosniff"]
  frame_eq : response.values "X-Frame-Options" = ["DENY"]
  protection_eq : response.values "X-XSS-Protection" = ["1; mode=block"]
  transport_eq : settings.appEnv = "production" →
    response.values "Strict-Transport-Security" =
      ["max-age=31536000; includeSubDomains"]

theorem securityHeaders_secured (settings : Settings) :
    ∃ secure, KeepsNames ownNames secure ∧
      (∀ response, Secured settings (secure response)) ∧
      ∀ next state, (securityHeadersDispatch settings next state).reply =
        mapReply secure (next state).reply := by
  refine ⟨_, ?_, ?_, fun next state => mapResponse_reply _ _⟩
  · have hoptions : KeepsNames ownNames fun response =>
        response.put "X-Content-Type-Options" "nosniff" :=
      keepsNames_put (by decide +kernel)
    have hframe : KeepsNames ownNames fun response =>
        response.put "X-Frame-Options" "DENY" :=
      keepsNames_put (by decide +kernel)
    have hprotection : KeepsNames ownNames fun response =>
        response.put "X-XSS-Protection" "1; mode=block" :=
      keepsNames_put (by decide +kernel)
    have htransport : KeepsNames ownNames fun response =>
        response.put "Strict-Transport-Security"
          "max-age=31536000; includeSubDomains" :=
      keepsNames_put (by decide +kernel)
    have hcommon := (hprotection.comp hframe).comp hoptions
    by_cases hproduction : settings.appEnv = "production"
    · simp only [hproduction, if_true]
      exact htransport.comp hcommon
    · simp only [hproduction, if_false]
      exact hcommon
  · intro response
    by_cases hproduction : settings.appEnv = "production" <;>
      constructor <;>
      simp +decide only [hproduction, Response.values_put, if_true, if_false,
        implies_true, false_implies]

/-! ## From the check to the client -/

namespace App

variable (app : App) (request : Request)

theorem denied_of_limitCheck {claims : Claims} {result : LimitResult}
    {redis : Redis} (hcheck : app.limitCheck claims = .ok (result, redis))
    (hdenied : result.allowed = false) :
    result.remaining = 0 ∧ result.degraded = false := by
  obtain ⟨row, -, -, hchecked⟩ := checkRateLimit_eq_ok_iff.mp hcheck
  have hresult := congrArg Prod.fst hchecked
  simp only [] at hresult
  subst hresult
  unfold RedisRateLimiter.check at hdenied ⊢
  cases hdelivery : app.stores.delivery with
  | failsBefore => simp [hdelivery, RedisRateLimiter.failOpen] at hdenied
  | failsAfter => simp [hdelivery, RedisRateLimiter.failOpen] at hdenied
  | completes =>
      simp only [hdelivery, RedisRateLimiter.execute, tokenBucketScript]
        at hdenied ⊢
      split
      · next hallowed => simp [hallowed] at hdenied
      · exact ⟨rfl, trivial⟩

theorem limited_of_checked {claims : Claims} {state : RequestState}
    (hprivate : isPublic authPublicPrefixes request.url.path = false)
    {user : String} {result : LimitResult}
    (hmem : Event.checked user result ∈
      (app.limited request (state.attachUser claims)).events) :
    user = claims.sub ∧
      (∃ redis, app.limitCheck claims = .ok (result, redis)) ∧
      ∀ response, (app.limited request (state.attachUser claims)).reply =
        .responded response → States result response := by
  have hprivate' := (isPublic_rateLimit request.url.path).trans hprivate
  have huser : (state.attachUser claims).userId = some claims.sub := rfl
  have htier : (state.attachUser claims).tier = some claims.tier := rfl
  unfold limited at hmem ⊢
  rcases rateLimitDispatch_cases app.settings app.healthCounts app.stores
      (exceptionDispatch (app.router request)) hprivate' huser htier with
    ⟨text, hlimit⟩ |
    ⟨found, redis, hcheck, ⟨hdenied, hlimit⟩ | ⟨hallowed, hlimit⟩⟩
  · simp [hlimit] at hmem
  · rw [hlimit] at hmem ⊢
    obtain ⟨rfl, rfl⟩ : user = claims.sub ∧ result = found := by
      simpa using hmem
    refine ⟨rfl, ⟨redis, hcheck⟩, ?_⟩
    rintro response ⟨⟩
    obtain ⟨hnone, hcertain⟩ := app.denied_of_limitCheck hcheck hdenied
    exact states_deniedResponse hnone hcertain _
  · rw [hlimit] at hmem ⊢
    obtain ⟨rfl, rfl⟩ : user = claims.sub ∧ result = found := by
      simpa [not_mem_router_events] using hmem
    refine ⟨rfl, ⟨redis, hcheck⟩, ?_⟩
    intro response hreply
    simp only [mapResponse_reply] at hreply
    cases hinner : (exceptionDispatch (app.router request)
        { state.attachUser claims with
          rateLimitInfo := some result }).reply with
    | responded inner =>
        rw [hinner] at hreply
        cases hreply
        exact states_putRateLimit hallowed inner
    | raised exc =>
        rw [hinner] at hreply
        cases hreply
    | cancelled =>
        rw [hinner] at hreply
        cases hreply

theorem checked_of_authenticated {user : String} {result : LimitResult}
    (hmem : Event.checked user result ∈
      (app.authenticated request (app.begun request)).events) :
    ∃ claims, app.acceptedClaims request = some claims ∧ user = claims.sub ∧
      (∃ redis, app.limitCheck claims = .ok (result, redis)) ∧
      ∀ response, (app.authenticated request (app.begun request)).reply =
        .responded response → States result response := by
  cases hpublic : isPublic authPublicPrefixes request.url.path with
  | true =>
      rw [app.authenticated_of_public request hpublic] at hmem
      exact absurd hmem (app.not_mem_router_events request _ (by simp))
  | false =>
      cases haccepted : app.acceptedClaims request with
      | none =>
          rcases app.authenticated_of_refused request hpublic haccepted
              (app.begun request) with
            ⟨-, exc, hserved⟩ | ⟨text, -, hserved⟩ <;>
            simp [hserved] at hmem
      | some claims =>
          obtain ⟨token, hserved⟩ := app.authenticated_eq request haccepted
            (app.begun request)
          have hlimited : Event.checked user result ∈ (app.limited request
              ((app.begun request).attachUser claims)).events := by
            simpa [hserved] using hmem
          obtain ⟨huser, hcheck, hstates⟩ :=
            app.limited_of_checked request hpublic hlimited
          refine ⟨claims, rfl, huser, hcheck, ?_⟩
          rw [hserved]
          exact hstates

theorem checked_mem_serve_iff {user : String} {result : LimitResult} :
    Event.checked user result ∈ (app.serve request).events ↔
      app.Passes request ∧ Event.checked user result ∈
        (app.authenticated request (app.begun request)).events := by
  rw [serve_events]
  by_cases hpasses : app.Passes request
  · obtain ⟨entries, hrecorded⟩ := app.recorded_events_eq_append request
    simp [hpasses, hrecorded]
  · simp [hpasses]

theorem keepsNames_share
    (hcors : KeepsNames ownNames (app.corsHeaders request)) :
    KeepsNames ownNames (app.share request) := by
  by_cases horigins : app.settings.allowedOrigins = []
  · rw [share_eq_self app request horigins]
    exact keepsNames_id
  · rw [share_eq_corsHeaders app request horigins]
    exact hcors

/--
A response that reaches the client has each header that the gateway assigns
once, with the gateway's value: the security headers always, and behind the
logging middleware the id and the status of the log entry and, where there has
been a check, the result for the logged user.  Only the answer to an exception
that nothing has handled comes without them.
-/
theorem response_headers (hcors : KeepsNames ownNames (app.corsHeaders request))
    {response : Response}
    (hreply : (app.serve request).reply = .responded response) :
    (Secured app.settings response ∧
      (app.Passes request → ∃ entry,
        loggedEntries (app.serve request).events = [entry] ∧
          response.values "X-Request-ID" = [entry.requestId] ∧
          response.statusCode = entry.statusCode ∧
          ∀ user result,
            Event.checked user result ∈ (app.serve request).events →
              entry.userId = user ∧ States result response)) ∨
    (response.headers = [] ∧ response.statusCode = 500 ∧
      ∃ exc, (app.recorded request {}).reply = .raised exc) := by
  obtain ⟨secure, hkeeps, hsecured, hsecure⟩ :=
    securityHeaders_secured app.settings
  by_cases hpasses : app.Passes request
  · by_cases hurl : request.url? = none
    · have hraised := app.recorded_reply request
      have hserved := app.serve_reply request hsecure hpasses
      rw [app.authenticated_of_unreadable request hurl] at hraised hserved
      rw [hserved] at hreply
      cases hreply
      exact .inr ⟨rfl, rfl, _, hraised⟩
    obtain ⟨events, entry, hevents, hunlogged, -, hdescribes⟩ :=
      app.recorded_events_eq request hurl
    have hlogged : loggedEntries (app.serve request).events = [entry] := by
      rw [app.serve_events request, if_pos hpasses, hevents]
      exact loggedEntries_append_logged hunlogged entry
    have hstatus := hdescribes.statusCode_eq
    have hrecorded := app.recorded_reply request
    rw [hrecorded] at hstatus ⊢
    rw [app.serve_reply request hsecure hpasses] at hreply
    cases hinner : (app.authenticated request (app.begun request)).reply with
    | responded inner =>
        rw [hinner] at hreply hstatus
        cases hreply
        have hshare := app.keepsNames_share request hcors
        have houter := hkeeps.comp hshare
        refine .inl ⟨hsecured _, fun _ => ⟨entry, hlogged, ?_, ?_, ?_⟩⟩
        · rw [houter.values_eq _ _ (by decide), Response.values_put,
            if_pos rfl, hdescribes.requestId_eq]
        · rw [houter.statusCode_eq, hstatus]
          rfl
        · intro user result hmem
          obtain ⟨-, hchecked⟩ :=
            (app.checked_mem_serve_iff request).mp hmem
          obtain ⟨claims, haccepted, rfl, -, hstates⟩ :=
            app.checked_of_authenticated request hchecked
          have hid : KeepsNames limitNames fun response => response.put
              "X-Request-ID" (app.effectiveRequestId request) :=
            keepsNames_put (by decide +kernel)
          refine ⟨?_, (houter.of_ownNames.comp hid).states
            (hstates inner hinner)⟩
          rw [hdescribes.userId_eq, haccepted]
          rfl
    | raised exc =>
        rw [hinner] at hreply
        cases hreply
        exact .inr ⟨rfl, rfl, exc, rfl⟩
    | cancelled =>
        rw [hinner] at hreply
        cases hreply
  · obtain ⟨answer, hanswer⟩ : ∃ answer, app.stopping request = some answer :=
      Option.ne_none_iff_exists'.mp
        (mt (app.stopping_eq_none_iff request).mp hpasses)
    rw [serve, serverErrorDispatch_reply,
      app.secured_reply_of_stopping request hsecure hanswer] at hreply
    cases hreply
    exact .inl ⟨hsecured _, fun h => absurd h hpasses⟩

end App

def boastfulApp : App :=
  { emptyBucketApp with
    stores := freshApp.stores
    exchange := .answered
      ⟨200, [("x-ratelimit-limit", "9999"), ("x-request-id", "mine")], []⟩ }

theorem response_headers_boastfulApp : ∃ response,
    (boastfulApp.serve aliceGet).reply = .responded response ∧
      response.values "X-RateLimit-Limit" = ["60"] ∧
      response.values "X-Request-ID" = ["req_0123456789abcdef"] := by
  have hstatus : replyStatus (boastfulApp.serve aliceGet).reply = 200 := by
    decide +kernel
  have hids : (loggedEntries (boastfulApp.serve aliceGet).events).map
      LogEntry.requestId = ["req_0123456789abcdef"] := by
    decide +kernel
  have hchecked : Event.checked "alice" ⟨true, 60, 59, 0, false⟩ ∈
      (boastfulApp.serve aliceGet).events := by
    decide +kernel
  cases hreply : (boastfulApp.serve aliceGet).reply with
  | responded response =>
      rw [hreply] at hstatus
      obtain ⟨-, hpassed⟩ | ⟨-, hfailed, -⟩ :=
        boastfulApp.response_headers aliceGet keepsNames_id hreply
      · obtain ⟨entry, hlogged, hid, -, hstates⟩ := hpassed (by decide)
        rw [hlogged] at hids
        exact ⟨response, rfl, (hstates _ _ hchecked).2.limit_eq,
          hid.trans hids⟩
      · exact absurd (hfailed.symm.trans hstatus) (by decide)
  | raised exc =>
      rw [hreply] at hstatus
      exact absurd hstatus (by simp [replyStatus])
  | cancelled =>
      rw [hreply] at hstatus
      exact absurd hstatus (by simp [replyStatus])

end RateLimitedGateway.Main
