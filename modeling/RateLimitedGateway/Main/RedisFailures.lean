import RateLimitedGateway.Main.Arrival

/-!
# Redis failures

Serving a request talks to Redis three times: for the health factor, for the
limiter's script, and to record the upstream's result.  Each of them may raise
an error, before or after it has had its effect, and the client does not notice.
-/

namespace RateLimitedGateway.Main

open RateLimitedGateway.Core RateLimitedGateway.Http RateLimitedGateway.Infra
open RateLimitedGateway.Middleware RateLimitedGateway.Routes
open RateLimitedGateway.Services

def Denied (events : List Event) : Prop :=
  ∃ user result, Event.checked user result ∈ events ∧ result.allowed = false

structure RedisView where
  healthCounts : Option (Nat × Nat)
  redis : Redis
  delivery : Delivery
  tracker : HealthTracker

def RedisView.Completes (view : RedisView) : Prop :=
  view.healthCounts ≠ none ∧ view.delivery = .completes ∧
    view.tracker.delivery = .completes

namespace App

variable (app : App) (request : Request)

def withRedis (view : RedisView) : App :=
  { app with
    healthCounts := view.healthCounts
    stores :=
      { app.stores with redis := view.redis, delivery := view.delivery }
    tracker := view.tracker }

def identified (claims : Claims) : RequestState :=
  RequestState.attachUser
    { requestId := some (app.effectiveRequestId request) } claims

theorem serve_eq {claims : Claims} (hpasses : app.Passes request)
    (haccepted : app.acceptedClaims request = some claims)
    (hcors : HeadersOnly (app.corsHeaders request)) :
    ∃ f, HeadersOnly f ∧ ∀ view,
      let limited := (app.withRedis view).limited request
        (app.identified request claims)
      ((app.withRedis view).serve request).reply =
          closing (mapReply f limited.reply) ∧
        ∃ token, ∃ entries : List LogEntry,
          ((app.withRedis view).serve request).events =
            .accepted token claims :: limited.events ++
              entries.map Event.logged := by
  obtain ⟨secure, hsecure, hsecured⟩ := securityHeaders_reply app.settings
  have hid := headersOnly_put
    (by decide +kernel : isKept (lower "X-Request-ID") = true)
    (app.effectiveRequestId request)
  refine ⟨_, (hsecure.comp (app.headersOnly_share request hcors)).comp hid, ?_⟩
  intro view
  have hpasses' : (app.withRedis view).Passes request := hpasses
  obtain ⟨token, hauth⟩ := (app.withRedis view).authenticated_eq request
    haccepted { requestId := some (app.effectiveRequestId request) }
  have hreply := (app.withRedis view).serve_reply request hsecured hpasses'
  obtain ⟨entries, hrecorded⟩ :=
    (app.withRedis view).recorded_events_eq_append request
  have hbegun : (app.withRedis view).begun request =
      { requestId := some (app.effectiveRequestId request) } := rfl
  rw [hbegun, hauth] at hreply hrecorded
  refine ⟨hreply, token, entries, ?_⟩
  rw [serve_events, if_pos hpasses', hrecorded]
  rfl

theorem serve_of_stopping {response : Response}
    (hstopping : app.stopping request = some response) :
    ∃ f, HeadersOnly f ∧ ∀ view,
      ((app.withRedis view).serve request).reply = .responded (f response) ∧
        ((app.withRedis view).serve request).events = [] := by
  obtain ⟨secure, hsecure, hsecured⟩ := securityHeaders_reply app.settings
  refine ⟨secure, hsecure, ?_⟩
  intro view
  have hstopping' : (app.withRedis view).stopping request = some response :=
    hstopping
  have hstopped : ¬ (app.withRedis view).Passes request := by
    rw [← stopping_eq_none_iff, hstopping']
    simp
  constructor
  · rw [serve, serverErrorDispatch_reply,
      (app.withRedis view).secured_reply_of_stopping request hsecured
        hstopping' {}]
    rfl
  · rw [serve_events, if_neg hstopped]

/-! ## The limiter -/

def limitInForce (claims : Claims) (row : Option QuotaOverride) : Int :=
  resolveLimit app.settings row app.stores.utcNow claims.tier

def checked (view : RedisView) (claims : Claims) (row : Option QuotaOverride) :
    LimitResult × Redis :=
  RedisRateLimiter.check view.redis view.delivery (userKey claims.sub)
    (effectiveLimit (app.limitInForce claims row)
      (getHealthFactor view.healthCounts))
    windowSeconds app.stores.epochNow

theorem completes_of_denied {view : RedisView} {claims : Claims}
    {row : Option QuotaOverride}
    (hdenied : (app.checked view claims row).1.allowed = false) :
    view.delivery = .completes := by
  unfold checked RedisRateLimiter.check at hdenied
  cases hdelivery : view.delivery with
  | completes => rfl
  | failsBefore => simp [hdelivery, RedisRateLimiter.failOpen] at hdenied
  | failsAfter => simp [hdelivery, RedisRateLimiter.failOpen] at hdenied

def passedOn (claims : Claims) : Reply :=
  match app.stores.selectOverride claims.sub with
  | .error text => .raised (.otherException text)
  | .ok row =>
      if overflows (app.limitInForce claims row) then
        .raised (.otherException "OverflowError")
      else
        handledReply (some (app.effectiveRequestId request))
          (app.routed request)

structure ValidVisit (claims : Claims) : Prop where
  accepted : app.acceptedClaims request = some claims
  scopePath_private : isPublic authPublicPrefixes request.scopePath = false

theorem ValidVisit.path_private {app : App} {request : Request}
    {claims : Claims} (hvalid : app.ValidVisit request claims) :
    isPublic rateLimitPublicPrefixes request.url.path = false := by
  rw [isPublic_rateLimit]
  exact app.isPublic_eq_false_of_accepted request hvalid.accepted

theorem limited_cases {claims : Claims} (hvalid : app.ValidVisit request claims)
    (view : RedisView) :
    let limited := (app.withRedis view).limited request
      (app.identified request claims)
    (Denied limited.events ∧
      ∃ row, (app.checked view claims row).1.allowed = false) ∨
      (¬ Denied limited.events ∧
        mapReply bare limited.reply =
          mapReply bare (app.passedOn request claims) ∧
        ∀ row, app.stores.selectOverride claims.sub = .ok row →
          overflows (app.limitInForce claims row) = false →
          (Proxied limited.events ↔ RoutesToProxy request)) := by
  have hcheck : checkRateLimit (app.withRedis view).settings
      (app.withRedis view).stores claims.sub claims.tier
      (getHealthFactor (app.withRedis view).healthCounts) =
        (app.stores.selectOverride claims.sub).bind fun row =>
          if overflows (app.limitInForce claims row) then
            .error "OverflowError"
          else .ok (app.checked view claims row) := by
    simp only [checkRateLimit, withRedis]
    cases app.stores.selectOverride claims.sub <;> rfl
  have hurl := app.url?_of_accepted request hvalid.accepted
  simp only [limited, rateLimitDispatch, hurl, hvalid.path_private,
    Bool.false_eq_true, if_false, identified, RequestState.attachUser, hcheck,
    passedOn]
  cases hselect : app.stores.selectOverride claims.sub with
  | error text =>
      refine .inr ⟨by simp [Denied, Except.bind], rfl, ?_⟩
      intro row hrow
      cases hrow
  | ok row =>
      simp only [Except.bind]
      cases hover : overflows (app.limitInForce claims row) with
      | true =>
          refine .inr ⟨by simp [Denied], by simp, ?_⟩
          intro other hother hholds
          cases hother
          rw [hover] at hholds
          cases hholds
      | false =>
          simp only [Bool.false_eq_true, if_false]
          cases hallowed : (app.checked view claims row).1.allowed with
          | false =>
              refine .inl ⟨⟨claims.sub, _, ?_, hallowed⟩, row, hallowed⟩
              simp
          | true =>
              refine .inr ⟨?_, ?_, ?_⟩
              · rintro ⟨user, denied, hmem, hdenied⟩
                simp only [if_true, mapResponse_events,
                  exceptionDispatch_events, List.mem_cons] at hmem
                rcases hmem with hchecked | hmem
                · cases hchecked
                  rw [hallowed] at hdenied
                  cases hdenied
                · exact not_mem_router_events _ request _ (by simp) hmem
              · have hrouter := (app.withRedis view).router_reply request
                  hvalid.scopePath_private
                simp only [if_true, mapResponse_reply, mapReply_mapReply,
                  bare_putRateLimit, exceptionDispatch_reply, router_state,
                  hrouter]
                rfl
              · intro _ _ _
                have hrouter := (app.withRedis view).proxied_router_iff request
                simpa [Proxied] using hrouter _

/-! ## What the client sees -/

/-- What is known of the responses that the framework makes of itself. -/
structure FrameworkReplies : Prop where
  headersOnly_corsHeaders : HeadersOnly (app.corsHeaders request)
  corsAnswer_ne : ∀ response ∈ app.corsAnswer request,
    response.statusCode ≠ 429
  hostAnswer_ne : ∀ response ∈ app.hostAnswer request,
    response.statusCode ≠ 429
  unmatched_ne : ∀ requestId,
    replyStatus (handledReply requestId (app.unmatched request)) ≠ 429

def UpstreamLimits : Prop :=
  ∃ response, app.exchange = .answered response ∧ response.statusCode = 429

theorem stopping_ne (hframework : app.FrameworkReplies request)
    {response : Response} (h : app.stopping request = some response) :
    response.statusCode ≠ 429 := by
  have hhosting : ∀ answer, app.hosting request = some answer →
      answer.statusCode ≠ 429 := by
    intro answer hanswer
    unfold hosting at hanswer
    split at hanswer
    · obtain ⟨first, hfirst, rfl⟩ := Option.map_eq_some_iff.mp hanswer
      rw [(app.headersOnly_share request
        hframework.headersOnly_corsHeaders).statusCode_eq]
      exact hframework.hostAnswer_ne first hfirst
    · cases hanswer
  unfold stopping at h
  split at h
  · rcases Option.or_eq_some_iff.mp h with hcors | ⟨-, hhost⟩
    · exact hframework.corsAnswer_ne response hcors
    · exact hhosting response hhost
  · exact hhosting response h

theorem passedOn_limits {claims : Claims}
    (hframework : app.FrameworkReplies request)
    (h : replyStatus (app.passedOn request claims) = 429) :
    app.UpstreamLimits := by
  unfold passedOn at h
  split at h
  · simp [replyStatus] at h
  · split at h
    · simp [replyStatus] at h
    · unfold routed at h
      split at h
      · exact app.proxied_statusCode request h
      · simp [handledReply, replyStatus, jsonResponse] at h
      · exact absurd h (hframework.unmatched_ne _)

theorem serve_cases {claims : Claims} (hvalid : app.ValidVisit request claims)
    (hframework : app.FrameworkReplies request) :
    ∃ reply, (replyStatus reply = 429 → app.UpstreamLimits) ∧ ∀ view,
      let served := (app.withRedis view).serve request
      (Denied served.events ∧
        ∃ row, (app.checked view claims row).1.allowed = false) ∨
        (¬ Denied served.events ∧
          mapReply bare served.reply = mapReply bare reply ∧
          (app.Passes request →
            ∀ row, app.stores.selectOverride claims.sub = .ok row →
              overflows (app.limitInForce claims row) = false →
              (Proxied served.events ↔ RoutesToProxy request))) := by
  cases hstopping : app.stopping request with
  | none =>
      have hpasses := (app.stopping_eq_none_iff request).mp hstopping
      obtain ⟨f, hf, hserve⟩ := app.serve_eq request hpasses hvalid.accepted
        hframework.headersOnly_corsHeaders
      refine ⟨closing (mapReply f (app.passedOn request claims)), ?_, ?_⟩
      · rw [replyStatus_closing, hf.replyStatus_eq]
        exact app.passedOn_limits request hframework
      · intro view
        obtain ⟨hreply, token, entries, hevents⟩ := hserve view
        have hdenied : Denied ((app.withRedis view).serve request).events ↔
            Denied ((app.withRedis view).limited request
              (app.identified request claims)).events := by
          simp [hevents, Denied]
        have hproxied : Proxied ((app.withRedis view).serve request).events ↔
            Proxied ((app.withRedis view).limited request
              (app.identified request claims)).events := by
          simp [hevents, Proxied]
        simp only [hdenied, hproxied, hreply]
        rcases app.limited_cases request hvalid view with
          hlimited | ⟨hallowed, hbare, hrouted⟩
        · exact .inl hlimited
        · exact .inr ⟨hallowed, closing_bare (hf.mapReply_bare hbare),
            fun _ => hrouted⟩
  | some response =>
      obtain ⟨f, hf, hserve⟩ := app.serve_of_stopping request hstopping
      refine ⟨.responded (f response), ?_, ?_⟩
      · intro hstatus
        have hne := app.stopping_ne request hframework hstopping
        exact absurd ((hf.statusCode_eq response).symm.trans hstatus) hne
      · intro view
        obtain ⟨hreply, hevents⟩ := hserve view
        refine .inr ⟨by simp [hevents, Denied], by rw [hreply], ?_⟩
        intro hpasses
        rw [(app.stopping_eq_none_iff request).mpr hpasses] at hstopping
        cases hstopping

theorem checked_allowed_of_empty (claims : Claims)
    (row : Option QuotaOverride) :
    (app.checked ⟨some (0, 0), Redis.empty, .completes, {}⟩ claims
      row).1.allowed = true := by
  unfold checked RedisRateLimiter.check
  simp only [decide_eq_true_eq]
  unfold RedisRateLimiter.execute
  rw [tokenBucketScript_allowed]
  simp only [Redis.empty, Option.map_none, currentTokens_none]
  exact_mod_cast le_max_left _ _

/--
Whatever Redis answers: the status 429 comes from a script that has completed
and denied, or from the upstream; all runs that are not denied reply alike,
runs without any failure among them; and a script that fails denies nothing.
-/
theorem redis_failures_invisible {claims : Claims}
    (hvalid : app.ValidVisit request claims)
    (hframework : app.FrameworkReplies request) :
    (∃ calm : RedisView, calm.Completes ∧
      ¬ Denied ((app.withRedis calm).serve request).events) ∧
    ∀ view, let served := (app.withRedis view).serve request
      (replyStatus served.reply = 429 →
        (Denied served.events ∧ view.delivery = .completes) ∨
          app.UpstreamLimits) ∧
      (¬ Denied served.events → ∀ other,
        ¬ Denied ((app.withRedis other).serve request).events →
          mapReply bare served.reply =
            mapReply bare ((app.withRedis other).serve request).reply) ∧
      (view.delivery ≠ .completes →
        ¬ Denied served.events ∧
          (app.Passes request →
            ∀ row, app.stores.selectOverride claims.sub = .ok row →
              overflows (app.limitInForce claims row) = false →
              (Proxied served.events ↔ RoutesToProxy request))) := by
  obtain ⟨reply, hlimits, hserve⟩ := app.serve_cases request hvalid hframework
  constructor
  · let calm : RedisView := ⟨some (0, 0), Redis.empty, .completes, {}⟩
    refine ⟨calm, ⟨by simp [calm], rfl, rfl⟩, ?_⟩
    rcases hserve calm with ⟨-, row, hdenied⟩ | ⟨hallowed, -, -⟩
    · rw [app.checked_allowed_of_empty claims row] at hdenied
      cases hdenied
    · exact hallowed
  · intro view
    simp only []
    refine ⟨?_, ?_, ?_⟩
    · intro hstatus
      rcases hserve view with ⟨hdenied, row, hcheck⟩ | ⟨-, hreply, -⟩
      · exact .inl ⟨hdenied, app.completes_of_denied hcheck⟩
      · refine .inr (hlimits ?_)
        rw [← headersOnly_bare.replyStatus_eq, ← hreply,
          headersOnly_bare.replyStatus_eq, hstatus]
    · intro hallowed other hother
      rcases hserve view with ⟨hdenied, -⟩ | ⟨-, hreply, -⟩
      · exact absurd hdenied hallowed
      · rcases hserve other with ⟨hdenied, -⟩ | ⟨-, hreply', -⟩
        · exact absurd hdenied hother
        · rw [hreply, hreply']
    · intro hfailed
      rcases hserve view with ⟨-, row, hcheck⟩ | ⟨hallowed, -, hrouted⟩
      · exact absurd (app.completes_of_denied hcheck) hfailed
      · exact ⟨hallowed, hrouted⟩

end App

theorem frameworkReplies_freshApp (request : Request) :
    freshApp.FrameworkReplies request where
  headersOnly_corsHeaders := headersOnly_id
  corsAnswer_ne := nofun
  hostAnswer_ne := nofun
  unmatched_ne _ := by
    simp [freshApp, handledReply, replyStatus, jsonResponse]

def deafRedis : RedisView :=
  { healthCounts := none
    redis := emptyBucketApp.stores.redis
    delivery := .failsAfter
    tracker := { delivery := .failsBefore } }

theorem redis_failures_invisible_aliceGet :
    ∃ calm : RedisView, calm.Completes ∧
      mapReply bare
          ((emptyBucketApp.withRedis deafRedis).serve aliceGet).reply =
        mapReply bare
          ((emptyBucketApp.withRedis calm).serve aliceGet).reply := by
  have hvalid : emptyBucketApp.ValidVisit aliceGet ⟨"alice", "free"⟩ :=
    ⟨by decide +kernel, by decide +kernel⟩
  obtain ⟨hcors, hanswer, hhost, hunmatched⟩ :=
    frameworkReplies_freshApp aliceGet
  obtain ⟨⟨calm, hcalm, hallowed⟩, hview⟩ :=
    emptyBucketApp.redis_failures_invisible aliceGet hvalid
      ⟨hcors, hanswer, hhost, hunmatched⟩
  obtain ⟨-, halike, hforwarded⟩ := hview deafRedis
  obtain ⟨hundenied, -⟩ := hforwarded nofun
  exact ⟨calm, hcalm, halike hundenied calm hallowed⟩

def limitingUpstreamApp : App :=
  { freshApp with
    jwtDecode := fun _ => .decoded ⟨some "alice", some "free"⟩
    exchange := .answered ⟨429, [], []⟩ }

theorem relayed_limit_and_untaken_method :
    (¬ ∀ (app : App) (request : Request) (claims : Claims) (view : RedisView),
      app.ValidVisit request claims → app.FrameworkReplies request →
        replyStatus ((app.withRedis view).serve request).reply = 429 →
          view.delivery = .completes) ∧
    ¬ ∀ (app : App) (request : Request) (claims : Claims) (view : RedisView),
      app.ValidVisit request claims → app.FrameworkReplies request →
        app.Passes request →
          app.stores.selectOverride claims.sub = .ok none →
            view.delivery ≠ .completes →
              Proxied ((app.withRedis view).serve request).events := by
  have hframework : ∀ request,
      limitingUpstreamApp.FrameworkReplies request := by
    intro request
    obtain ⟨hcors, hanswer, hhost, hunmatched⟩ :=
      frameworkReplies_freshApp request
    exact ⟨hcors, hanswer, hhost, hunmatched⟩
  constructor
  · intro honly
    have hcompletes := honly limitingUpstreamApp aliceGet ⟨"alice", "free"⟩
      deafRedis ⟨by decide +kernel, by decide +kernel⟩ (hframework _)
      (by decide +kernel)
    cases hcompletes
  · intro hforwards
    let traced : Request := { aliceGet with method := "TRACE" }
    obtain ⟨path, hmem⟩ := hforwards limitingUpstreamApp traced
      ⟨"alice", "free"⟩ deafRedis ⟨by decide +kernel, by decide +kernel⟩
      (hframework _) (by decide) rfl nofun
    have hunhandled : ((limitingUpstreamApp.withRedis deafRedis).serve
        traced).events.all (fun
          | .handled _ _ => false
          | _ => true) = true := by decide +kernel
    cases List.all_eq_true.mp hunhandled _ hmem

end RateLimitedGateway.Main
