import RateLimitedGateway.Main.AdminPlane

/-!
# The bodies of errors

Two middlewares and the handler of `GatewayError` build the same envelope.  An
exception of any other class gets a body of the framework's own: an object with
a `detail`, or plain text.
-/

namespace RateLimitedGateway.Main

open RateLimitedGateway.Core RateLimitedGateway.Dependencies
open RateLimitedGateway.Http RateLimitedGateway.Infra
open RateLimitedGateway.Middleware RateLimitedGateway.Routes
open RateLimitedGateway.Services

/-- The body is what `build_error_response` makes, the request id included. -/
def Enveloped (requestId : String) (reply : Reply) : Prop :=
  ∃ response exc, reply = .responded response ∧
    response.content = .error (buildErrorResponse exc (some requestId)) ∧
    (buildErrorResponse exc (some requestId)).requestId = some requestId

def IsGatewayError (exc : Raised) : Prop :=
  ∃ gatewayError, exc = .gatewayError gatewayError

def EndingFits : Ending HttpxError UpstreamResponse → Prop
  | .raised (.otherError _) => False
  | .returned response => (relay response).encodes = true
  | _ => True

namespace App

variable (app : App) (request : Request)

/-- An error comes up behind the request-id middleware, in one of its layers. -/
inductive Fails : Prop where
  | unauthenticated
      (hprivate : isPublic authPublicPrefixes request.url.path = false)
      (hrefused : app.acceptedClaims request = none)
  | lookup {claims : Claims} {text : String}
      (haccepted : app.acceptedClaims request = some claims)
      (hfailed : app.limitCheck claims = .error text)
  | limited {claims : Claims} {result : LimitResult} {redis : Redis}
      (haccepted : app.acceptedClaims request = some claims)
      (hcheck : app.limitCheck claims = .ok (result, redis))
      (hdenied : result.allowed = false)
  | raised {state : RequestState} {exc : Raised}
      (harriving : app.arriving request = some state)
      (hraised : (app.router request state).reply = .raised exc)

def HandlerFits (endpoint : Endpoint) (parameter : String)
    (state : RequestState) : Prop :=
  match endpoint with
  | .proxy =>
      (∃ exc, app.proxyRoute.breaker.enter app.circuit app.arrival =
        .error exc) ∨
      EndingFits (app.proxyRoute.ending
        { path := parameter, request := request, arrival := app.arrival,
          exchange := app.exchange, finish := app.finish })
  | endpoint =>
      ∀ exc, app.handle endpoint parameter request state = .raised exc →
        IsGatewayError exc

def RouteFits (state : RequestState) : Prop :=
  match findRoute routes request.method request.scopePath with
  | .found endpoint parameter =>
      app.solve endpoint parameter request = .ok () ∧
        app.HandlerFits request endpoint parameter state
  | .methodNotAllowed _ => False
  | .unmatched =>
      ∀ exc, app.unmatched request = .raised exc → IsGatewayError exc

def Fits : Prop :=
  app.authRaises request = none ∧
  (∀ claims, app.acceptedClaims request = some claims →
    app.LookupFits claims) ∧
  ∀ state, app.arriving request = some state → app.RouteFits request state

/-! ## What the router raises -/

theorem conclude_raises_iff
    (called : Except CircuitOpenError (Ending HttpxError UpstreamResponse)) :
    (∀ exc, (conclude called).reply = .raised exc → IsGatewayError exc) ↔
      ∀ ending, called = .ok ending → EndingFits ending := by
  cases called with
  | error exc => simp [conclude, IsGatewayError]
  | ok ending =>
      cases ending with
      | returned response =>
          cases hencodes : (relay response).encodes <;>
            simp [conclude, EndingFits, hencodes, IsGatewayError]
      | cancelled => simp [conclude, EndingFits]
      | raised exc => cases exc <;> simp [conclude, EndingFits, IsGatewayError]

theorem handlerFits_iff (endpoint : Endpoint) (parameter : String)
    (state : RequestState) :
    app.HandlerFits request endpoint parameter state ↔
      ∀ exc, app.handler endpoint parameter request state = .raised exc →
        IsGatewayError exc := by
  cases endpoint with
  | proxy =>
      simp only [handler, afterRecording_eq, ProxyRoute.run,
        conclude_raises_iff, HandlerFits, CircuitBreaker.call]
      cases app.proxyRoute.breaker.enter app.circuit app.arrival <;> simp
  | _ => rfl

theorem routeFits_iff (state : RequestState) :
    app.RouteFits request state ↔
      ∀ exc, (app.router request state).reply = .raised exc →
        IsGatewayError exc := by
  unfold RouteFits router
  cases findRoute routes request.method request.scopePath with
  | found endpoint parameter =>
      simp only [handlerFits_iff]
      cases hsolve : app.solve endpoint parameter request with
      | ok passed => simp
      | error exc =>
          simp only [reduceCtorEq, false_and, Reply.raised.injEq,
            forall_eq', false_iff]
          rintro ⟨gatewayError, rfl⟩
          exact solveDependencies_ne_gatewayError _ _ _ _ _ _ hsolve
  | methodNotAllowed allowed => simp [IsGatewayError]
  | unmatched => rfl

/-! ## Which replies are enveloped -/

theorem enveloped_mapReply_iff {f : Response → Response} (hf : KeepsContent f)
    (requestId : String) (reply : Reply) :
    Enveloped requestId (mapReply f reply) ↔ Enveloped requestId reply := by
  cases reply with
  | responded response => simp [Enveloped, mapReply, hf.content_eq]
  | raised exc => rfl
  | cancelled => rfl

theorem enveloped_closing_iff (requestId : String) (reply : Reply) :
    Enveloped requestId (closing reply) ↔ Enveloped requestId reply := by
  cases reply <;> simp [Enveloped, closing]

theorem enveloped_of_content {requestId : String} (hne : requestId ≠ "")
    {response : Response} {exc : GatewayError}
    (hcontent : response.content =
      .error (buildErrorResponse exc (some requestId))) :
    Enveloped requestId (.responded response) :=
  ⟨response, exc, rfl, hcontent, by simp [buildErrorResponse, hne]⟩

theorem enveloped_handledReply_iff {requestId : String} (hne : requestId ≠ "")
    (exc : Raised) :
    Enveloped requestId (handledReply (some requestId) (.raised exc)) ↔
      IsGatewayError exc := by
  cases exc with
  | gatewayError exc =>
      have henveloped : Enveloped requestId
          (.responded (handleGatewayError exc { requestId := requestId })) :=
        enveloped_of_content hne rfl
      simpa [handledReply, IsGatewayError] using henveloped
  | httpException statusCode detail headers =>
      simp [Enveloped, handledReply, IsGatewayError, jsonResponse]
  | validationError errors =>
      simp [Enveloped, handledReply, IsGatewayError, jsonResponse]
  | otherException text => simp [Enveloped, handledReply, IsGatewayError]

theorem effectiveRequestId_ne_empty (hgenerated : app.generatedId ≠ "") :
    app.effectiveRequestId request ≠ "" := by
  unfold effectiveRequestId
  split
  · split
    · next hne => exact hne
    · exact hgenerated
  · exact hgenerated

/-! ## The envelope of every error -/

theorem requestId_of_arriving {state : RequestState}
    (harriving : app.arriving request = some state) :
    state.requestId = some (app.effectiveRequestId request) := by
  rcases app.arriving_cases request harriving with
    ⟨-, -, rfl⟩ | ⟨claims, result, redis, -, -, -, rfl⟩ <;> rfl

theorem limitCheck_of_arriving {state : RequestState}
    (harriving : app.arriving request = some state) {claims : Claims}
    (haccepted : app.acceptedClaims request = some claims) :
    ∃ result redis, app.limitCheck claims = .ok (result, redis) ∧
      result.allowed = true := by
  rcases app.arriving_cases request harriving with
    ⟨-, hnone, -⟩ | ⟨found, result, redis, hfound, hcheck, hallowed, -⟩
  · rw [hnone] at haccepted
    cases haccepted
  · cases hfound.symm.trans haccepted
    exact ⟨result, redis, hcheck, hallowed⟩

theorem fails_iff_of_arriving {state : RequestState}
    (harriving : app.arriving request = some state) :
    app.Fails request ↔
      ∃ exc, (app.router request state).reply = .raised exc := by
  constructor
  · intro hfails
    cases hfails with
    | unauthenticated hprivate hrefused =>
        simp [arriving, hprivate, hrefused] at harriving
    | lookup haccepted hfailed =>
        obtain ⟨result, redis, hcheck, -⟩ :=
          app.limitCheck_of_arriving request harriving haccepted
        cases hfailed.symm.trans hcheck
    | limited haccepted hcheck hdenied =>
        obtain ⟨result, redis, hcheck', hallowed⟩ :=
          app.limitCheck_of_arriving request harriving haccepted
        cases hcheck.symm.trans hcheck'
        cases hdenied.symm.trans hallowed
    | raised harriving' hraised =>
        cases harriving.symm.trans harriving'
        exact ⟨_, hraised⟩
  · rintro ⟨exc, hraised⟩
    exact .raised harriving hraised

theorem lookupFits_of_check {claims : Claims} {result : LimitResult}
    {redis : Redis} (hcheck : app.limitCheck claims = .ok (result, redis)) :
    app.LookupFits claims := by
  rw [lookupFits_iff, hcheck]
  exact fun _ h => by cases h

theorem fits_iff_of_arriving {state : RequestState}
    (harriving : app.arriving request = some state) :
    app.Fits request ↔ app.RouteFits request state := by
  have hanswers := app.authRaises_of_arriving request harriving
  constructor
  · rintro ⟨-, -, hroute⟩
    exact hroute state harriving
  · intro hroute
    refine ⟨hanswers, ?_, ?_⟩
    · intro claims haccepted
      obtain ⟨result, redis, hcheck, -⟩ :=
        app.limitCheck_of_arriving request harriving haccepted
      exact app.lookupFits_of_check hcheck
    · intro other hother
      cases harriving.symm.trans hother
      exact hroute

theorem authenticated_enveloped_iff (hgenerated : app.generatedId ≠ "") :
    (app.Fails request → Enveloped (app.effectiveRequestId request)
      (app.authenticated request (app.begun request)).reply) ↔
      app.Fits request := by
  have hne := app.effectiveRequestId_ne_empty request hgenerated
  have hcourse := app.course_authenticated request
  generalize app.authenticated request (app.begun request) = served at hcourse
  cases hcourse with
  | refused exc hprivate hrefused hanswers =>
      refine iff_of_true (fun _ => enveloped_of_content hne rfl)
        ⟨hanswers, ?_, ?_⟩
      · simp [hrefused]
      · simp [arriving, hprivate, hrefused]
  | @broken text hprivate hrefused hraises =>
      refine iff_of_false ?_ ?_
      · intro henveloped
        obtain ⟨response, exc, hreply, -⟩ :=
          henveloped (.unauthenticated hprivate hrefused)
        cases hreply
      · rintro ⟨hanswers, -⟩
        cases hraises.symm.trans hanswers
  | @failed token claims text haccepted hfailed =>
      refine iff_of_false ?_ ?_
      · intro henveloped
        obtain ⟨response, exc, hreply, -⟩ :=
          henveloped (.lookup haccepted hfailed)
        cases hreply
      · rintro ⟨-, hlookup, -⟩
        exact (app.lookupFits_iff claims).mp (hlookup claims haccepted) text
          hfailed
  | denied token haccepted hcheck hdenied =>
      have hprivate := app.isPublic_eq_false_of_accepted request haccepted
      refine iff_of_true (fun _ => enveloped_of_content hne rfl)
        ⟨app.authRaises_of_accepted request haccepted, ?_, ?_⟩
      · intro claims haccepted'
        cases haccepted.symm.trans haccepted'
        exact app.lookupFits_of_check hcheck
      · simp [arriving, hprivate, haccepted, hcheck, hdenied]
  | @arrived state f events harriving hkeeps hbefore =>
      have hid := app.requestId_of_arriving request harriving
      rw [app.fits_iff_of_arriving request harriving, routeFits_iff,
        app.fails_iff_of_arriving request harriving]
      simp only [passOn, mapResponse_reply, enveloped_mapReply_iff hkeeps,
        exceptionDispatch_reply, router_state, hid]
      constructor
      · intro henveloped exc hraised
        have h := henveloped ⟨exc, hraised⟩
        rwa [hraised, enveloped_handledReply_iff hne] at h
      · rintro hgateway ⟨exc, hraised⟩
        rw [hraised, enveloped_handledReply_iff hne]
        exact hgateway exc hraised

/--
Every error that comes up has the envelope, exactly if nothing but a
`GatewayError` can come up behind the framework's checks.
-/
theorem errors_enveloped_iff (hgenerated : app.generatedId ≠ "")
    (hcors : KeepsContent (app.corsHeaders request)) :
    (app.Passes request → app.Fails request →
      Enveloped (app.effectiveRequestId request) (app.serve request).reply) ↔
      (app.Passes request → app.Fits request) := by
  refine forall_congr' fun hpasses => ?_
  obtain ⟨f, hf, hserve⟩ := app.serve_reply_keepsContent request hpasses hcors
  rw [hserve, enveloped_closing_iff, enveloped_mapReply_iff hf,
    app.authenticated_enveloped_iff request hgenerated]

end App

def noOverrideApp : App :=
  { freshApp with
    handle := fun _ _ _ _ => .raised (.gatewayError ⟨.notFoundError,
      "No quota override for user 'bob'.", []⟩) }

def bobQuota : Request :=
  { getOf "/admin/quota/bob" with
    headers := [("x-admin-key", "0123456789abcdef")] }

theorem errors_enveloped_bobQuota :
    noOverrideApp.Fails bobQuota ∧
      Enveloped "req_0123456789abcdef"
        (noOverrideApp.serve bobQuota).reply := by
  have hpublic : noOverrideApp.acceptedClaims bobQuota = none := by
    decide +kernel
  have hanswers : noOverrideApp.authRaises bobQuota = none := by
    decide +kernel
  have harriving : noOverrideApp.arriving bobQuota =
      some (noOverrideApp.begun bobQuota) := by
    decide +kernel
  have hroute : findRoute routes bobQuota.method bobQuota.scopePath =
      .found .getQuota "bob" := by
    decide +kernel
  have hsolve : noOverrideApp.solve .getQuota "bob" bobQuota = .ok () := by
    decide +kernel
  have hraised : (noOverrideApp.router bobQuota
      (noOverrideApp.begun bobQuota)).reply =
        .raised (.gatewayError ⟨.notFoundError,
          "No quota override for user 'bob'.", []⟩) := by
    decide +kernel
  have hfails : noOverrideApp.Fails bobQuota := .raised harriving hraised
  refine ⟨hfails, (noOverrideApp.errors_enveloped_iff bobQuota (by decide)
    keepsContent_id).mpr (fun _ => ⟨hanswers, by simp [hpublic], ?_⟩)
      (by decide) hfails⟩
  intro state _
  rw [App.RouteFits, hroute]
  refine ⟨hsolve, ?_⟩
  rintro exc ⟨⟩
  exact ⟨_, rfl⟩

theorem admin_refusal_has_detail :
    ¬ ∀ (app : App) (request : Request), app.generatedId ≠ "" →
      KeepsContent (app.corsHeaders request) → app.Passes request →
        app.Fails request →
          Enveloped (app.effectiveRequestId request)
            (app.serve request).reply := by
  intro henveloped
  have harriving : freshApp.arriving (getOf "/admin/stats") =
      some (freshApp.begun (getOf "/admin/stats")) := by
    decide +kernel
  have hraised : (freshApp.router (getOf "/admin/stats")
      (freshApp.begun (getOf "/admin/stats"))).reply =
        .raised (.httpException 401 "Invalid or missing admin key."
          [("WWW-Authenticate", "X-Admin-Key")]) := by
    decide +kernel
  have hdetail : mapReply (fun response => { response with headers := [] })
      (freshApp.serve (getOf "/admin/stats")).reply =
        .responded ⟨.detail "Invalid or missing admin key.", 401, [],
          some "application/json"⟩ := by
    decide +kernel
  obtain ⟨response, exc, hreply, hcontent, -⟩ := henveloped freshApp
    (getOf "/admin/stats") (by decide) keepsContent_id (by decide)
    (.raised harriving hraised)
  rw [hreply] at hdetail
  simp [mapReply, hcontent] at hdetail

end RateLimitedGateway.Main
