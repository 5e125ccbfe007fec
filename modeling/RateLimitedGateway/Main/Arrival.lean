import RateLimitedGateway.Main.Replies

/-!
# The way to the router

Behind the request-id middleware a request is refused by authentication or
makes it raise, fails in the quota lookup, is denied by the limiter, or arrives
at the router.  Which of them it is follows from the request, the settings and
the stores; nothing that a handler does comes into it.
-/

namespace RateLimitedGateway.Main

open RateLimitedGateway.Core RateLimitedGateway.Http RateLimitedGateway.Infra
open RateLimitedGateway.Middleware RateLimitedGateway.Routes
open RateLimitedGateway.Services

structure KeepsContent (f : Response → Response) : Prop where
  content_eq : ∀ response, (f response).content = response.content

theorem keepsContent_id : KeepsContent fun response => response :=
  ⟨fun _ => rfl⟩

theorem KeepsContent.comp {f g : Response → Response} (hf : KeepsContent f)
    (hg : KeepsContent g) : KeepsContent fun response => f (g response) :=
  ⟨fun response => (hf.content_eq _).trans (hg.content_eq response)⟩

theorem keepsContent_put (name value : String) :
    KeepsContent fun response => response.put name value :=
  ⟨fun _ => rfl⟩

theorem keepsContent_putRateLimit (result : LimitResult) :
    KeepsContent (putRateLimit result) where
  content_eq response := by
    unfold putRateLimit
    split <;> rfl

def passOn (events : List Event) (f : Response → Response) (served : Served) :
    Served :=
  let mapped := served.mapResponse f
  { mapped with events := events ++ mapped.events }

namespace App

variable (app : App) (request : Request)

def begun : RequestState :=
  { requestId := some (app.effectiveRequestId request) }

def checkedState (claims : Claims) (result : LimitResult) : RequestState :=
  { (app.begun request).attachUser claims with rateLimitInfo := some result }

def limitCheck (claims : Claims) : Except String (LimitResult × Redis) :=
  checkRateLimit app.settings app.stores claims.sub claims.tier
    (getHealthFactor app.healthCounts)

def LookupFits (claims : Claims) : Prop :=
  ∃ row, app.stores.selectOverride claims.sub = .ok row ∧
    overflows (resolveLimit app.settings row app.stores.utcNow claims.tier) =
      false

/-- The exception that authentication does not turn into a response, if any. -/
def authRaises : Option String :=
  match request.url? with
  | none => some "ValueError"
  | some url =>
      let authHeader := (request.headers.get "Authorization").getD ""
      if isPublic authPublicPrefixes url.path then none
      else if startsWith authHeader "Bearer " then
        match decodeAccessToken app.jwtDecode
          (strip (String.ofList (authHeader.toList.drop 7))) with
        | .error (.otherError text) => some text
        | _ => none
      else none

def arriving : Option RequestState :=
  if isPublic authPublicPrefixes request.url.path then
    some (app.begun request)
  else
    (app.acceptedClaims request).bind fun claims =>
      match app.limitCheck claims with
      | .error _ => none
      | .ok (result, _) =>
          if result.allowed then some (app.checkedState request claims result)
          else none

/-! ## Where a request ends -/

theorem acceptedClaims_of_public
    (hpublic : isPublic authPublicPrefixes request.url.path = true) :
    app.acceptedClaims request = none := by
  simp only [acceptedClaims, url?_of_isPublic (by decide +kernel) hpublic,
    hpublic, if_true]

theorem isPublic_eq_false_of_accepted {claims : Claims}
    (haccepted : app.acceptedClaims request = some claims) :
    isPublic authPublicPrefixes request.url.path = false := by
  by_contra hpublic
  rw [app.acceptedClaims_of_public request
    (Bool.not_eq_false _ ▸ hpublic)] at haccepted
  cases haccepted

theorem url?_of_accepted {claims : Claims}
    (haccepted : app.acceptedClaims request = some claims) :
    request.url? = some request.url := by
  cases hurl : request.url? with
  | none => simp [acceptedClaims, hurl] at haccepted
  | some url => rw [Request.url_of_some hurl]

theorem authRaises_of_public
    (hpublic : isPublic authPublicPrefixes request.url.path = true) :
    app.authRaises request = none := by
  simp only [authRaises, url?_of_isPublic (by decide +kernel) hpublic,
    hpublic, if_true]

theorem authRaises_of_accepted {claims : Claims}
    (haccepted : app.acceptedClaims request = some claims) :
    app.authRaises request = none := by
  unfold authRaises
  unfold acceptedClaims at haccepted
  cases hurl : request.url? with
  | none => simp [hurl] at haccepted
  | some url =>
      simp only [hurl] at haccepted ⊢
      split
      · rfl
      · next hprivate =>
          rw [if_neg hprivate] at haccepted
          split
          · next hbearer =>
              rw [if_pos hbearer] at haccepted
              split
              · next hdecode =>
                  simp [hdecode, Except.toOption] at haccepted
              · rfl
          · rfl

theorem lookupFits_iff (claims : Claims) :
    app.LookupFits claims ↔ ∀ text, app.limitCheck claims ≠ .error text := by
  unfold LookupFits limitCheck checkRateLimit
  cases app.stores.selectOverride claims.sub with
  | error text => simp
  | ok row =>
      cases hover : overflows
          (resolveLimit app.settings row app.stores.utcNow claims.tier) with
      | true => simp [hover]
      | false => simp [hover]

theorem arriving_cases {state : RequestState}
    (harriving : app.arriving request = some state) :
    (isPublic authPublicPrefixes request.url.path = true ∧
        app.acceptedClaims request = none ∧ state = app.begun request) ∨
      ∃ claims result redis, app.acceptedClaims request = some claims ∧
        app.limitCheck claims = .ok (result, redis) ∧ result.allowed = true ∧
          state = app.checkedState request claims result := by
  unfold arriving at harriving
  split at harriving
  · next hpublic =>
      cases harriving
      exact .inl ⟨hpublic, app.acceptedClaims_of_public request hpublic, rfl⟩
  · obtain ⟨claims, haccepted, hstate⟩ :=
      Option.bind_eq_some_iff.mp harriving
    cases hcheck : app.limitCheck claims with
    | error text => simp [hcheck] at hstate
    | ok checked =>
        obtain ⟨result, redis⟩ := checked
        simp only [hcheck, Option.ite_none_right_eq_some, Option.some_inj]
          at hstate
        obtain ⟨hallowed, rfl⟩ := hstate
        exact .inr ⟨claims, result, redis, haccepted, hcheck, hallowed, rfl⟩

theorem authRaises_of_arriving {state : RequestState}
    (harriving : app.arriving request = some state) :
    app.authRaises request = none := by
  rcases app.arriving_cases request harriving with
    ⟨hpublic, -, -⟩ | ⟨claims, result, redis, haccepted, -, -, -⟩
  · exact app.authRaises_of_public request hpublic
  · exact app.authRaises_of_accepted request haccepted

theorem authenticated_of_unreadable (hurl : request.url? = none)
    (state : RequestState) :
    app.authenticated request state =
      ⟨.raised (.otherException "ValueError"), state, []⟩ :=
  authDispatch_unreadable hurl _ _ _

theorem authenticated_of_refused
    (hprivate : isPublic authPublicPrefixes request.url.path = false)
    (hrefused : app.acceptedClaims request = none) (state : RequestState) :
    (app.authRaises request = none ∧ ∃ exc, app.authenticated request state =
      ⟨.responded (authFailureResponse state exc), state, []⟩) ∨
    ∃ text, app.authRaises request = some text ∧
      app.authenticated request state =
        ⟨.raised (.otherException text), state, []⟩ := by
  cases hurl : request.url? with
  | none =>
      exact .inr ⟨"ValueError", by simp [authRaises, hurl],
        app.authenticated_of_unreadable request hurl state⟩
  | some url =>
      rw [Request.url_of_some hurl] at hprivate
      simp only [acceptedClaims, hurl, hprivate, Bool.false_eq_true,
        if_false] at hrefused
      simp only [authRaises, authenticated, authDispatch, hurl, hprivate,
        Bool.false_eq_true, if_false]
      by_cases hbearer : startsWith
          ((request.headers.get "Authorization").getD "") "Bearer " = true
      · simp only [if_pos hbearer] at hrefused ⊢
        cases hdecode : decodeAccessToken app.jwtDecode (strip (String.ofList
            (((request.headers.get "Authorization").getD "").toList.drop 7)))
          with
        | ok claims => simp [hdecode, Except.toOption] at hrefused
        | error exc =>
            cases exc with
            | gatewayError exc => exact .inl ⟨rfl, exc, rfl⟩
            | otherError text => exact .inr ⟨text, rfl, rfl⟩
      · simp only [if_neg hbearer]
        exact .inl ⟨trivial, _, rfl⟩

/-- One case for each place where serving a request can end. -/
inductive Course : Served → Prop where
  | refused (exc : GatewayError)
      (hprivate : isPublic authPublicPrefixes request.url.path = false)
      (hrefused : app.acceptedClaims request = none)
      (hanswers : app.authRaises request = none) :
      Course ⟨.responded (authFailureResponse (app.begun request) exc),
        app.begun request, []⟩
  | broken {text : String}
      (hprivate : isPublic authPublicPrefixes request.url.path = false)
      (hrefused : app.acceptedClaims request = none)
      (hraises : app.authRaises request = some text) :
      Course ⟨.raised (.otherException text), app.begun request, []⟩
  | failed (token : String) {claims : Claims} {text : String}
      (haccepted : app.acceptedClaims request = some claims)
      (hfailed : app.limitCheck claims = .error text) :
      Course ⟨.raised (.otherException text),
        (app.begun request).attachUser claims, [.accepted token claims]⟩
  | denied (token : String) {claims : Claims} {result : LimitResult}
      {redis : Redis} (haccepted : app.acceptedClaims request = some claims)
      (hcheck : app.limitCheck claims = .ok (result, redis))
      (hdenied : result.allowed = false) :
      Course ⟨.responded
          (deniedResponse (app.checkedState request claims result) result),
        app.checkedState request claims result,
        [.accepted token claims, .checked claims.sub result]⟩
  | arrived {state : RequestState} {f : Response → Response}
      {events : List Event} (harriving : app.arriving request = some state)
      (hkeeps : KeepsContent f)
      (hbefore : ∀ endpoint parameter,
        Event.handled endpoint parameter ∉ events) :
      Course (passOn events f (exceptionDispatch (app.router request) state))

theorem passOn_nil (served : Served) :
    passOn [] (fun response => response) served = served := by
  unfold passOn Served.mapResponse
  obtain ⟨reply, state, events⟩ := served
  cases reply <;> rfl

theorem course_limited {claims : Claims}
    (hprivate : isPublic authPublicPrefixes request.url.path = false)
    (haccepted : app.acceptedClaims request = some claims) (token : String) :
    let served := app.limited request ((app.begun request).attachUser claims)
    app.Course request
      { served with events := .accepted token claims :: served.events } := by
  have hprivate' := (isPublic_rateLimit request.url.path).trans hprivate
  have hurl := app.url?_of_accepted request haccepted
  have hcheckRateLimit : checkRateLimit app.settings app.stores claims.sub
      claims.tier (getHealthFactor app.healthCounts) = app.limitCheck claims :=
    rfl
  simp only [limited, rateLimitDispatch, hurl, hprivate',
    RequestState.attachUser, Bool.false_eq_true, if_false, hcheckRateLimit]
  cases hcheck : app.limitCheck claims with
  | error text => exact .failed token haccepted hcheck
  | ok checked =>
      obtain ⟨result, redis⟩ := checked
      cases hallowed : result.allowed with
      | false =>
          simp only [hallowed, Bool.false_eq_true, if_false]
          exact .denied token haccepted hcheck hallowed
      | true =>
          simp only [hallowed, if_true]
          have harriving : app.arriving request =
              some (app.checkedState request claims result) := by
            simp [arriving, hprivate, haccepted, hcheck, hallowed]
          have hbefore : ∀ endpoint parameter,
              Event.handled endpoint parameter ∉
                [.accepted token claims, .checked claims.sub result] := by
            simp
          exact .arrived harriving (keepsContent_putRateLimit result) hbefore

theorem course_authenticated :
    app.Course request (app.authenticated request (app.begun request)) := by
  cases hpublic : isPublic authPublicPrefixes request.url.path with
  | true =>
      have harriving : app.arriving request = some (app.begun request) := by
        simp [arriving, hpublic]
      have hserved : app.authenticated request (app.begun request) =
          exceptionDispatch (app.router request) (app.begun request) := by
        rw [authenticated, authDispatch_public hpublic, limited,
          rateLimitDispatch_public
            ((isPublic_rateLimit request.url.path).trans hpublic)]
      have hcourse : app.Course request (passOn [] (fun response => response)
          (exceptionDispatch (app.router request) (app.begun request))) :=
        .arrived harriving keepsContent_id (by simp)
      rwa [passOn_nil, ← hserved] at hcourse
  | false =>
      cases haccepted : app.acceptedClaims request with
      | none =>
          rcases app.authenticated_of_refused request hpublic haccepted
              (app.begun request) with
            ⟨hanswers, exc, hserved⟩ | ⟨text, hraises, hserved⟩
          · rw [hserved]
            exact .refused exc hpublic haccepted hanswers
          · rw [hserved]
            exact .broken hpublic haccepted hraises
      | some claims =>
          obtain ⟨token, hserved⟩ := app.authenticated_eq request haccepted
            (app.begun request)
          rw [hserved]
          exact app.course_limited request hpublic haccepted token

/-! ## Which handler runs -/

theorem recorded_events_eq_append :
    ∃ entries : List LogEntry, (app.recorded request {}).events =
      (app.authenticated request (app.begun request)).events ++
        entries.map Event.logged := by
  simp only [recorded, loggingDispatch, requestIdDispatch, mapResponse_events]
  cases request.url? with
  | none => exact ⟨[], (List.append_nil _).symm⟩
  | some url => exact ⟨[_], rfl⟩

theorem handled_mem_authenticated_iff {endpoint : Endpoint}
    {parameter : String} :
    Event.handled endpoint parameter ∈
        (app.authenticated request (app.begun request)).events ↔
      (∃ state, app.arriving request = some state) ∧
        findRoute routes request.method request.scopePath =
            .found endpoint parameter ∧
          app.solve endpoint parameter request = .ok () := by
  have hcourse := app.course_authenticated request
  generalize app.authenticated request (app.begun request) = served at hcourse
  cases hcourse with
  | refused exc hprivate hrefused => simp [arriving, hprivate, hrefused]
  | broken hprivate hrefused => simp [arriving, hprivate, hrefused]
  | failed token haccepted hfailed =>
      have hprivate := app.isPublic_eq_false_of_accepted request haccepted
      simp [arriving, hprivate, haccepted, hfailed]
  | denied token haccepted hcheck hdenied =>
      have hprivate := app.isPublic_eq_false_of_accepted request haccepted
      simp [arriving, hprivate, haccepted, hcheck, hdenied]
  | arrived harriving hkeeps hbefore =>
      simp [passOn, harriving, hbefore, handled_mem_router_iff]

theorem handled_mem_serve_iff {endpoint : Endpoint} {parameter : String} :
    Event.handled endpoint parameter ∈ (app.serve request).events ↔
      app.Passes request ∧ (∃ state, app.arriving request = some state) ∧
        findRoute routes request.method request.scopePath =
            .found endpoint parameter ∧
          app.solve endpoint parameter request = .ok () := by
  rw [serve_events]
  by_cases hpasses : app.Passes request
  · obtain ⟨entries, hrecorded⟩ := app.recorded_events_eq_append request
    rw [if_pos hpasses, hrecorded, List.mem_append,
      app.handled_mem_authenticated_iff request]
    simp [hpasses]
  · simp [hpasses]

/-! ## What the client gets -/

theorem securityHeaders_keepsContent (settings : Settings) :
    ∃ f, KeepsContent f ∧ ∀ next state,
      (securityHeadersDispatch settings next state).reply =
        mapReply f (next state).reply := by
  refine ⟨_, ⟨fun response => ?_⟩, fun next state => mapResponse_reply _ _⟩
  simp only []
  split <;> rfl

theorem keepsContent_share
    (hcors : KeepsContent (app.corsHeaders request)) :
    KeepsContent (app.share request) where
  content_eq response := by
    unfold share
    split
    · exact hcors.content_eq response
    · rfl

theorem recorded_reply :
    (app.recorded request {}).reply =
      mapReply
        (fun response =>
          response.put "X-Request-ID" (app.effectiveRequestId request))
        (app.authenticated request (app.begun request)).reply := by
  cases hurl : request.url? with
  | none =>
      simp only [recorded, loggingDispatch, hurl, authenticated,
        authDispatch_unreadable hurl, mapReply]
  | some url =>
      simp only [recorded, loggingDispatch, hurl]
      exact mapResponse_reply _ _

theorem serve_reply {secure : Response → Response}
    (hsecure : ∀ next state,
      (securityHeadersDispatch app.settings next state).reply =
        mapReply secure (next state).reply)
    (hpasses : app.Passes request) :
    (app.serve request).reply =
      closing (mapReply
        (fun response => secure (app.share request
          (response.put "X-Request-ID" (app.effectiveRequestId request))))
        (app.authenticated request (app.begun request)).reply) := by
  rw [serve, serverErrorDispatch_reply,
    app.secured_reply request hsecure hpasses, app.recorded_reply request,
    mapReply_mapReply, mapReply_mapReply]

theorem serve_reply_keepsContent (hpasses : app.Passes request)
    (hcors : KeepsContent (app.corsHeaders request)) :
    ∃ f, KeepsContent f ∧ (app.serve request).reply =
      closing (mapReply f
        (app.authenticated request (app.begun request)).reply) := by
  obtain ⟨secure, hkeeps, hsecure⟩ := securityHeaders_keepsContent app.settings
  have hid := keepsContent_put "X-Request-ID" (app.effectiveRequestId request)
  exact ⟨_, (hkeeps.comp (app.keepsContent_share request hcors)).comp hid,
    app.serve_reply request hsecure hpasses⟩

end App

end RateLimitedGateway.Main
