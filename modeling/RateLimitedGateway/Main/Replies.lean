import RateLimitedGateway.Http.Fields
import RateLimitedGateway.Main.LogRecord

/-!
# What the layers make of a reply

Outside the limiter a layer adds headers, answers in place of the rest, or turns
an exception into a response.  Behind it, on a path that is not public, there is
only the proxy.
-/

/-! ## Header fields kept by their name -/

namespace RateLimitedGateway.Http

namespace Headers

def restrict (keep : String → Bool) (headers : Headers) : Headers :=
  headers.filter fun field => keep (lower field.1)

theorem restrict_put_of_keep {keep : String → Bool} {name : String}
    (hkeep : keep (lower name) = true) (headers : Headers) (value : String) :
    (headers.put name value).restrict keep =
      (headers.restrict keep).put name value := by
  induction headers with
  | nil => simp [restrict, put, lower_lower, hkeep]
  | cons field headers ih =>
      by_cases hname : lower field.1 = lower name
      · have hfield : keep (lower field.1) = true := hname ▸ hkeep
        simp only [put, hname, if_true, restrict, List.filter_cons, hkeep,
          List.filter_filter, Bool.and_comm]
      · cases hfield : keep (lower field.1) with
        | true =>
            simpa [put, hname, restrict, hfield] using ih
        | false =>
            simpa [put, hname, restrict, hfield] using ih

theorem restrict_put_of_drop {keep : String → Bool} {name : String}
    (hdrop : keep (lower name) = false) (headers : Headers) (value : String) :
    (headers.put name value).restrict keep = headers.restrict keep := by
  induction headers with
  | nil => simp [restrict, put, lower_lower, hdrop]
  | cons field headers ih =>
      by_cases hname : lower field.1 = lower name
      · simp only [put, hname, if_true, restrict, List.filter_cons, hdrop,
          List.filter_filter, Bool.false_eq_true, if_false]
        apply List.filter_congr
        intro other _
        cases hother : keep (lower other.1) with
        | false => rfl
        | true =>
            have hne : lower other.1 ≠ lower name := by
              intro heq
              simp [heq, hdrop] at hother
            simp [hne]
      · cases hfield : keep (lower field.1) with
        | true => simpa [put, hname, restrict, hfield] using ih
        | false => simpa [put, hname, restrict, hfield] using ih

end Headers

end RateLimitedGateway.Http

namespace RateLimitedGateway.Main

open RateLimitedGateway.Core RateLimitedGateway.Http RateLimitedGateway.Infra
open RateLimitedGateway.Middleware RateLimitedGateway.Routes
open RateLimitedGateway.Services

/-! ## Responses apart from the rate-limit headers -/

def isKept (name : String) : Bool :=
  !startsWith name "x-ratelimit-"

def bare (response : Response) : Response :=
  { response with headers := response.headers.restrict isKept }

def mapReply (f : Response → Response) : Reply → Reply
  | .responded response => .responded (f response)
  | .raised exc => .raised exc
  | .cancelled => .cancelled

/-- The change keeps the status, and does not look at rate-limit headers. -/
structure HeadersOnly (f : Response → Response) : Prop where
  statusCode_eq : ∀ response, (f response).statusCode = response.statusCode
  bare_eq : ∀ {response other : Response}, bare response = bare other →
    bare (f response) = bare (f other)

theorem HeadersOnly.comp {f g : Response → Response} (hf : HeadersOnly f)
    (hg : HeadersOnly g) : HeadersOnly fun response => f (g response) where
  statusCode_eq _ := (hf.statusCode_eq _).trans (hg.statusCode_eq _)
  bare_eq h := hf.bare_eq (hg.bare_eq h)

theorem bare_put_of_keep {name : String} (hkeep : isKept (lower name) = true)
    (response : Response) (value : String) :
    bare (response.put name value) = (bare response).put name value := by
  simp only [bare, Response.put, Headers.restrict_put_of_keep hkeep]

theorem bare_put_of_drop {name : String} (hdrop : isKept (lower name) = false)
    (response : Response) (value : String) :
    bare (response.put name value) = bare response := by
  simp only [bare, Response.put, Headers.restrict_put_of_drop hdrop]

theorem headersOnly_put {name : String} (hkeep : isKept (lower name) = true)
    (value : String) : HeadersOnly fun response => response.put name value where
  statusCode_eq _ := rfl
  bare_eq h := by rw [bare_put_of_keep hkeep, bare_put_of_keep hkeep, h]

theorem bare_putRateLimit (result : LimitResult) (response : Response) :
    bare (putRateLimit result response) = bare response := by
  have hlimit : isKept (lower "X-RateLimit-Limit") = false := by decide +kernel
  have hremaining : isKept (lower "X-RateLimit-Remaining") = false := by
    decide +kernel
  have hretry : isKept (lower "X-RateLimit-Retry-After") = false := by
    decide +kernel
  have hpolicy : isKept (lower "X-RateLimit-Policy") = false := by
    decide +kernel
  have hdegraded : isKept (lower "X-RateLimit-Degraded") = false := by
    decide +kernel
  simp only [putRateLimit]
  split <;>
    simp only [bare_put_of_drop hlimit, bare_put_of_drop hremaining,
      bare_put_of_drop hretry, bare_put_of_drop hpolicy,
      bare_put_of_drop hdegraded]

theorem mapResponse_reply (served : Served) (f : Response → Response) :
    (served.mapResponse f).reply = mapReply f served.reply := by
  unfold Served.mapResponse
  cases hreply : served.reply <;> simp [mapReply, hreply]

theorem mapReply_self (reply : Reply) :
    mapReply (fun response => response) reply = reply := by
  cases reply <;> rfl

theorem mapReply_mapReply (f g : Response → Response) (reply : Reply) :
    mapReply f (mapReply g reply) =
      mapReply (fun response => f (g response)) reply := by
  cases reply <;> rfl

theorem HeadersOnly.mapReply_bare {f : Response → Response}
    (hf : HeadersOnly f) {reply other : Reply}
    (h : mapReply bare reply = mapReply bare other) :
    mapReply bare (mapReply f reply) = mapReply bare (mapReply f other) := by
  cases reply <;> cases other <;> simp_all [mapReply]
  exact hf.bare_eq h

theorem HeadersOnly.replyStatus_eq {f : Response → Response}
    (hf : HeadersOnly f) (reply : Reply) :
    replyStatus (mapReply f reply) = replyStatus reply := by
  cases reply with
  | responded response => exact hf.statusCode_eq response
  | raised exc => rfl
  | cancelled => rfl

/-! ## The layers around the limiter -/

theorem headersOnly_id : HeadersOnly fun response => response where
  statusCode_eq _ := rfl
  bare_eq h := h

theorem securityHeaders_reply (settings : Settings) :
    ∃ f, HeadersOnly f ∧ ∀ next state,
      (securityHeadersDispatch settings next state).reply =
        mapReply f (next state).reply := by
  refine ⟨_, ?_, fun next state => mapResponse_reply _ _⟩
  have hoptions : isKept (lower "X-Content-Type-Options") = true := by
    decide +kernel
  have hframe : isKept (lower "X-Frame-Options") = true := by decide +kernel
  have hxss : isKept (lower "X-XSS-Protection") = true := by decide +kernel
  have htransport : isKept (lower "Strict-Transport-Security") = true := by
    decide +kernel
  have hcommon := ((headersOnly_put hxss "1; mode=block").comp
    (headersOnly_put hframe "DENY")).comp (headersOnly_put hoptions "nosniff")
  by_cases hproduction : settings.appEnv = "production"
  · simp only [hproduction, if_true]
    exact (headersOnly_put htransport
      "max-age=31536000; includeSubDomains").comp hcommon
  · simp only [hproduction, if_false]
    exact hcommon

def closing : Reply → Reply
  | .raised _ =>
      .responded
        { content := .text "Internal Server Error", statusCode := 500,
          headers := [], mediaType := some "text/plain" }
  | reply => reply

theorem serverErrorDispatch_reply (next : Next) (state : RequestState) :
    (serverErrorDispatch next state).reply = closing (next state).reply := by
  simp only [serverErrorDispatch]
  cases hreply : (next state).reply <;> simp [closing, hreply]

theorem closing_bare {reply other : Reply}
    (h : mapReply bare reply = mapReply bare other) :
    mapReply bare (closing reply) = mapReply bare (closing other) := by
  cases reply <;> cases other <;> simp_all [mapReply, closing]

theorem replyStatus_closing (reply : Reply) :
    replyStatus (closing reply) = replyStatus reply := by
  cases reply <;> rfl

theorem headersOnly_bare : HeadersOnly bare where
  statusCode_eq _ := rfl
  bare_eq h := by rw [h]

def handledReply (requestId : Option String) : Reply → Reply
  | .raised (.gatewayError exc) =>
      .responded (handleGatewayError exc { requestId := requestId })
  | .raised (.httpException statusCode detail headers) =>
      .responded (jsonResponse statusCode (.detail detail) headers)
  | .raised (.validationError errors) =>
      .responded (jsonResponse 422 (.detail errors) [])
  | reply => reply

theorem exceptionDispatch_reply (next : Next) (state : RequestState) :
    (exceptionDispatch next state).reply =
      handledReply (next state).state.requestId (next state).reply := by
  simp only [exceptionDispatch]
  cases hreply : (next state).reply with
  | responded response => simp [handledReply, hreply]
  | cancelled => simp [handledReply, hreply]
  | raised exc => cases exc <;> simp [handledReply, hreply, handleGatewayError]

namespace App

variable (app : App) (request : Request)

theorem authDispatch_eq {claims : Claims}
    (haccepted : app.acceptedClaims request = some claims) (callNext : Next)
    (state : RequestState) :
    ∃ token, authDispatch app.jwtDecode request callNext state =
      let served := callNext (state.attachUser claims)
      { served with events := .accepted token claims :: served.events } := by
  unfold acceptedClaims at haccepted
  unfold authDispatch
  cases hurl : request.url? with
  | none => simp [hurl] at haccepted
  | some url =>
      simp only [hurl] at haccepted ⊢
      split at haccepted
      · cases haccepted
      · next hprivate =>
          rw [if_neg hprivate]
          split at haccepted
          · next hbearer =>
              rw [if_pos hbearer]
              cases hdecode : decodeAccessToken app.jwtDecode (strip
                  (String.ofList (((request.headers.get
                    "Authorization").getD "").toList.drop 7))) with
              | error exc => simp [hdecode, Except.toOption] at haccepted
              | ok found =>
                  simp only [hdecode, Except.toOption,
                    Option.some_inj] at haccepted
                  exact ⟨_, by rw [haccepted]⟩
          · cases haccepted

theorem authenticated_eq {claims : Claims}
    (haccepted : app.acceptedClaims request = some claims)
    (state : RequestState) :
    ∃ token, app.authenticated request state =
      let served := app.limited request (state.attachUser claims)
      { served with events := .accepted token claims :: served.events } :=
  app.authDispatch_eq request haccepted (app.limited request) state

def share (response : Response) : Response :=
  if app.settings.allowedOrigins ≠ [] then app.corsHeaders request response
  else response

theorem share_eq_self (horigins : app.settings.allowedOrigins = []) :
    app.share request = fun response => response := by
  funext response
  simp [share, horigins]

theorem share_eq_corsHeaders (horigins : app.settings.allowedOrigins ≠ []) :
    app.share request = app.corsHeaders request := by
  funext response
  simp [share, horigins]

theorem headersOnly_share (hcors : HeadersOnly (app.corsHeaders request)) :
    HeadersOnly (app.share request) := by
  by_cases horigins : app.settings.allowedOrigins = []
  · rw [share_eq_self app request horigins]
    exact headersOnly_id
  · rw [share_eq_corsHeaders app request horigins]
    exact hcors

theorem secured_reply {secure : Response → Response}
    (hsecure : ∀ next state,
      (securityHeadersDispatch app.settings next state).reply =
        mapReply secure (next state).reply)
    (hpasses : app.Passes request) (state : RequestState) :
    (app.secured request state).reply =
      mapReply secure
        (mapReply (app.share request) (app.recorded request state).reply) := by
  obtain ⟨hcors, hhost⟩ := hpasses
  refine (hsecure _ state).trans (congrArg (mapReply secure) ?_)
  -- each of the two checks is wired or not, and lets the request pass
  by_cases horigins : app.settings.allowedOrigins = []
  · rw [share_eq_self app request horigins, mapReply_self]
    by_cases hhosts : app.settings.allowedHosts = ["*"]
    · simp [horigins, hhosts]
    · simp [horigins, hhosts, answerDispatch, hhost hhosts]
  · rw [share_eq_corsHeaders app request horigins]
    by_cases hhosts : app.settings.allowedHosts = ["*"]
    · simp [horigins, hhosts, answerDispatch, hcors horigins,
        mapResponse_reply]
    · simp [horigins, hhosts, answerDispatch, hcors horigins,
        hhost hhosts, mapResponse_reply]

def hosting : Option Response :=
  if app.settings.allowedHosts ≠ ["*"] then
    (app.hostAnswer request).map (app.share request)
  else none

def stopping : Option Response :=
  if app.settings.allowedOrigins ≠ [] then
    (app.corsAnswer request).or (app.hosting request)
  else app.hosting request

theorem stopping_eq_none_iff :
    app.stopping request = none ↔ app.Passes request := by
  unfold stopping hosting Passes
  by_cases horigins : app.settings.allowedOrigins = [] <;>
    by_cases hhosts : app.settings.allowedHosts = ["*"] <;>
    simp [horigins, hhosts]

theorem secured_reply_of_stopping {secure : Response → Response}
    (hsecure : ∀ next state,
      (securityHeadersDispatch app.settings next state).reply =
        mapReply secure (next state).reply)
    {response : Response} (h : app.stopping request = some response)
    (state : RequestState) :
    (app.secured request state).reply = .responded (secure response) := by
  unfold stopping hosting at h
  refine (hsecure _ state).trans ?_
  by_cases horigins : app.settings.allowedOrigins = []
  · have hshare := app.share_eq_self request horigins
    by_cases hhosts : app.settings.allowedHosts = ["*"]
    · simp [horigins, hhosts] at h
    · have hhost : app.hostAnswer request = some response := by
        simpa [horigins, hhosts, hshare] using h
      simp [horigins, hhosts, answerDispatch, hhost, mapReply]
  · have hshare := app.share_eq_corsHeaders request horigins
    cases hcors : app.corsAnswer request with
    | some answer =>
        obtain rfl : answer = response := by
          simpa [horigins, hcors] using h
        simp [horigins, answerDispatch, hcors, mapReply]
    | none =>
        by_cases hhosts : app.settings.allowedHosts = ["*"]
        · simp [horigins, hcors, hhosts] at h
        · obtain ⟨answer, hhost, rfl⟩ : ∃ answer,
              app.hostAnswer request = some answer ∧
                app.corsHeaders request answer = response := by
            simpa [horigins, hcors, hhosts, hshare] using h
          simp [horigins, hhosts, answerDispatch, hcors, hhost, mapReply,
            Served.mapResponse]

end App

/-! ## Routes of non-public paths -/

def literal : Template → String
  | .exact path => path
  | .segment pre => pre
  | .rest pre => pre

theorem startsWith_of_match {template : Template} {path parameter : String}
    (h : template.match? path = some parameter) :
    startsWith path (literal template) = true := by
  unfold startsWith
  rw [List.isPrefixOf_iff_prefix]
  cases template with
  | exact expected =>
      simp only [Template.match?] at h
      split at h
      · next hpath =>
          rcases hpath with hpath | hpath
          · exact hpath ▸ List.prefix_rfl
          · exact hpath ▸ beforeNewline_isPrefix path.toList
      · cases h
  | segment pre =>
      simp only [Template.match?] at h
      split at h
      · next hpath => exact List.isPrefixOf_iff_prefix.mp hpath.1
      · cases h
  | rest pre =>
      simp only [Template.match?] at h
      split at h
      · next hpath => exact List.isPrefixOf_iff_prefix.mp hpath.1
      · cases h

theorem routes_public : ∀ route ∈ routes, route.endpoint = .proxy ∨
    isPublic authPublicPrefixes (literal route.template) = true := by
  decide +kernel

theorem isPublic_of_startsWith {path pre : String}
    (hstarts : startsWith path pre = true)
    (hpublic : isPublic authPublicPrefixes pre = true) :
    isPublic authPublicPrefixes path = true := by
  unfold isPublic at hpublic ⊢
  rw [List.any_eq_true] at hpublic ⊢
  obtain ⟨short, hmem, hshort⟩ := hpublic
  refine ⟨short, hmem, ?_⟩
  unfold startsWith at hstarts hshort ⊢
  rw [List.isPrefixOf_iff_prefix] at hstarts hshort ⊢
  exact hshort.trans hstarts

theorem endpoint_eq_proxy {method path : String} {endpoint : Endpoint}
    {parameter : String} (hprivate : isPublic authPublicPrefixes path = false)
    (h : findRoute routes method path = .found endpoint parameter) :
    endpoint = .proxy := by
  obtain ⟨route, hmem, rfl, hmatch⟩ := mem_of_findRoute h
  rcases routes_public route hmem with hproxy | hpublic
  · exact hproxy
  · have hpath := isPublic_of_startsWith (startsWith_of_match hmatch) hpublic
    rw [hprivate] at hpath
    cases hpath

namespace App

variable (app : App) (request : Request)

theorem afterRecording_eq (conclusion : Conclusion) :
    app.afterRecording conclusion = conclusion.reply := by
  unfold afterRecording
  split
  · rfl
  · simp only [recordUpstreamResult_ok]

def proxied (parameter : String) : Conclusion :=
  (app.proxyRoute.run app.circuit
    { path := parameter, request := request, arrival := app.arrival,
      exchange := app.exchange, finish := app.finish }).1

def routed : Reply :=
  match findRoute routes request.method request.scopePath with
  | .found _ parameter => (app.proxied request parameter).reply
  | .methodNotAllowed allowed =>
      .raised (.httpException 405 "Method Not Allowed"
        [("Allow", ", ".intercalate allowed)])
  | .unmatched => app.unmatched request

theorem router_reply
    (hprivate : isPublic authPublicPrefixes request.scopePath = false)
    (state : RequestState) :
    (app.router request state).reply = app.routed request := by
  unfold router routed
  cases hroute : findRoute routes request.method request.scopePath with
  | found endpoint parameter =>
      obtain rfl := endpoint_eq_proxy hprivate hroute
      exact app.afterRecording_eq _
  | methodNotAllowed allowed => rfl
  | unmatched => rfl

theorem conclude_statusCode
    {called : Except CircuitOpenError (Ending HttpxError UpstreamResponse)}
    {requestId : Option String}
    (h : replyStatus (handledReply requestId (conclude called).reply) = 429) :
    ∃ response, called = .ok (.returned response) ∧
      response.statusCode = 429 := by
  cases called with
  | error exc =>
      simp [conclude, handledReply, handleGatewayError, replyStatus,
        jsonResponse, ErrorClass.statusCode] at h
  | ok ending =>
      cases ending with
      | returned response =>
          refine ⟨response, rfl, ?_⟩
          simp only [conclude] at h
          split at h
          · exact h
          · simp [handledReply, replyStatus] at h
      | raised exc =>
          cases exc <;> simp [conclude, handledReply, handleGatewayError,
            replyStatus, jsonResponse, ErrorClass.statusCode] at h
      | cancelled => simp [conclude, handledReply, replyStatus] at h

theorem proxied_statusCode {parameter : String} {requestId : Option String}
    (h : replyStatus (handledReply requestId
      (app.proxied request parameter).reply) = 429) :
    ∃ response, app.exchange = .answered response ∧
      response.statusCode = 429 := by
  obtain ⟨response, hcalled, hstatus⟩ := conclude_statusCode h
  refine ⟨response, ?_, hstatus⟩
  unfold CircuitBreaker.call at hcalled
  cases henter : app.proxyRoute.breaker.enter app.circuit app.arrival with
  | error exc => simp [henter] at hcalled
  | ok entered =>
      simp only [henter, Except.ok.injEq] at hcalled
      unfold ProxyRoute.ending doUpstreamRequest at hcalled
      split at hcalled
      · cases hcalled
      · split at hcalled
        · next answer hexchange =>
            rw [Ending.returned.inj hcalled] at hexchange
            exact hexchange
        · cases hcalled
        · cases hcalled
        · cases hcalled

end App

end RateLimitedGateway.Main
