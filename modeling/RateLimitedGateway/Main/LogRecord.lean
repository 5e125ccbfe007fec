import RateLimitedGateway.Main.Access

/-!
# What the log says about a request

The entry is put together after the fact, from what the inner middlewares have
left in the request's state.  Its texts come from the client: the request id,
the path, the method, the subject of the token and the address.  There is none
where the path cannot be read from the request's URL.
-/

namespace RateLimitedGateway.Main

open RateLimitedGateway.Core RateLimitedGateway.Http RateLimitedGateway.Infra
open RateLimitedGateway.Middleware RateLimitedGateway.Routes
open RateLimitedGateway.Services

def loggedEntries (events : List Event) : List LogEntry :=
  events.filterMap fun
    | .logged entry => some entry
    | _ => none

def replyStatus : Reply → Nat
  | .responded response => response.statusCode
  | .raised _ => 500
  | .cancelled => 500

namespace App

variable (app : App) (request : Request)

def acceptedClaims : Option Claims :=
  match request.url? with
  | none => none
  | some url =>
      let authHeader := (request.headers.get "Authorization").getD ""
      if isPublic authPublicPrefixes url.path then none
      else if startsWith authHeader "Bearer " then
        (decodeAccessToken app.jwtDecode
          (strip (String.ofList (authHeader.toList.drop 7)))).toOption
      else none

def effectiveRequestId : String :=
  match request.headers.get "X-Request-ID" with
  | some incoming => if incoming ≠ "" then incoming else app.generatedId
  | none => app.generatedId

end App

/-! ## The state that the layers leave -/

@[simp] theorem mapResponse_state (served : Served) (f : Response → Response) :
    (served.mapResponse f).state = served.state := by
  unfold Served.mapResponse
  split <;> rfl

@[simp] theorem exceptionDispatch_state (next : Next) (state : RequestState) :
    (exceptionDispatch next state).state = (next state).state := by
  simp only [exceptionDispatch]
  split <;> rfl

def ToldByState (served : Served) : Prop :=
  match served.state.rateLimitInfo with
  | none => ∀ user result, Event.checked user result ∉ served.events
  | some info => ∃ user, ∀ other result,
      Event.checked other result ∈ served.events ↔ other = user ∧ result = info

namespace App

variable (app : App) (request : Request)

theorem router_state (state : RequestState) :
    (app.router request state).state = state := by
  rcases app.router_cases request state with
    ⟨reply, hrouter, -⟩ | ⟨endpoint, parameter, -, -, hrouter⟩ <;>
    rw [hrouter]

theorem not_mem_router_events (state : RequestState) {event : Event}
    (hother : ∀ endpoint parameter, event ≠ .handled endpoint parameter) :
    event ∉ (app.router request state).events := by
  rcases app.router_cases request state with
    ⟨reply, hrouter, -⟩ | ⟨endpoint, parameter, -, -, hrouter⟩
  · simp [hrouter]
  · simp [hrouter, hother]

structure Tells (accepted : Option Claims) (requestId userId : Option String)
    (served : Served) : Prop where
  accepted_iff : ∀ claims,
    (∃ token, Event.accepted token claims ∈ served.events) ↔
      accepted = some claims
  requestId_eq : served.state.requestId = requestId
  userId_eq : served.state.userId = userId
  told : ToldByState served
  unlogged : ∀ entry, Event.logged entry ∉ served.events

theorem tells_router (state : RequestState)
    (hfresh : state.rateLimitInfo = none) :
    Tells none state.requestId state.userId
      (exceptionDispatch (app.router request) state) where
  accepted_iff claims := by
    simp [not_mem_router_events]
  requestId_eq := by rw [exceptionDispatch_state, router_state]
  userId_eq := by rw [exceptionDispatch_state, router_state]
  told := by
    simp [ToldByState, router_state, hfresh, not_mem_router_events]
  unlogged entry := by
    simp [not_mem_router_events]

theorem tells_allowed (state : RequestState) (user : String)
    (result : LimitResult) (f : Response → Response) :
    let served := (exceptionDispatch (app.router request)
      { state with rateLimitInfo := some result }).mapResponse f
    Tells none state.requestId state.userId
      { served with events := .checked user result :: served.events } where
  accepted_iff claims := by
    simp [not_mem_router_events]
  requestId_eq := by simp [router_state]
  userId_eq := by simp [router_state]
  told := by
    simp only [ToldByState, mapResponse_state, exceptionDispatch_state,
      router_state]
    refine ⟨user, ?_⟩
    simp [not_mem_router_events]
  unlogged entry := by
    simp [not_mem_router_events]

theorem tells_limited (state : RequestState)
    (hfresh : state.rateLimitInfo = none) :
    Tells none state.requestId state.userId (app.limited request state) := by
  have hraised : ∀ text, Tells none state.requestId state.userId
      ⟨.raised (.otherException text), state, []⟩ := fun text =>
    ⟨by simp, rfl, rfl, by simp [ToldByState, hfresh], by simp⟩
  unfold limited
  cases hpublic : isPublic rateLimitPublicPrefixes request.url.path with
  | true =>
      rw [rateLimitDispatch_public hpublic]
      exact app.tells_router request state hfresh
  | false =>
      cases huser : state.userId with
      | none =>
          rw [rateLimitDispatch_anonymous hpublic (.inl huser), ← huser]
          exact hraised _
      | some userId =>
          cases htier : state.tier with
          | none =>
              rw [rateLimitDispatch_anonymous hpublic (.inr htier), ← huser]
              exact hraised _
          | some tier =>
              rcases rateLimitDispatch_cases app.settings app.healthCounts
                  app.stores (exceptionDispatch (app.router request)) hpublic
                  huser htier with
                ⟨text, hlimit⟩ |
                ⟨result, redis, -, ⟨hdenied, hlimit⟩ | ⟨hallowed, hlimit⟩⟩
              · rw [hlimit, ← huser]
                exact hraised text
              · rw [hlimit]
                exact ⟨by simp, rfl, huser, ⟨userId, by simp⟩, by simp⟩
              · rw [hlimit, ← huser]
                exact app.tells_allowed request state userId result _

theorem tells_authenticated (state : RequestState)
    (hfresh : state.rateLimitInfo = none) (hanonymous : state.userId = none) :
    Tells (app.acceptedClaims request) state.requestId
      ((app.acceptedClaims request).map Claims.sub)
      (app.authenticated request state) := by
  have hrefused : ∀ reply, Tells none state.requestId none
      ⟨reply, state, []⟩ := fun reply =>
    ⟨by simp, rfl, hanonymous, by simp [ToldByState, hfresh], by simp⟩
  unfold authenticated authDispatch acceptedClaims
  cases request.url? with
  | none => exact hrefused _
  | some url =>
      simp only []
      split
      · have hinner := app.tells_limited request state hfresh
        rwa [hanonymous] at hinner
      · split
        · cases hdecode : decodeAccessToken app.jwtDecode (strip (String.ofList
            (((request.headers.get "Authorization").getD "").toList.drop 7)))
            with
          | error exc => cases exc <;> exact hrefused _
          | ok claims =>
              have hinner := app.tells_limited request
                (state.attachUser claims) hfresh
              refine ⟨?_, hinner.requestId_eq, hinner.userId_eq, ?_, ?_⟩
              · intro other
                have hinner' := hinner.accepted_iff other
                simp only [reduceCtorEq, iff_false, not_exists] at hinner'
                simp [hinner', Except.toOption, eq_comm]
              · have htold := hinner.told
                simp only [ToldByState] at htold ⊢
                split at htold <;> simpa using htold
              · simpa using hinner.unlogged
        · exact hrefused _

/-! ## The entry -/

theorem toldByState_iff {served : Served} (htold : ToldByState served) :
    (match served.state.rateLimitInfo with
      | some info => !info.allowed
      | none => false) = true ↔
    ∃ user result, Event.checked user result ∈ served.events ∧
      result.allowed = false := by
  unfold ToldByState at htold
  split at htold
  · next hnone =>
      simp only [hnone, Bool.false_eq_true, false_iff]
      rintro ⟨user, result, hmem, -⟩
      exact htold user result hmem
  · next info hsome =>
      obtain ⟨user, hchecked⟩ := htold
      simp only [hsome, Bool.not_eq_true']
      constructor
      · intro hdenied
        exact ⟨user, info, (hchecked user info).mpr ⟨rfl, rfl⟩, hdenied⟩
      · rintro ⟨other, result, hmem, hdenied⟩
        obtain ⟨-, rfl⟩ := (hchecked other result).mp hmem
        exact hdenied

structure Describes (entry : LogEntry) : Prop where
  requestId_eq : entry.requestId = app.effectiveRequestId request
  userId_eq : entry.userId =
    ((app.acceptedClaims request).map Claims.sub).getD "anonymous"
  endpoint_eq : entry.endpoint = request.url.path
  method_eq : entry.method = request.method
  ip_eq : entry.ip = request.client
  statusCode_eq : entry.statusCode = replyStatus (app.recorded request {}).reply
  rateLimited_iff : entry.rateLimited = true ↔
    ∃ user result,
      Event.checked user result ∈ (app.recorded request {}).events ∧
        result.allowed = false

theorem recorded_events_eq (hurl : request.url? ≠ none) :
    ∃ events entry, (app.recorded request {}).events =
        events ++ [.logged entry] ∧
      (∀ other, Event.logged other ∉ events) ∧
      (∀ claims, (∃ token, Event.accepted token claims ∈ events) ↔
        app.acceptedClaims request = some claims) ∧
      app.Describes request entry := by
  let state : RequestState :=
    { requestId := some (app.effectiveRequestId request) }
  have htells := app.tells_authenticated request state rfl rfl
  generalize hinner : app.authenticated request state = inner at htells
  let served := inner.mapResponse fun response =>
    response.put "X-Request-ID" (app.effectiveRequestId request)
  let entry : LogEntry :=
    { requestId := served.state.requestId.getD "unknown"
      userId := served.state.userId.getD "anonymous"
      endpoint := request.url.path
      method := request.method
      statusCode := replyStatus served.reply
      latencyMs := app.latencyMs
      rateLimited :=
        match served.state.rateLimitInfo with
        | some info => !info.allowed
        | none => false
      ip := request.client }
  have hrecorded : app.recorded request {} =
      { served with events := served.events ++ [.logged entry] } := by
    have hserved : requestIdDispatch app.generatedId request
        (app.authenticated request) {} = served := by
      simp only [served, ← hinner]
      rfl
    obtain ⟨url, hsome⟩ := Option.ne_none_iff_exists'.mp hurl
    simp only [recorded, loggingDispatch, hserved, entry, hsome,
      Request.url_of_some hsome]
    cases served.reply <;> rfl
  have hunlogged : ∀ other, Event.logged other ∉ served.events := by
    simpa only [served, mapResponse_events] using htells.unlogged
  have htold : ToldByState served := by
    simpa only [ToldByState, served, mapResponse_state, mapResponse_events]
      using htells.told
  have haccepted : ∀ claims,
      (∃ token, Event.accepted token claims ∈ served.events) ↔
        app.acceptedClaims request = some claims := by
    simpa only [served, mapResponse_events] using htells.accepted_iff
  refine ⟨served.events, entry, by rw [hrecorded], hunlogged, haccepted, ?_⟩
  constructor
  · simp [entry, served, htells.requestId_eq, state]
  · simp [entry, served, htells.userId_eq]
  · rfl
  · rfl
  · rfl
  · rw [hrecorded]
  · rw [hrecorded]
    simp only [List.mem_append, List.mem_singleton, reduceCtorEq, or_false]
    exact toldByState_iff htold

/-! ## Reading the log -/

theorem loggedEntries_append_logged {events : List Event}
    (hunlogged : ∀ other, Event.logged other ∉ events) (entry : LogEntry) :
    loggedEntries (events ++ [.logged entry]) = [entry] := by
  have hnone : loggedEntries events = [] := by
    rw [loggedEntries, List.filterMap_eq_nil_iff]
    intro event hmem
    cases event with
    | logged other => exact absurd hmem (hunlogged other)
    | accepted token claims => rfl
    | checked user result => rfl
    | handled endpoint parameter => rfl
  rw [loggedEntries, List.filterMap_append, ← loggedEntries, hnone]
  rfl

theorem recorded_events_of_unreadable (hurl : request.url? = none) :
    (app.recorded request {}).events = [] := by
  simp only [recorded, loggingDispatch, hurl, requestIdDispatch,
    mapResponse_events, authenticated, authDispatch_unreadable hurl]

/-- The entry has the status of the reply, the subject of the accepted token,
and the limiter's verdict. -/
def LoggedOnce : Prop :=
  ∃ entry, loggedEntries (app.serve request).events = [entry] ∧
    entry.statusCode = replyStatus (app.recorded request {}).reply ∧
    (∀ claims,
      (∃ token, Event.accepted token claims ∈ (app.serve request).events) ↔
        app.acceptedClaims request = some claims) ∧
    entry.userId =
      ((app.acceptedClaims request).map Claims.sub).getD "anonymous" ∧
    (entry.rateLimited = true ↔
      ∃ user result,
        Event.checked user result ∈ (app.serve request).events ∧
          result.allowed = false)

/--
A request that reaches the logging middleware is logged once and rightly, unless
its URL cannot be read: then the middleware raises before it schedules the log.
-/
theorem log_tells_outcome_iff (hpasses : app.Passes request) :
    app.LoggedOnce request ↔ request.url? ≠ none := by
  unfold LoggedOnce
  rw [app.serve_events request, if_pos hpasses]
  constructor
  · rintro ⟨entry, hlogged, -⟩ hurl
    rw [app.recorded_events_of_unreadable request hurl] at hlogged
    cases hlogged
  · intro hurl
    obtain ⟨events, entry, hevents, hunlogged, haccepted, hdescribes⟩ :=
      app.recorded_events_eq request hurl
    refine ⟨entry, ?_, hdescribes.statusCode_eq, ?_, hdescribes.userId_eq,
      hdescribes.rateLimited_iff⟩
    · rw [hevents]
      exact loggedEntries_append_logged hunlogged entry
    · simpa only [hevents, List.mem_append, List.mem_singleton, reduceCtorEq,
        or_false] using haccepted

end App

def emptyBucketApp : App :=
  { freshApp with
    jwtDecode := fun _ => .decoded ⟨some "alice", some "free"⟩
    stores :=
      { freshApp.stores with
        redis := Redis.empty.set "user:alice" ⟨⟨0, 0⟩, 120⟩ } }

def aliceGet : Request :=
  { method := "GET"
    scopePath := "/get"
    url? := some ⟨"/get", ""⟩
    headers := [("host", "localhost"), ("authorization", "Bearer t")]
    client := some "127.0.0.1"
    body := [] }

theorem log_tells_outcome_denied :
    ∃ entry, loggedEntries (emptyBucketApp.serve aliceGet).events = [entry] ∧
      entry.statusCode = 429 ∧ entry.userId = "alice" ∧
      entry.rateLimited = true := by
  obtain ⟨entry, hlogged, hstatus, -, huser, hlimited⟩ :=
    (emptyBucketApp.log_tells_outcome_iff aliceGet (by decide)).mpr (by decide)
  refine ⟨entry, hlogged, hstatus.trans (by decide +kernel),
    huser.trans (by decide +kernel), hlimited.mpr ?_⟩
  exact ⟨"alice", ⟨false, 60, 0, 1, false⟩, by decide +kernel, rfl⟩

/-- `Host: [` makes a URL whose parser raises. -/
def bracketGet : Request :=
  { aliceGet with
    url? := none, headers := [("host", "["), ("authorization", "Bearer t")] }

theorem malformed_host_is_not_logged :
    ¬ ∀ (app : App) (request : Request), app.Passes request →
      app.LoggedOnce request := by
  intro hlogged
  obtain ⟨entry, hentry, -⟩ := hlogged emptyBucketApp bracketGet (by decide)
  have hnone : loggedEntries (emptyBucketApp.serve bracketGet).events = [] := by
    decide +kernel
  rw [hnone] at hentry
  cases hentry

/-! ## The columns -/

namespace App

variable (app : App) (request : Request)

def FitsColumns : Prop :=
  request.url? ≠ none ∧
    (∀ incoming ∈ request.headers.get "X-Request-ID", Fits 64 incoming) ∧
    (∀ claims ∈ app.acceptedClaims request, Fits 128 claims.sub) ∧
    Fits 512 request.url.path ∧ Fits 16 request.method ∧
    ∀ host ∈ request.client, Fits 64 host

instance : Decidable (app.FitsColumns request) :=
  inferInstanceAs (Decidable (_ ∧ _ ∧ _ ∧ _ ∧ _ ∧ _))

theorem effectiveRequestId_fits_iff (hgenerated : Fits 20 app.generatedId) :
    Fits 64 (app.effectiveRequestId request) ↔
      ∀ incoming ∈ request.headers.get "X-Request-ID", Fits 64 incoming := by
  have hgenerated' : Fits 64 app.generatedId :=
    ⟨hgenerated.1.trans (by decide), hgenerated.2⟩
  unfold effectiveRequestId
  cases request.headers.get "X-Request-ID" with
  | none => simp [hgenerated']
  | some incoming =>
      by_cases hempty : incoming = ""
      · simp [hempty, hgenerated', show Fits 64 "" by decide]
      · simp [hempty]

theorem accepts_iff_fitsColumns (hgenerated : Fits 20 app.generatedId)
    (hurl : request.url? ≠ none) {entry : LogEntry}
    (hdescribes : app.Describes request entry) :
    RequestLog.Accepts entry ↔ app.FitsColumns request := by
  have hsub :
      Fits 128 (((app.acceptedClaims request).map Claims.sub).getD
        "anonymous") ↔
      ∀ claims ∈ app.acceptedClaims request, Fits 128 claims.sub := by
    cases app.acceptedClaims request with
    | none => simp [show Fits 128 "anonymous" by decide]
    | some claims => simp
  unfold RequestLog.Accepts FitsColumns
  rw [hdescribes.requestId_eq, hdescribes.userId_eq, hdescribes.endpoint_eq,
    hdescribes.method_eq, hdescribes.ip_eq, hsub,
    app.effectiveRequestId_fits_iff request hgenerated]
  exact (and_iff_right hurl).symm

/--
A request has an entry, it satisfies the constraints of the table, and the store
keeps it, exactly if the client's texts can be read and fit the columns.
-/
theorem logged_iff_fitsColumns (hgenerated : Fits 20 app.generatedId) :
    ((app.Passes request → loggedEntries (app.serve request).events ≠ []) ∧
      ∀ entry, Event.logged entry ∈ (app.serve request).events →
        RequestLog.Accepts entry ∧ ∀ rows createdAt,
          PostgresLogStore.write rows createdAt entry =
            rows ++ [{ entry with createdAt := createdAt }]) ↔
    (app.Passes request → app.FitsColumns request) := by
  rw [app.serve_events request]
  by_cases hpasses : app.Passes request
  · simp only [hpasses, if_true, forall_const]
    by_cases hurl : request.url? = none
    · rw [app.recorded_events_of_unreadable request hurl]
      simp [FitsColumns, hurl, loggedEntries]
    · obtain ⟨events, entry, hevents, hunlogged, -, hdescribes⟩ :=
        app.recorded_events_eq request hurl
      have haccepts :=
        app.accepts_iff_fitsColumns request hgenerated hurl hdescribes
      have hmem : ∀ other,
          Event.logged other ∈ events ++ [.logged entry] ↔ other = entry := by
        simp [hunlogged]
      rw [hevents, loggedEntries_append_logged hunlogged]
      simp only [hmem, PostgresLogStore.write_eq_iff, forall_eq, forall_const,
        ← haccepts, and_self, ne_eq, List.cons_ne_nil, not_false_eq_true,
        true_and]
  · simp [hpasses]

end App

theorem logged_iff_fitsColumns_aliceGet :
    emptyBucketApp.FitsColumns aliceGet ∧
      ¬ ∃ entry,
        Event.logged entry ∈ (emptyBucketApp.serve aliceGet).events ∧
          ¬ RequestLog.Accepts entry := by
  have hfits : emptyBucketApp.FitsColumns aliceGet := by decide +kernel
  refine ⟨hfits, ?_⟩
  rintro ⟨entry, hmem, hrefused⟩
  have hlogged := (emptyBucketApp.logged_iff_fitsColumns aliceGet
    (by decide)).mpr (fun _ => hfits)
  exact hrefused (hlogged.2 entry hmem).1

def longIdGet : Request :=
  { aliceGet with
    headers := [("x-request-id", String.ofList (List.replicate 65 'a'))] }

theorem long_request_id_is_lost :
    ¬ ∀ (app : App) (request : Request), Fits 20 app.generatedId →
      ∀ entry, Event.logged entry ∈ (app.serve request).events →
        RequestLog.Accepts entry ∧ ∀ rows createdAt,
          PostgresLogStore.write rows createdAt entry =
            rows ++ [{ entry with createdAt := createdAt }] := by
  intro hlogged
  have hrefused : ∃ entry ∈ loggedEntries (freshApp.serve longIdGet).events,
      ¬ RequestLog.Accepts entry := by decide +kernel
  obtain ⟨entry, hmem, hrefused⟩ := hrefused
  obtain ⟨event, hevent, hentry⟩ := List.mem_filterMap.mp hmem
  split at hentry
  · cases hentry
    exact hrefused (hlogged freshApp longIdGet (by decide) entry hevent).1
  · cases hentry

end RateLimitedGateway.Main
