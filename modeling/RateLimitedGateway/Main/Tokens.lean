import RateLimitedGateway.Main.ResponseHeaders
import RateLimitedGateway.Services.AuthService

/-!
# What a token is good for

Until the second that its response names, a minted token stands for the user
and the tier of the body it was minted for: the limiter and the log know the
request by them.  From then on the request is refused before it is counted.
-/

namespace RateLimitedGateway.Main

open RateLimitedGateway.Core RateLimitedGateway.Foundation
open RateLimitedGateway.Http RateLimitedGateway.Infra
open RateLimitedGateway.Middleware RateLimitedGateway.Routes
open RateLimitedGateway.Services

theorem tierDefault_literal (settings : Settings) (tier : Tier) :
    tierDefault settings tier.literal = tier.limit settings := by
  cases tier <;> rfl

namespace App

variable (app : App) (request : Request)

structure Bears (token : String) : Prop where
  url?_ne : request.url? ≠ none
  isPublic_eq : isPublic authPublicPrefixes request.url.path = false
  authorization_eq :
    request.headers.get "Authorization" = some ("Bearer " ++ token)

variable {request} {token : String}

theorem acceptedClaims_of_bears (hbears : Bears request token)
    (hstrip : strip token = token) :
    app.acceptedClaims request =
      (decodeAccessToken app.jwtDecode token).toOption := by
  obtain ⟨url, hurl⟩ := Option.ne_none_iff_exists'.mp hbears.url?_ne
  have hprivate := hbears.isPublic_eq
  rw [Request.url_of_some hurl] at hprivate
  simp only [acceptedClaims, hurl, hprivate, hbears.authorization_eq,
    Option.getD_some, Bool.false_eq_true, if_false, startsWith_bearer, if_true,
    drop_bearer, hstrip]

theorem authenticated_of_bears (hbears : Bears request token)
    (hstrip : strip token = token) {exc : GatewayError}
    (hdecode : decodeAccessToken app.jwtDecode token =
      .error (.gatewayError exc))
    (state : RequestState) :
    app.authenticated request state =
      ⟨.responded (authFailureResponse state exc), state, []⟩ := by
  obtain ⟨url, hurl⟩ := Option.ne_none_iff_exists'.mp hbears.url?_ne
  have hprivate := hbears.isPublic_eq
  rw [Request.url_of_some hurl] at hprivate
  simp only [authenticated, authDispatch, hurl, hprivate,
    hbears.authorization_eq, Option.getD_some, Bool.false_eq_true, if_false,
    startsWith_bearer, if_true, drop_bearer, hstrip, hdecode]

/-! ## An accepted request -/

variable (request)

theorem logged_of_readable (hpasses : app.Passes request)
    (hurl : request.url? ≠ none) :
    ∃ entry, loggedEntries (app.serve request).events = [entry] ∧
      app.Describes request entry := by
  obtain ⟨events, entry, hevents, hunlogged, -, hdescribes⟩ :=
    app.recorded_events_eq request hurl
  refine ⟨entry, ?_, hdescribes⟩
  rw [app.serve_events request, if_pos hpasses, hevents]
  exact loggedEntries_append_logged hunlogged entry

theorem limit_of_limitCheck {claims : Claims} {result : LimitResult}
    {redis : Redis} (hcheck : app.limitCheck claims = .ok (result, redis)) :
    ∃ row, app.stores.selectOverride claims.sub = .ok row ∧
      result.limit = effectiveLimit
        ((lookupOverride row app.stores.utcNow).getD
          (tierDefault app.settings claims.tier))
        (getHealthFactor app.healthCounts) := by
  obtain ⟨row, hrow, -, hchecked⟩ := checkRateLimit_eq_ok_iff.mp hcheck
  refine ⟨row, hrow, ?_⟩
  have hlimit : result.limit = effectiveLimit
      (resolveLimit app.settings row app.stores.utcNow claims.tier)
      (getHealthFactor app.healthCounts) := by
    have hresult := congrArg (fun checked => checked.1.limit) hchecked
    rw [← hresult]
    cases app.stores.delivery <;> rfl
  rw [hlimit, resolveLimit]
  cases lookupOverride row app.stores.utcNow <;> rfl

theorem checked_of_accepted {claims : Claims} (hpasses : app.Passes request)
    (haccepted : app.acceptedClaims request = some claims)
    (hlookup : app.LookupFits claims) :
    ∃ result, Event.checked claims.sub result ∈
      (app.serve request).events := by
  obtain ⟨row, hrow, hholds⟩ := hlookup
  obtain ⟨⟨result, redis⟩, hcheck⟩ : ∃ checked,
      checkRateLimit app.settings app.stores claims.sub claims.tier
        (getHealthFactor app.healthCounts) = .ok checked :=
    ⟨_, checkRateLimit_eq_ok_iff.mpr ⟨row, hrow, hholds, rfl⟩⟩
  have hprivate := (isPublic_rateLimit request.url.path).trans
    (app.isPublic_eq_false_of_accepted request haccepted)
  obtain ⟨token, hserved⟩ := app.authenticated_eq request haccepted
    (app.begun request)
  refine ⟨result, (app.checked_mem_serve_iff request).mpr ⟨hpasses, ?_⟩⟩
  rw [hserved]
  apply List.mem_cons_of_mem
  simp only [limited, rateLimitDispatch,
    app.url?_of_accepted request haccepted, hprivate, RequestState.attachUser,
    Bool.false_eq_true, if_false, hcheck]
  cases result.allowed <;> simp

theorem claims_of_checked {user : String} {result : LimitResult}
    (hmem : Event.checked user result ∈ (app.serve request).events) :
    ∃ claims, app.acceptedClaims request = some claims ∧ user = claims.sub ∧
      ∃ row, app.stores.selectOverride claims.sub = .ok row ∧
        result.limit = effectiveLimit
          ((lookupOverride row app.stores.utcNow).getD
            (tierDefault app.settings claims.tier))
          (getHealthFactor app.healthCounts) := by
  obtain ⟨claims, hclaims, huser, ⟨redis, hcheck⟩, -⟩ :=
    app.checked_of_authenticated request
      ((app.checked_mem_serve_iff request).mp hmem).2
  exact ⟨claims, hclaims, huser, app.limit_of_limitCheck hcheck⟩

/-! ## A refused one -/

theorem refused_of_bears (hbears : Bears request token)
    (hstrip : strip token = token) {exc : GatewayError}
    (hdecode : decodeAccessToken app.jwtDecode token =
      .error (.gatewayError exc))
    (hpasses : app.Passes request)
    (hcors : KeepsContent (app.corsHeaders request)) :
    replyStatus (app.recorded request {}).reply = exc.errorClass.statusCode ∧
      ∃ response, (app.serve request).reply = .responded response ∧
        response.content = .error (buildErrorResponse exc
          (some (app.effectiveRequestId request))) := by
  have hserved := app.authenticated_of_bears hbears hstrip hdecode
    (app.begun request)
  constructor
  · rw [app.recorded_reply request, hserved]
    rfl
  · obtain ⟨f, hkeeps, hreply⟩ :=
      app.serve_reply_keepsContent request hpasses hcors
    rw [hserved] at hreply
    exact ⟨_, hreply, hkeeps.content_eq _⟩

/-! ## From the mint to the log -/

/--
Whoever sends a minted token back is the user of the body, until the second in
which `expires_in` is over: the log has that name, and where the lookup finds a
limit the request is checked, as this user's and under the limit of its override
or of the token's tier.  From then on the reply is `TOKEN_EXPIRED`, and nobody
is checked.
-/
theorem minted_token_stands_for {jose : Jose} {now : Datetime}
    {body : TokenRequest} {minted : TokenResponse} {time : ℚ}
    (hjose : jose.RoundTrips app.settings.jwtSecret app.settings.jwtAlgorithm)
    (hcompact : IsCompact jose)
    (hminted : mintToken jose app.settings now body = some minted)
    (hepoch : 0 ≤ now.micros + minted.expiresIn * 10 ^ 6)
    (hrecent : now.micros + minted.expiresIn * 10 ^ 6 < 2 ^ 34 * 10 ^ 6)
    (hdecode : app.jwtDecode = jose.decodeAt app.settings time)
    (hbears : Bears request minted.accessToken)
    (hpasses : app.Passes request)
    (hcors : KeepsContent (app.corsHeaders request)) :
    ∃ entry, loggedEntries (app.serve request).events = [entry] ∧
      if ⌊time⌋ ≤ ⌊toSeconds now.micros⌋ + minted.expiresIn then
        entry.userId = body.userId ∧
          (nulFree body.userId = true → Infra.Fits 128 entry.userId) ∧
          (app.LookupFits ⟨body.userId, body.tier.literal⟩ →
            ∃ result, Event.checked body.userId result ∈
              (app.serve request).events) ∧
          ∀ user result,
            Event.checked user result ∈ (app.serve request).events →
              user = body.userId ∧
                ∃ row, app.stores.selectOverride body.userId = .ok row ∧
                  result.limit = effectiveLimit
                    ((lookupOverride row app.stores.utcNow).getD
                      (body.tier.limit app.settings))
                    (getHealthFactor app.healthCounts)
      else
        entry.userId = "anonymous" ∧ entry.statusCode = 401 ∧
          (∀ user result,
            Event.checked user result ∉ (app.serve request).events) ∧
          ∃ response, (app.serve request).reply = .responded response ∧
            response.content = .error (buildErrorResponse
              ⟨.tokenExpiredError, "Token has expired.", []⟩
              (some (app.effectiveRequestId request))) := by
  have hstrip := strip_accessToken hcompact hminted
  have haccepted := app.acceptedClaims_of_bears hbears hstrip
  have hdecoded := decode_minted hjose hminted hepoch hrecent time
  rw [← hdecode] at hdecoded
  obtain ⟨entry, hlogged, hdescribes⟩ :=
    app.logged_of_readable request hpasses hbears.url?_ne
  refine ⟨entry, hlogged, ?_⟩
  split
  · next hlive =>
      rw [hdecoded, if_pos hlive, Except.toOption] at haccepted
      have huser : entry.userId = body.userId := by
        rw [hdescribes.userId_eq, haccepted]
        rfl
      refine ⟨huser, ?_, ?_, ?_⟩
      · intro hfree
        rw [huser]
        exact ⟨body.maxLength, hfree⟩
      · exact app.checked_of_accepted request hpasses haccepted
      · intro user result hmem
        obtain ⟨claims, hclaims, rfl, hlimit⟩ :=
          app.claims_of_checked request hmem
        rw [haccepted, Option.some_inj] at hclaims
        subst hclaims
        rw [tierDefault_literal] at hlimit
        exact ⟨rfl, hlimit⟩
  · next hover =>
      rw [if_neg hover] at hdecoded
      rw [hdecoded, Except.toOption] at haccepted
      obtain ⟨hstatus, hreply⟩ := app.refused_of_bears request hbears hstrip
        hdecoded hpasses hcors
      refine ⟨?_, hdescribes.statusCode_eq.trans hstatus, ?_, hreply⟩
      · rw [hdescribes.userId_eq, haccepted]
        rfl
      · intro user result hmem
        obtain ⟨claims, hclaims, -⟩ := app.claims_of_checked request hmem
        rw [haccepted] at hclaims
        cases hclaims

end App

/-! ## An hour with a token -/

theorem isSpace_of_isDigit {char : Char} (hdigit : char.isDigit = true) :
    isSpace char = false := by
  obtain ⟨hzero, hnine⟩ : 48 ≤ char.toNat ∧ char.toNat ≤ 57 :=
    Char.isDigit_iff_toNat.mp hdigit
  rw [isSpace, decide_eq_false_iff_not]
  simp only [List.mem_cons, List.not_mem_nil, or_false]
  omega

theorem numberJose_isCompact : IsCompact numberJose where
  isSpace_encode payload secret algorithm char hchar := by
    rw [numberJose, Nat.toList_repr] at hchar
    exact isSpace_of_isDigit
      (Nat.isDigit_of_mem_toDigits (by decide) (by decide) hchar)

def alicePro : TokenRequest :=
  { userId := "alice", minLength := Nat.le_of_ble_eq_true rfl,
    maxLength := Nat.le_of_ble_eq_true rfl, tier := .pro }

def aliceToken : String :=
  numberJose.encode ⟨"alice", "pro", 1704067200, 1704070800⟩
    devSettings.jwtSecret devSettings.jwtAlgorithm

def devApp (time : ℚ) : App :=
  { freshApp with
    settings := devSettings
    jwtDecode := numberJose.decodeAt devSettings time }

def aliceReturns : Request :=
  { aliceGet with headers := [("authorization", "Bearer " ++ aliceToken)] }

theorem mintToken_alicePro : mintToken numberJose devSettings newYear alicePro =
    some { accessToken := aliceToken, expiresIn := 3600 } := by
  have hissued : truncate newYear.timestamp = 1704067200 := by decide +kernel
  have hexpires : newYear.add (expireDelta devSettings none) =
      some ⟨1704070800250000, by decide⟩ := by
    decide +kernel
  have hend : truncate (Datetime.timestamp ⟨1704070800250000, by decide⟩) =
      1704070800 := by
    decide +kernel
  rw [mintToken, issueToken, createAccessToken, hexpires]
  simp only [Option.map_some, hissued, hend]
  rfl

theorem aliceReturns_bears : App.Bears aliceReturns aliceToken where
  url?_ne := by decide
  isPublic_eq := by decide +kernel
  authorization_eq := by
    have hname : lower "authorization" = lower "Authorization" := by
      decide +kernel
    simp [aliceReturns, Headers.get, hname]

theorem minted_token_stands_for_alice :
    (∃ result, Event.checked "alice" result ∈
      ((devApp 1704070800).serve aliceReturns).events) ∧
    ∃ entry,
      loggedEntries ((devApp 1704070801).serve aliceReturns).events = [entry] ∧
        entry.userId = "anonymous" ∧ entry.statusCode = 401 := by
  have hsecond : ⌊toSeconds newYear.micros⌋ = 1704067200 := by decide +kernel
  have hlookup : (devApp 1704070800).LookupFits ⟨"alice", "pro"⟩ :=
    ⟨none, rfl, by decide +kernel⟩
  constructor
  · obtain ⟨entry, -, hentry⟩ :=
      (devApp 1704070800).minted_token_stands_for aliceReturns
        (numberJose_roundTrips _ _) numberJose_isCompact mintToken_alicePro
        (by decide) (by decide) rfl aliceReturns_bears (by decide)
        keepsContent_id
    rw [hsecond, if_pos (by norm_num)] at hentry
    exact hentry.2.2.1 hlookup
  · obtain ⟨entry, hlogged, hentry⟩ :=
      (devApp 1704070801).minted_token_stands_for aliceReturns
        (numberJose_roundTrips _ _) numberJose_isCompact mintToken_alicePro
        (by decide) (by decide) rfl aliceReturns_bears (by decide)
        keepsContent_id
    rw [hsecond, if_neg (by norm_num)] at hentry
    exact ⟨entry, hlogged, hentry.1, hentry.2.1⟩

end RateLimitedGateway.Main
