import Mathlib.Data.List.DropRight
import RateLimitedGateway.Core.TokenLifetime
import RateLimitedGateway.Middleware.Chain

/-!
# Handing out tokens

`POST /auth/token` mints a token for a user and a tier of the caller's choice,
and tells for how many seconds it is good.  The client is to send it back behind
`Bearer`, where the middleware takes it out of the header again.
-/

namespace RateLimitedGateway.Services

open RateLimitedGateway.Core RateLimitedGateway.Foundation
open RateLimitedGateway.Http RateLimitedGateway.Middleware

inductive Tier where
  | free
  | pro
  | enterprise
  deriving DecidableEq, Repr

def Tier.literal : Tier → String
  | .free => "free"
  | .pro => "pro"
  | .enterprise => "enterprise"

def Tier.limit (settings : Settings) : Tier → Int
  | .free => settings.rateLimitFree
  | .pro => settings.rateLimitPro
  | .enterprise => settings.rateLimitEnterprise

structure TokenRequest where
  userId : String
  minLength : 1 ≤ userId.length
  maxLength : userId.length ≤ 128
  tier : Tier := .free
  deriving DecidableEq, Repr

structure TokenResponse where
  accessToken : String
  tokenType : String := "bearer"
  expiresIn : Int
  deriving DecidableEq, Repr

/-- `issue_token`; `none` is the `OverflowError` of `create_access_token`. -/
def issueToken (jose : Jose) (settings : Settings) (now : Datetime)
    (userId tier : String) : Option (String × Int) :=
  (createAccessToken jose settings now userId tier none).map fun token =>
    (token, settings.jwtExpireMinutes * 60)

def mintToken (jose : Jose) (settings : Settings) (now : Datetime)
    (body : TokenRequest) : Option TokenResponse :=
  (issueToken jose settings now body.userId body.tier.literal).map
    fun (token, expiresIn) => { accessToken := token, expiresIn := expiresIn }

/-- A token is written in characters that a header value keeps at its ends. -/
structure IsCompact (jose : Jose) : Prop where
  isSpace_encode : ∀ payload secret algorithm,
    ∀ char ∈ (jose.encode payload secret algorithm).toList,
      isSpace char = false

/-! ## In the header and out again -/

theorem strip_of_not_isSpace {text : String}
    (htext : ∀ char ∈ text.toList, isSpace char = false) :
    strip text = text := by
  have hfront : text.toList.dropWhile isSpace = text.toList := by
    rw [List.dropWhile_eq_self_iff]
    intro hlength
    rw [htext _ (List.getElem_mem hlength)]
    exact Bool.false_ne_true
  have hback : text.toList.rdropWhile isSpace = text.toList := by
    rw [List.rdropWhile_eq_self_iff]
    intro hne
    rw [htext _ (List.getLast_mem hne)]
    exact Bool.false_ne_true
  rw [strip, hfront, hback, String.ofList_toList]

theorem startsWith_bearer (token : String) :
    startsWith ("Bearer " ++ token) "Bearer " = true := by
  rw [startsWith, List.isPrefixOf_iff_prefix, String.toList_append]
  exact List.prefix_append _ _

theorem drop_bearer (token : String) :
    String.ofList (("Bearer " ++ token).toList.drop 7) = token := by
  have hlength : "Bearer ".toList.length = 7 := by decide
  rw [String.toList_append, ← hlength, List.drop_left, String.ofList_toList]

/-! ## What is minted -/

variable {jose : Jose} {settings : Settings} {now : Datetime}
variable {body : TokenRequest} {response : TokenResponse}

theorem mintToken_eq_some (h : mintToken jose settings now body =
    some response) :
    response.expiresIn = settings.jwtExpireMinutes * 60 ∧
      createAccessToken jose settings now body.userId body.tier.literal none =
        some response.accessToken := by
  unfold mintToken issueToken at h
  cases hcreated : createAccessToken jose settings now body.userId
      body.tier.literal none with
  | none => simp [hcreated] at h
  | some token =>
      simp only [hcreated, Option.map_some, Option.some_inj] at h
      subst h
      exact ⟨rfl, rfl⟩

theorem strip_accessToken (hjose : IsCompact jose)
    (h : mintToken jose settings now body = some response) :
    strip response.accessToken = response.accessToken := by
  obtain ⟨-, hcreated⟩ := mintToken_eq_some h
  unfold createAccessToken at hcreated
  obtain ⟨expires, -, hencoded⟩ := Option.map_eq_some_iff.mp hcreated
  rw [← hencoded]
  exact strip_of_not_isSpace (hjose.isSpace_encode _ _ _)

theorem decode_minted
    (hjose : jose.RoundTrips settings.jwtSecret settings.jwtAlgorithm)
    (h : mintToken jose settings now body = some response)
    (hepoch : 0 ≤ now.micros + response.expiresIn * 10 ^ 6)
    (hrecent : now.micros + response.expiresIn * 10 ^ 6 < 2 ^ 34 * 10 ^ 6)
    (time : ℚ) :
    decodeAccessToken (jose.decodeAt settings time) response.accessToken =
      if ⌊time⌋ ≤ ⌊toSeconds now.micros⌋ + response.expiresIn then
        .ok ⟨body.userId, body.tier.literal⟩
      else
        .error (.gatewayError ⟨.tokenExpiredError, "Token has expired.", []⟩) :=
    by
  obtain ⟨hexpiresIn, hcreated⟩ := mintToken_eq_some h
  have hdelta : expireDelta settings none = response.expiresIn * 10 ^ 6 := by
    rw [hexpiresIn]
    rfl
  cases hadd : now.add (expireDelta settings none) with
  | none => simp [createAccessToken, hadd] at hcreated
  | some expires =>
      obtain ⟨token, htoken, hdecoded⟩ :=
        decode_created hjose hadd body.userId body.tier.literal time
      rw [hcreated, Option.some_inj] at htoken
      have hmicros : expires.micros =
          now.micros + response.expiresIn * 10 ^ 6 := by
        rw [Datetime.add_eq_some_iff.mp hadd, hdelta]
      have hend : truncate expires.timestamp =
          ⌊toSeconds now.micros⌋ + response.expiresIn := by
        have hseconds : toSeconds (response.expiresIn * 10 ^ 6) =
            response.expiresIn := by
          rw [toSeconds, Int.cast_mul, Int.cast_pow, Int.cast_ofNat,
            mul_div_cancel_right₀ _ (by norm_num)]
        rcases expires.truncate_timestamp with ⟨hfloor, -⟩ | ⟨-, hover⟩
        · rw [hfloor, hmicros, toSeconds_add, hseconds, Int.floor_add_intCast]
        · rw [hmicros] at hover
          exact absurd hover (not_overshoots_of_recent hepoch hrecent)
      rw [htoken, hdecoded, hend]

end RateLimitedGateway.Services
