import RateLimitedGateway.Core.Config
import RateLimitedGateway.Core.Errors
import RateLimitedGateway.Foundation.Datetime

/-!
# Access tokens

`create_access_token` states in whole seconds when a token ends.
`decode_access_token` turns what the JWT library answers into the claims of
the token, or into one of the gateway's own errors.
-/

namespace RateLimitedGateway.Core

open RateLimitedGateway.Foundation

structure Payload where
  sub : Option String
  tier : Option String
  deriving DecidableEq, Repr

/-- `jwt.decode`; a `JWTError` is not the only thing it may raise. -/
inductive JwtResult where
  | decoded (payload : Payload)
  | expiredSignatureError
  | jwtError
  | otherError (text : String)
  deriving DecidableEq, Repr

/-- What `decode_access_token` raises: its own errors, or what it lets pass. -/
inductive DecodeError where
  | gatewayError (exc : GatewayError)
  | otherError (text : String)
  deriving DecidableEq, Repr

structure Claims where
  sub : String
  tier : String
  deriving DecidableEq, Repr

def decodeAccessToken (jwtDecode : String → JwtResult) (token : String) :
    Except DecodeError Claims :=
  match jwtDecode token with
  | .expiredSignatureError =>
      .error (.gatewayError ⟨.tokenExpiredError, "Token has expired.", []⟩)
  | .jwtError =>
      .error (.gatewayError ⟨.invalidTokenError, "Token is invalid.", []⟩)
  | .otherError text => .error (.otherError text)
  | .decoded ⟨some sub, some tier⟩ => .ok ⟨sub, tier⟩
  | .decoded _ =>
      .error (.gatewayError
        ⟨.invalidTokenError, "Token missing required claims.", []⟩)

/-! ## Minting -/

structure TokenPayload where
  sub : String
  tier : String
  iat : Int
  exp : Int
  deriving DecidableEq, Repr

structure Jose where
  encode : TokenPayload → (secret algorithm : String) → String
  decode : (now : Int) → (token secret : String) →
    (algorithms : List String) → JwtResult

/-- `expires_in or timedelta(minutes=…)`: a zero `timedelta` is falsy. -/
def expireDelta (settings : Settings) (expiresIn : Option Int) : Int :=
  let default := settings.jwtExpireMinutes * 60 * 10 ^ 6
  match expiresIn with
  | none => default
  | some delta => if delta = 0 then default else delta

/--
`create_access_token` at `now`; `none` is an `OverflowError`.  A default that no
`timedelta` can hold has no sum with `now` either.
-/
def createAccessToken (jose : Jose) (settings : Settings) (now : Datetime)
    (userId tier : String) (expiresIn : Option Int) : Option String :=
  (now.add (expireDelta settings expiresIn)).map fun expires =>
    jose.encode
      { sub := userId, tier := tier, iat := truncate now.timestamp,
        exp := truncate expires.timestamp }
      settings.jwtSecret settings.jwtAlgorithm

def Jose.decodeAt (jose : Jose) (settings : Settings) (time : ℚ)
    (token : String) : JwtResult :=
  jose.decode ⌊time⌋ token settings.jwtSecret [settings.jwtAlgorithm]

end RateLimitedGateway.Core
