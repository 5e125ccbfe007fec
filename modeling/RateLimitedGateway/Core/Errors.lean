import Mathlib.Init

/-!
# Application errors

The classes of `errors.py` differ in their status and their code; an exception
adds a message and details.  `build_error_response` leaves out empty details
and an empty request id.
-/

namespace RateLimitedGateway.Core

inductive ErrorClass where
  | gatewayError
  | authError
  | tokenExpiredError
  | invalidTokenError
  | forbiddenError
  | rateLimitExceeded
  | upstreamError
  | upstreamTimeout
  | notFoundError
  deriving DecidableEq, Repr

namespace ErrorClass

def statusCode : ErrorClass → Nat
  | .gatewayError => 500
  | .authError => 401
  | .tokenExpiredError => 401
  | .invalidTokenError => 401
  | .forbiddenError => 403
  | .rateLimitExceeded => 429
  | .upstreamError => 502
  | .upstreamTimeout => 504
  | .notFoundError => 404

def code : ErrorClass → String
  | .gatewayError => "INTERNAL_ERROR"
  | .authError => "UNAUTHORIZED"
  | .tokenExpiredError => "TOKEN_EXPIRED"
  | .invalidTokenError => "INVALID_TOKEN"
  | .forbiddenError => "FORBIDDEN"
  | .rateLimitExceeded => "RATE_LIMITED"
  | .upstreamError => "UPSTREAM_ERROR"
  | .upstreamTimeout => "UPSTREAM_TIMEOUT"
  | .notFoundError => "NOT_FOUND"

end ErrorClass

/-- The one detail that the code ever passes is the integer `retry_after`. -/
structure GatewayError where
  errorClass : ErrorClass
  message : String
  details : List (String × Int)
  deriving DecidableEq, Repr

/-- The JSON object of an error; `none` is a key left out. -/
structure ErrorBody where
  code : String
  message : String
  details : Option (List (String × Int))
  requestId : Option String
  deriving DecidableEq, Repr

def buildErrorResponse (exc : GatewayError) (requestId : Option String) :
    ErrorBody :=
  { code := exc.errorClass.code
    message := exc.message
    details := if exc.details = [] then none else some exc.details
    requestId := requestId.filter (· ≠ "") }

end RateLimitedGateway.Core
