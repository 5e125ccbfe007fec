import RateLimitedGateway.Http.Message
import RateLimitedGateway.Infra.CircuitBreaker

/-!
# The catch-all proxy route

`proxy` assembles a request for the upstream, makes it through the circuit
breaker, records for the health tracker whether the upstream succeeded, and
turns what happened into a reply.
-/

namespace RateLimitedGateway.Routes

open RateLimitedGateway.Core RateLimitedGateway.Http RateLimitedGateway.Infra

structure UpstreamRequest where
  method : String
  url : String
  headers : Headers
  content : List UInt8
  deriving DecidableEq, Repr

structure UpstreamResponse where
  statusCode : Nat
  headers : Headers
  content : List UInt8
  deriving DecidableEq, Repr

/-- The exceptions of `client.request`, sorted as the `except` clauses do. -/
inductive HttpxError where
  | timeoutException
  | requestError (text : String)
  | otherError (text : String)
  deriving DecidableEq, Repr

/--
What becomes of a request that has been sent.  An answer whose body does not
decode as its `Content-Encoding` says is a `DecodingError`, a `RequestError`.
-/
inductive Exchange where
  | answered (response : UpstreamResponse)
  | undecodable (text : String)
  | lost (exc : HttpxError)
  | abandoned
  deriving DecidableEq, Repr

/-- The error that `client.request` raises before it sends anything, if any. -/
abbrev Httpx := UpstreamRequest → Option HttpxError

def stripRequestHeaders : List String :=
  ["host", "authorization", "content-length"]

def hopByHop : List String :=
  ["connection", "keep-alive", "proxy-authenticate", "proxy-authorization",
    "te", "trailers", "transfer-encoding", "upgrade"]

def doUpstreamRequest (httpx : Httpx) (sent : UpstreamRequest)
    (exchange : Exchange) : Ending HttpxError UpstreamResponse :=
  match httpx sent with
  | some exc => .raised exc
  | none =>
      match exchange with
      | .answered response => .returned response
      | .undecodable text => .raised (.requestError text)
      | .lost exc => .raised exc
      | .abandoned => .cancelled

/-- `proxy` up to the call: the request for the upstream. -/
def upstreamRequest (upstreamBaseUrl path : String) (request : Request) :
    UpstreamRequest :=
  let upstream := rstripSlash upstreamBaseUrl ++ "/" ++ path
  let forwarded := Headers.ofItems
    (request.headers.filter fun field => lower field.1 ∉ stripRequestHeaders)
  { method := request.method
    url :=
      if request.url.query ≠ "" then upstream ++ "?" ++ request.url.query
      else upstream
    headers :=
      match request.client with
      | some host => forwarded.set "X-Forwarded-For" host
      | none => forwarded
    content := request.body }

def relay (response : UpstreamResponse) : Response :=
  { content := .bytes response.content
    statusCode := response.statusCode
    headers := Headers.ofItems
      (response.headers.filter fun field => lower field.1 ∉ hopByHop)
    mediaType := response.headers.get "content-type" }

structure Conclusion where
  recorded : Option Bool
  reply : Reply
  deriving DecidableEq, Repr

/-- `proxy` after the call. -/
def conclude : Except CircuitOpenError (Ending HttpxError UpstreamResponse) →
    Conclusion
  | .error _ =>
      ⟨some false, .raised (.gatewayError ⟨.upstreamError,
        "Upstream circuit open — service temporarily unavailable.", []⟩)⟩
  | .ok (.raised .timeoutException) =>
      ⟨some false, .raised (.gatewayError ⟨.upstreamTimeout,
        "Upstream backend timed out.", []⟩)⟩
  | .ok (.raised (.requestError text)) =>
      ⟨some false, .raised (.gatewayError ⟨.upstreamError,
        "Upstream backend error: " ++ text, []⟩)⟩
  | .ok (.raised (.otherError text)) => ⟨none, .raised (.otherException text)⟩
  | .ok .cancelled => ⟨none, .cancelled⟩
  | .ok (.returned response) =>
      let isServerError := decide (response.statusCode ≥ 500)
      ⟨some (!isServerError),
        if (relay response).encodes then .responded (relay response)
        else .raised (.otherException "UnicodeEncodeError")⟩

structure ProxyRoute where
  breaker : CircuitBreaker
  upstreamBaseUrl : String
  httpx : Httpx

structure Visit where
  path : String
  request : Request
  arrival : ℚ
  exchange : Exchange
  finish : ℚ
  deriving DecidableEq, Repr

namespace ProxyRoute

variable (proxy : ProxyRoute)

def sent (visit : Visit) : UpstreamRequest :=
  upstreamRequest proxy.upstreamBaseUrl visit.path visit.request

def ending (visit : Visit) : Ending HttpxError UpstreamResponse :=
  doUpstreamRequest proxy.httpx (proxy.sent visit) visit.exchange

def run (circuit : Circuit) (visit : Visit) : Conclusion × Circuit :=
  let called := proxy.breaker.call circuit visit.arrival (proxy.ending visit)
    visit.finish
  (conclude called.1, called.2)

end ProxyRoute

end RateLimitedGateway.Routes
