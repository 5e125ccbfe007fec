import Mathlib.Data.List.DropRight
import RateLimitedGateway.Core.Errors

/-!
# Requests and responses

A request holds what Starlette presents of it.  The router matches the path of
the ASGI scope, while `request.url` is parsed from a URL that is assembled with
the `Host` header; nothing here assumes that the two paths agree, or that the
parser accepts the URL.
-/

namespace RateLimitedGateway.Http

open RateLimitedGateway.Core

/-- `str.lower`, where only ASCII letters matter. -/
def lower (name : String) : String :=
  String.ofList (name.toList.map Char.toLower)

def rstripSlash (text : String) : String :=
  String.ofList (text.toList.rdropWhile (· = '/'))

def startsWith (text pre : String) : Bool :=
  pre.toList.isPrefixOf text.toList

/-- Header fields, or the items of a `dict`, in order. -/
abbrev Headers := List (String × String)

namespace Headers

def set (headers : Headers) (name value : String) : Headers :=
  if headers.any (fun field => field.1 = name) then
    headers.map fun field => if field.1 = name then (name, value) else field
  else headers ++ [(name, value)]

def ofItems (items : Headers) : Headers :=
  items.foldl (fun headers field => headers.set field.1 field.2) []

/-- Assignment to response headers, which keeps one field of the name. -/
def put : Headers → String → String → Headers
  | [], name, value => [(lower name, value)]
  | field :: headers, name, value =>
      if lower field.1 = lower name then
        (field.1, value) ::
          headers.filter fun other => lower other.1 ≠ lower name
      else field :: put headers name value

def encodable (bound : Nat) (headers : Headers) : Bool :=
  headers.all fun field =>
    (field.1.toList ++ field.2.toList).all fun char => char.toNat < bound

def get (headers : Headers) (name : String) : Option String :=
  (headers.find? fun field => lower field.1 = lower name).map Prod.snd

end Headers

structure Url where
  path : String
  query : String
  deriving DecidableEq, Repr

structure Request where
  method : String
  scopePath : String
  /-- `request.url`; `none` is the `ValueError` of a malformed `Host`. -/
  url? : Option Url
  headers : Headers
  client : Option String
  body : List UInt8
  deriving DecidableEq, Repr

def Request.url (request : Request) : Url := request.url?.getD ⟨"", ""⟩

theorem Request.url_of_some {request : Request} {url : Url}
    (hurl : request.url? = some url) : request.url = url := by
  rw [Request.url, hurl, Option.getD_some]

/-- A body: raw bytes, an error object, `{"detail": …}`, or plain text. -/
inductive Content where
  | bytes (content : List UInt8)
  | error (body : ErrorBody)
  | detail (text : String)
  | text (content : String)
  deriving DecidableEq, Repr

structure Response where
  content : Content
  statusCode : Nat
  headers : Headers
  mediaType : Option String
  deriving DecidableEq, Repr

def Response.put (response : Response) (name value : String) : Response :=
  { response with headers := response.headers.put name value }

/-- Starlette encodes names and values as Latin-1, or the constructor raises. -/
def Response.encodes (response : Response) : Bool :=
  response.headers.encodable 256

def jsonResponse (statusCode : Nat) (content : Content) (headers : Headers) :
    Response :=
  { content := content, statusCode := statusCode, headers := headers,
    mediaType := some "application/json" }

inductive Raised where
  | gatewayError (exc : GatewayError)
  | httpException (statusCode : Nat) (detail : String) (headers : Headers)
  | validationError (errors : String)
  | otherException (text : String)
  deriving DecidableEq, Repr

inductive Reply where
  | responded (response : Response)
  | raised (exc : Raised)
  | cancelled
  deriving DecidableEq, Repr

end RateLimitedGateway.Http
