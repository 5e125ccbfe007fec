import RateLimitedGateway.Core.Config
import RateLimitedGateway.Http.Message
import RateLimitedGateway.Routes.Table

/-!
# What comes before a handler

FastAPI reads the body that a route declares, runs the route's dependencies, and
then checks the parameters.  The admin router declares `require_admin` for all
of its routes, and minting a token declares it in production; no other route
has a dependency that can refuse a request.
-/

namespace RateLimitedGateway.Dependencies

open RateLimitedGateway.Core RateLimitedGateway.Http RateLimitedGateway.Routes

def requireAdmin (settings : Settings) (request : Request) :
    Except Raised Unit :=
  let xAdminKey := (request.headers.get "X-Admin-Key").getD ""
  if xAdminKey = "" ∨ xAdminKey ≠ settings.adminApiKey then
    .error (.httpException 401 "Invalid or missing admin key."
      [("WWW-Authenticate", "X-Admin-Key")])
  else .ok ()

def adminAuth (settings : Settings) : Endpoint → Bool
  | .upsertQuota => true
  | .getQuota => true
  | .deleteQuota => true
  | .listLogs => true
  | .getStats => true
  | .upstreamHealth => true
  | .mintToken => settings.appEnv = "production"
  | _ => false

def declaresBody : Endpoint → Bool
  | .mintToken => true
  | .upsertQuota => true
  | _ => false

def declaresInput : Endpoint → Bool
  | .mintToken => true
  | .upsertQuota => true
  | .listLogs => true
  | _ => false

inductive BodyReading where
  | read
  | malformed (errors : String)
  | unreadable
  deriving DecidableEq, Repr

def BodyReading.result : BodyReading → Except Raised Unit
  | .read => .ok ()
  | .malformed errors => .error (.validationError errors)
  | .unreadable =>
      .error (.httpException 400 "There was an error parsing the body" [])

def validated : Option String → Except Raised Unit
  | none => .ok ()
  | some errors => .error (.validationError errors)

def checkIf (declared : Bool) (result : Except Raised Unit) :
    Except Raised Unit :=
  if declared then result else .ok ()

def solveDependencies (settings : Settings) (endpoint : Endpoint)
    (body : BodyReading) (errors : Option String) (request : Request) :
    Except Raised Unit := do
  checkIf (declaresBody endpoint) body.result
  checkIf (adminAuth settings endpoint) (requireAdmin settings request)
  checkIf (declaresInput endpoint) (validated errors)

/-! ## What passes -/

theorem bind_eq_ok_iff {first : Except Raised Unit}
    {next : Unit → Except Raised Unit} :
    (first >>= next) = .ok () ↔ first = .ok () ∧ next () = .ok () := by
  cases first <;> simp [bind, Except.bind]

theorem checkIf_eq_ok_iff {declared : Bool} {result : Except Raised Unit} :
    checkIf declared result = .ok () ↔ (declared = true → result = .ok ()) := by
  cases declared <;> simp [checkIf]

theorem BodyReading.result_eq_ok_iff (body : BodyReading) :
    body.result = .ok () ↔ body = .read := by
  cases body <;> simp [BodyReading.result]

theorem validated_eq_ok_iff (errors : Option String) :
    validated errors = .ok () ↔ errors = none := by
  cases errors <;> simp [validated]

theorem requireAdmin_eq_ok_iff (settings : Settings) (request : Request) :
    requireAdmin settings request = .ok () ↔
      request.headers.get "X-Admin-Key" = some settings.adminApiKey := by
  unfold requireAdmin
  cases hkey : request.headers.get "X-Admin-Key" with
  | none => simp
  | some key =>
      have hne := settings.adminApiKey_ne_empty
      simp only [Option.getD_some, Option.some_inj]
      split
      · next hrefused =>
          simp only [reduceCtorEq, false_iff]
          rintro rfl
          simp [hne] at hrefused
      · next haccepted =>
          simp only [true_iff]
          by_contra hother
          exact haccepted (.inr hother)

theorem solveDependencies_proxy (settings : Settings) (body : BodyReading)
    (errors : Option String) (request : Request) :
    solveDependencies settings .proxy body errors request = .ok () :=
  rfl

theorem solveDependencies_eq_ok_iff {settings : Settings} {endpoint : Endpoint}
    {body : BodyReading} {errors : Option String} {request : Request} :
    solveDependencies settings endpoint body errors request = .ok () ↔
      (declaresBody endpoint = true → body = .read) ∧
        (adminAuth settings endpoint = true →
          request.headers.get "X-Admin-Key" = some settings.adminApiKey) ∧
        (declaresInput endpoint = true → errors = none) := by
  simp only [solveDependencies, bind_eq_ok_iff, checkIf_eq_ok_iff,
    BodyReading.result_eq_ok_iff, requireAdmin_eq_ok_iff, validated_eq_ok_iff]

/-! ## What is raised -/

theorem bind_eq_error_iff {first : Except Raised Unit}
    {next : Unit → Except Raised Unit} {exc : Raised} :
    (first >>= next) = .error exc ↔
      first = .error exc ∨ first = .ok () ∧ next () = .error exc := by
  cases first <;> simp [bind, Except.bind]

theorem checkIf_eq_error_iff {declared : Bool} {result : Except Raised Unit}
    {exc : Raised} :
    checkIf declared result = .error exc ↔
      declared = true ∧ result = .error exc := by
  cases declared <;> simp [checkIf]

theorem solveDependencies_ne_gatewayError (settings : Settings)
    (endpoint : Endpoint) (body : BodyReading) (errors : Option String)
    (request : Request) (exc : GatewayError) :
    solveDependencies settings endpoint body errors request ≠
      .error (.gatewayError exc) := by
  intro h
  simp only [solveDependencies, bind_eq_error_iff, checkIf_eq_error_iff] at h
  rcases h with ⟨-, hbody⟩ | ⟨-, ⟨-, hadmin⟩ | ⟨-, -, hinput⟩⟩
  · cases body <;> cases hbody
  · simp only [requireAdmin] at hadmin
    split at hadmin <;> cases hadmin
  · cases errors <;> cases hinput

end RateLimitedGateway.Dependencies
