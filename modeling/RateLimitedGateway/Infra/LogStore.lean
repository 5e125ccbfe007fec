import Mathlib.Algebra.BigOperators.Group.List.Basic
import Mathlib.Algebra.Order.Ring.Rat
import RateLimitedGateway.Infra.Columns

/-!
# The log store

One row per logged request.  The columns bound the length of what a client can
send, and `write` swallows the refusal of a row that does not fit.
-/

namespace RateLimitedGateway.Infra

structure LogEntry where
  requestId : String
  userId : String
  endpoint : String
  method : String
  statusCode : Nat
  latencyMs : Int
  rateLimited : Bool
  ip : Option String
  deriving DecidableEq, Repr

structure RequestLog extends LogEntry where
  createdAt : ℚ
  deriving DecidableEq, Repr

namespace RequestLog

/-- The columns hold the texts as they are; only `ip` may be null. -/
def Accepts (entry : LogEntry) : Prop :=
  Fits 64 entry.requestId ∧ Fits 128 entry.userId ∧ Fits 512 entry.endpoint ∧
    Fits 16 entry.method ∧ ∀ ip ∈ entry.ip, Fits 64 ip

instance (entry : LogEntry) : Decidable (Accepts entry) :=
  inferInstanceAs (Decidable (_ ∧ _ ∧ _ ∧ _ ∧ _))

/-- What the columns hold of an entry; `none` is a refused insert. -/
def stored (entry : LogEntry) : Option LogEntry := do
  let requestId ← varchar 64 entry.requestId
  let userId ← varchar 128 entry.userId
  let endpoint ← varchar 512 entry.endpoint
  let method ← varchar 16 entry.method
  let ip ← nullable (varchar 64) entry.ip
  pure { entry with
    requestId := requestId, userId := userId, endpoint := endpoint,
    method := method, ip := ip }

theorem stored_eq_self_iff (entry : LogEntry) :
    stored entry = some entry ↔ Accepts entry := by
  have hip : nullable (varchar 64) entry.ip = some entry.ip ↔
      ∀ ip ∈ entry.ip, Fits 64 ip := by
    cases entry.ip with
    | none => simp [nullable]
    | some ip => simp [nullable, varchar_eq_self_iff]
  rw [Accepts, ← hip]
  simp only [← varchar_eq_self_iff, stored, bind, pure,
    Option.bind_eq_some_iff, Option.some_inj]
  constructor
  · rintro ⟨requestId, hrequestId, userId, huserId, endpoint, hendpoint, method,
      hmethod, ip, hkept, hentry⟩
    rw [← hentry] at hrequestId huserId hendpoint hmethod hkept ⊢
    exact ⟨hrequestId, huserId, hendpoint, hmethod, hkept⟩
  · rintro ⟨hrequestId, huserId, hendpoint, hmethod, hkept⟩
    exact ⟨_, hrequestId, _, huserId, _, hendpoint, _, hmethod, _, hkept, rfl⟩

theorem userId_of_stored {entry kept : LogEntry}
    (hkept : stored entry = some kept) :
    varchar 128 entry.userId = some kept.userId ∧
      kept.rateLimited = entry.rateLimited := by
  simp only [stored, bind, pure, Option.bind_eq_some_iff, Option.some_inj]
    at hkept
  obtain ⟨_, -, userId, huserId, _, -, _, -, _, -, rfl⟩ := hkept
  exact ⟨huserId, rfl⟩

end RequestLog

namespace PostgresLogStore

def write (rows : List RequestLog) (createdAt : ℚ) (entry : LogEntry) :
    List RequestLog :=
  match RequestLog.stored entry with
  | none => rows
  | some kept => rows ++ [{ kept with createdAt := createdAt }]

theorem write_eq_append (rows : List RequestLog) (createdAt : ℚ)
    (entry : LogEntry) :
    write rows createdAt entry = rows ++ write [] createdAt entry := by
  unfold write
  cases RequestLog.stored entry <;> simp

theorem write_eq_iff (rows : List RequestLog) (createdAt : ℚ)
    (entry : LogEntry) :
    write rows createdAt entry =
        rows ++ [{ entry with createdAt := createdAt }] ↔
      RequestLog.Accepts entry := by
  rw [← RequestLog.stored_eq_self_iff]
  unfold write
  cases RequestLog.stored entry with
  | none => simp
  | some kept => simp

/-! ## Statistics -/

structure StatsFilter where
  periodStart : ℚ
  userId : Option String
  deriving DecidableEq, Repr

def StatsFilter.admits (filter : StatsFilter) (row : RequestLog) : Bool :=
  filter.periodStart ≤ row.createdAt ∧ ∀ user ∈ filter.userId, row.userId = user

def averageLatency (rows : List RequestLog) : ℚ :=
  if rows = [] then 0
  else (rows.map fun row => row.latencyMs).sum / rows.length

structure LogStats where
  totalRequests : ℕ
  totalRateLimited : ℕ
  avgLatencyMs : ℚ
  periodStart : ℚ
  periodEnd : ℚ
  deriving DecidableEq, Repr

end PostgresLogStore

end RateLimitedGateway.Infra
