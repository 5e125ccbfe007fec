import Mathlib.Algebra.Order.Ring.Rat
import RateLimitedGateway.Infra.Columns

/-!
# Quota overrides

The admin routes that write a user's override.  A `PUT` selects the row, decides
between an insert and an update, commits, and reads the row again for its
answer; SQLAlchemy turns an object that it has loaded into an update of the
columns that were given another value.  The user's id comes from the path, and
the schema bounds the length of a reason only.
-/

namespace RateLimitedGateway.Routes

open RateLimitedGateway.Infra

structure UserQuotaOverride where
  customLimit : Int
  reason : Option String
  createdAt : ℚ
  expiresAt : Option ℚ
  deriving DecidableEq, Repr

structure QuotaOverrideCreate where
  customLimit : Int
  reason : Option String
  expiresAt : Option ℚ
  customLimit_pos : 0 < customLimit
  customLimit_le : customLimit ≤ 1000000
  reason_length_le : ∀ text ∈ reason, text.length ≤ 512

/-- A `DBAPIError` is a value that driver or database do not take. -/
inductive DbError where
  | integrityError
  | staleDataError
  | invalidRequestError
  | dbApiError
  deriving DecidableEq, Repr

/-- The driver takes an `expires_at` that is in the years 1 to 9999 in UTC. -/
def isInYears (expiresAt : ℚ) : Bool :=
  -62135596800 ≤ expiresAt ∧ expiresAt < 253402300800

/-- What the columns take; those of a row that is there have taken theirs. -/
def Storable (userId : String) (body : QuotaOverrideCreate) : Prop :=
  Fits 128 userId ∧ (∀ text ∈ body.reason, nulFree text = true) ∧
    ∀ expiresAt ∈ body.expiresAt, isInYears expiresAt = true

instance (userId : String) (body : QuotaOverrideCreate) :
    Decidable (Storable userId body) :=
  inferInstanceAs (Decidable (_ ∧ _ ∧ _))

namespace UserQuotaOverride

def Carries (row : UserQuotaOverride) (body : QuotaOverrideCreate) : Prop :=
  row.customLimit = body.customLimit ∧ row.reason = body.reason ∧
    row.expiresAt = body.expiresAt

instance (row : UserQuotaOverride) (body : QuotaOverrideCreate) :
    Decidable (row.Carries body) := inferInstanceAs (Decidable (_ ∧ _))

def create (body : QuotaOverrideCreate) (createdAt : ℚ) : UserQuotaOverride :=
  { customLimit := body.customLimit, reason := body.reason,
    createdAt := createdAt, expiresAt := body.expiresAt }

/-- An `UPDATE` sets the columns whose loaded value the body changes. -/
def update (row loaded : UserQuotaOverride) (body : QuotaOverrideCreate) :
    UserQuotaOverride :=
  { row with
    customLimit :=
      if body.customLimit = loaded.customLimit then row.customLimit
      else body.customLimit
    reason := if body.reason = loaded.reason then row.reason else body.reason
    expiresAt :=
      if body.expiresAt = loaded.expiresAt then row.expiresAt
      else body.expiresAt }

end UserQuotaOverride

def selectQuota (userId : String) (row : Option UserQuotaOverride) :
    Except DbError (Option UserQuotaOverride) :=
  if nulFree userId then .ok row else .error .dbApiError

/-- The id under which an `INSERT` puts a row. -/
def insertedId (userId : String) : String := (varchar 128 userId).getD userId

theorem selectQuota_eq_ok_iff {userId : String}
    {row found : Option UserQuotaOverride} :
    selectQuota userId row = .ok found ↔
      nulFree userId = true ∧ found = row := by
  unfold selectQuota
  cases nulFree userId <;> simp [eq_comm]

/--
`await db.commit()` of `upsert_quota`, whose `SELECT` found `existing`.  An id
that is too long by spaces never has a row of its own: what is committed is the
row of `insertedId`, and the refresh fails.
-/
def commitUpsert (userId : String) (existing : Option UserQuotaOverride)
    (body : QuotaOverrideCreate) (createdAt : ℚ)
    (row : Option UserQuotaOverride) :
    Except DbError (Option UserQuotaOverride) :=
  if Storable userId body then
    match existing with
    | none =>
        match row with
        | none => .ok (some (.create body createdAt))
        | some _ => .error .integrityError
    | some loaded =>
        if loaded.Carries body then .ok row
        else
          match row with
          | none => .error .staleDataError
          | some row => .ok (some (row.update loaded body))
  else .error .dbApiError

def refresh (row : Option UserQuotaOverride) :
    Except DbError UserQuotaOverride :=
  match row with
  | none => .error .invalidRequestError
  | some row => .ok row

/-- `upsert_quota`, when no other request comes between its steps. -/
def upsertQuota (userId : String) (body : QuotaOverrideCreate) (createdAt : ℚ)
    (row : Option UserQuotaOverride) :
    Except DbError UserQuotaOverride × Option UserQuotaOverride :=
  match selectQuota userId row with
  | .error exc => (.error exc, row)
  | .ok existing =>
      match commitUpsert userId existing body createdAt row with
      | .error exc => (.error exc, row)
      | .ok after => (refresh after, after)

def deleteQuota (userId : String) (_row : Option UserQuotaOverride) :
    Except DbError (Option UserQuotaOverride) :=
  if nulFree userId then .ok none else .error .dbApiError

theorem deleteQuota_eq_ok_iff {userId : String}
    {row left : Option UserQuotaOverride} :
    deleteQuota userId row = .ok left ↔
      nulFree userId = true ∧ left = none := by
  unfold deleteQuota
  cases nulFree userId <;> simp [eq_comm]

inductive QuotaRequest where
  | put (body : QuotaOverrideCreate) (createdAt : ℚ)
  | delete

def QuotaRequest.rowAfter (request : QuotaRequest) (userId : String)
    (row : Option UserQuotaOverride) : Option UserQuotaOverride :=
  match request with
  | .put body createdAt => (upsertQuota userId body createdAt row).2
  | .delete =>
      match deleteQuota userId row with
      | .ok after => after
      | .error _ => row

def QuotaRequest.Commits (request : QuotaRequest) (userId : String) : Prop :=
  match request with
  | .put body _ => Storable userId body
  | .delete => nulFree userId = true

instance (userId : String) : (request : QuotaRequest) →
    Decidable (request.Commits userId)
  | .put body _ => inferInstanceAs (Decidable (Storable userId body))
  | .delete => inferInstanceAs (Decidable (nulFree userId = true))

/-! ## A request that runs alone -/

def upserted (body : QuotaOverrideCreate) (createdAt : ℚ)
    (row : Option UserQuotaOverride) : UserQuotaOverride :=
  { UserQuotaOverride.create body createdAt with
    createdAt := (row.map UserQuotaOverride.createdAt).getD createdAt }

theorem upserted_carries (body : QuotaOverrideCreate) (createdAt : ℚ)
    (row : Option UserQuotaOverride) :
    (upserted body createdAt row).Carries body :=
  ⟨rfl, rfl, rfl⟩

/-- The update leaves out columns that have the body's value all the same. -/
def UpdatesWhole (loaded : UserQuotaOverride) (body : QuotaOverrideCreate)
    (row : UserQuotaOverride) : Prop :=
  (body.customLimit = loaded.customLimit →
      row.customLimit = body.customLimit) ∧
    (body.reason = loaded.reason → row.reason = body.reason) ∧
    (body.expiresAt = loaded.expiresAt → row.expiresAt = body.expiresAt)

instance (loaded : UserQuotaOverride) (body : QuotaOverrideCreate)
    (row : UserQuotaOverride) : Decidable (UpdatesWhole loaded body row) :=
  inferInstanceAs (Decidable (_ ∧ _ ∧ _))

def FindsAsSelected (existing : Option UserQuotaOverride)
    (body : QuotaOverrideCreate) (row : Option UserQuotaOverride) : Prop :=
  match existing, row with
  | none, none => True
  | some loaded, some row => UpdatesWhole loaded body row
  | _, _ => False

instance : (existing : Option UserQuotaOverride) →
    (body : QuotaOverrideCreate) → (row : Option UserQuotaOverride) →
    Decidable (FindsAsSelected existing body row)
  | none, _, none => inferInstanceAs (Decidable True)
  | none, _, some _ => inferInstanceAs (Decidable False)
  | some _, _, none => inferInstanceAs (Decidable False)
  | some loaded, body, some row =>
      inferInstanceAs (Decidable (UpdatesWhole loaded body row))

def CommitsWhole (userId : String) (existing : Option UserQuotaOverride)
    (body : QuotaOverrideCreate) (row : Option UserQuotaOverride) : Prop :=
  Storable userId body ∧ FindsAsSelected existing body row

instance (userId : String) (existing : Option UserQuotaOverride)
    (body : QuotaOverrideCreate) (row : Option UserQuotaOverride) :
    Decidable (CommitsWhole userId existing body row) :=
  inferInstanceAs (Decidable (_ ∧ _))

theorem update_eq_iff (row loaded : UserQuotaOverride)
    (body : QuotaOverrideCreate) (createdAt : ℚ) :
    row.update loaded body = upserted body createdAt (some row) ↔
      UpdatesWhole loaded body row := by
  simp only [UserQuotaOverride.update, upserted, UserQuotaOverride.create,
    Option.map_some, Option.getD_some, UserQuotaOverride.mk.injEq, true_and,
    ite_eq_right_iff, UpdatesWhole]

theorem commitUpsert_eq_iff (userId : String)
    (existing row : Option UserQuotaOverride) (body : QuotaOverrideCreate)
    (createdAt : ℚ) :
    commitUpsert userId existing body createdAt row =
        .ok (some (upserted body createdAt row)) ↔
      CommitsWhole userId existing body row := by
  unfold commitUpsert CommitsWhole
  by_cases hstorable : Storable userId body
  · simp only [hstorable, if_true, true_and]
    cases existing with
    | none =>
        cases row with
        | none => exact iff_of_true rfl trivial
        | some row => simp [FindsAsSelected]
    | some loaded =>
        cases row with
        | none =>
            simp only [FindsAsSelected]
            split <;> simp
        | some row =>
            rw [FindsAsSelected, ← update_eq_iff row loaded body createdAt]
            simp only []
            split
            · next hcarries =>
                obtain ⟨hlimit, hreason, hexpires⟩ := hcarries
                simp [UserQuotaOverride.update, hlimit, hreason, hexpires]
            · simp
  · simp [hstorable]

theorem findsAsSelected_self (row : Option UserQuotaOverride)
    (body : QuotaOverrideCreate) : FindsAsSelected row body row := by
  cases row with
  | none => trivial
  | some row => exact ⟨Eq.symm, Eq.symm, Eq.symm⟩

variable {userId : String} {body : QuotaOverrideCreate}

theorem selectQuota_of_storable (hstorable : Storable userId body)
    (row : Option UserQuotaOverride) : selectQuota userId row = .ok row :=
  if_pos hstorable.1.2

theorem upsertQuota_eq (hstorable : Storable userId body) (createdAt : ℚ)
    (row : Option UserQuotaOverride) :
    upsertQuota userId body createdAt row =
      (.ok (upserted body createdAt row), some (upserted body createdAt row)) :=
    by
  have hcommit := (commitUpsert_eq_iff userId row row body createdAt).mpr
    ⟨hstorable, findsAsSelected_self row body⟩
  simp only [upsertQuota, selectQuota_of_storable hstorable, hcommit]
  rfl

end RateLimitedGateway.Routes
