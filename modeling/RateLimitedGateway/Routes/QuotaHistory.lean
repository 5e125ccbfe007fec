import Mathlib.Data.List.DropRight
import RateLimitedGateway.Routes.Admin
import RateLimitedGateway.Services.RateLimitService
import RateLimitedGateway.Services.UpstreamHealth

/-!
# The override in force

Quota requests that are served one after another.  The limit of a user's request
is decided by the latest of them for that user that was committed, unless it is
a default that is too large for a double, or the row is that of a longer id,
which its column has cut to the user's.
-/

namespace RateLimitedGateway.Routes

open RateLimitedGateway.Core RateLimitedGateway.Foundation
open RateLimitedGateway.Infra RateLimitedGateway.Services

abbrev QuotaTable := String → Option UserQuotaOverride

abbrev UserRequest := String × QuotaRequest

def serveQuota (table : QuotaTable) (request : UserRequest) : QuotaTable :=
  let (userId, written) := request
  match written with
  | .put body createdAt =>
      match selectQuota userId (table userId) with
      | .error _ => table
      | .ok existing =>
          let inserted := insertedId userId
          match commitUpsert inserted existing body createdAt
            (table inserted) with
          | .error _ => table
          -- the refresh may still fail, but writes nothing
          | .ok row => Function.update table inserted row
  | .delete =>
      match deleteQuota userId (table userId) with
      | .error _ => table
      | .ok row => Function.update table userId row

def tableAfter (history : List UserRequest) : QuotaTable :=
  history.foldl serveQuota fun _ => none

def lookedUp (row : UserQuotaOverride) : QuotaOverride :=
  ⟨row.customLimit, row.expiresAt⟩

def requested (body : QuotaOverrideCreate) : QuotaOverride :=
  ⟨body.customLimit, body.expiresAt⟩

def selectOverride (table : QuotaTable) (userId : String) :
    Except String (Option QuotaOverride) :=
  match selectQuota userId (table userId) with
  | .error _ => .error "DBAPIError"
  | .ok row => .ok (row.map lookedUp)

def CommitsFor (userId : String) (request : UserRequest) : Prop :=
  request.1 = userId ∧ request.2.Commits userId

instance (userId : String) (request : UserRequest) :
    Decidable (CommitsFor userId request) :=
  inferInstanceAs (Decidable (_ ∧ _))

/-- The latest request for the user, of those that are committed. -/
def latestRequest (history : List UserRequest) (userId : String) :
    Option QuotaRequest :=
  ((history.filter fun request => CommitsFor userId request).getLast?).map
    Prod.snd

def decidedLimit (settings : Settings) (tier : String) (utcNow : ℚ) :
    Option QuotaRequest → Int
  | some (.put body _) =>
      if body.expiresAt.all fun expiresAt => utcNow ≤ expiresAt then
        body.customLimit
      else tierDefault settings tier
  | some .delete => tierDefault settings tier
  | none => tierDefault settings tier

/-! ## Rows of ids that are cut -/

/-- The body of a `PUT` for a longer id, which the column cuts to the user's. -/
def insertsFor (userId : String) : UserRequest → Option QuotaOverrideCreate
  | (other, .put body _) =>
      if other ≠ userId ∧ insertedId other = userId ∧ Storable userId body then
        some body
      else none
  | (_, .delete) => none

/-- The body of the user's row, if it comes from a request for another id. -/
def insertedByOther (history : List UserRequest) (userId : String) :
    Option QuotaOverrideCreate :=
  match latestRequest history userId with
  | some (.put _ _) => none
  | _ =>
      -- the first one takes the id, and any other insert fails
      (history.rtakeWhile fun request => ¬ CommitsFor userId request).findSome?
        (insertsFor userId)

def bodyInForce (history : List UserRequest) (userId : String) :
    Option QuotaOverrideCreate :=
  match latestRequest history userId with
  | some (.put body _) => some body
  | _ => insertedByOther history userId

section Histories

variable (history : List UserRequest) {userId : String} {request : UserRequest}

theorem latestRequest_append_of_commits (hcommits : CommitsFor userId request) :
    latestRequest (history ++ [request]) userId = some request.2 := by
  simp [latestRequest, hcommits]

theorem latestRequest_append_of_not (hother : ¬ CommitsFor userId request) :
    latestRequest (history ++ [request]) userId =
      latestRequest history userId := by
  simp [latestRequest, hother]

theorem bodyInForce_append_put {body : QuotaOverrideCreate} {createdAt : ℚ}
    (hcommits : Storable userId body) :
    bodyInForce (history ++ [(userId, .put body createdAt)]) userId =
      some body := by
  have hown : CommitsFor userId (userId, .put body createdAt) := ⟨rfl, hcommits⟩
  simp only [bodyInForce, latestRequest_append_of_commits history hown]

theorem bodyInForce_append_delete (huser : nulFree userId = true) :
    bodyInForce (history ++ [(userId, .delete)]) userId = none := by
  have hown : CommitsFor userId (userId, .delete) := ⟨rfl, huser⟩
  simp [bodyInForce, insertedByOther,
    latestRequest_append_of_commits history hown,
    List.rtakeWhile_concat_neg, hown]

theorem bodyInForce_append_of_not (hother : ¬ CommitsFor userId request) :
    bodyInForce (history ++ [request]) userId =
      (bodyInForce history userId).or (insertsFor userId request) := by
  have hsince : (history ++ [request]).rtakeWhile
        (fun request => ¬ CommitsFor userId request) =
      history.rtakeWhile (fun request => ¬ CommitsFor userId request) ++
        [request] :=
    List.rtakeWhile_concat_pos _ _ _ (by simpa using hother)
  simp only [bodyInForce, insertedByOther,
    latestRequest_append_of_not history hother, hsince, List.findSome?_append]
  cases latestRequest history userId with
  | none => simp
  | some latest => cases latest <;> simp

theorem insertedByOther_filter :
    insertedByOther (history.filter fun request => request.1 = userId) userId =
      none := by
  unfold insertedByOther
  split
  · rfl
  · rw [List.findSome?_eq_none_iff]
    intro request hmem
    have hown := (List.mem_filter.mp
      ((List.rtakeWhile_suffix _ _).subset hmem)).2
    obtain ⟨user, written⟩ := request
    cases written with
    | put body createdAt => simp_all [insertsFor]
    | delete => rfl

theorem latestRequest_filter :
    latestRequest (history.filter fun request => request.1 = userId) userId =
      latestRequest history userId := by
  simp only [latestRequest, List.filter_filter]
  congr 2
  apply List.filter_congr
  intro request _
  by_cases huser : request.1 = userId <;> simp [CommitsFor, huser]

end Histories

/-! ## What is in the table -/

def Kept (table : QuotaTable) : Prop :=
  ∀ userId, table userId ≠ none → Fits 128 userId

section Tables

variable {table : QuotaTable} {userId other : String}
variable {body : QuotaOverrideCreate} {createdAt : ℚ}

theorem insertedId_of_fits (hfits : Fits 128 userId) :
    insertedId userId = userId := by
  rw [insertedId, varchar_eq_self_iff.mpr hfits, Option.getD_some]

theorem cut_of_insertedId_ne (hcut : insertedId other ≠ other) :
    ¬ Fits 128 other ∧ nulFree other = true := by
  have hfits : ¬ Fits 128 other := fun hfits => hcut (insertedId_of_fits hfits)
  refine ⟨hfits, ?_⟩
  unfold insertedId varchar at hcut
  rw [if_neg hfits] at hcut
  split at hcut
  · next hspaces => exact hspaces.1
  · exact absurd rfl hcut

def writtenId : UserRequest → String
  | (userId, .put _ _) => insertedId userId
  | (userId, .delete) => userId

theorem serveQuota_frame {request : UserRequest}
    (hne : writtenId request ≠ userId) :
    serveQuota table request userId = table userId := by
  obtain ⟨other, written⟩ := request
  cases written with
  | delete =>
      cases hdelete : deleteQuota other (table other) with
      | error exc => simp only [serveQuota, hdelete]
      | ok row =>
          simp only [serveQuota, hdelete]
          exact Function.update_of_ne (Ne.symm hne) _ _
  | put body createdAt =>
      cases hselect : selectQuota other (table other) with
      | error exc => simp only [serveQuota, hselect]
      | ok existing =>
          cases hcommit : commitUpsert (insertedId other) existing body
            createdAt (table (insertedId other)) with
          | error exc => simp only [serveQuota, hselect, hcommit]
          | ok row =>
              simp only [serveQuota, hselect, hcommit]
              exact Function.update_of_ne (Ne.symm hne) _ _

theorem serveQuota_put_own :
    serveQuota table (userId, .put body createdAt) userId =
      if Storable userId body then
        some (upserted body createdAt (table userId))
      else table userId := by
  by_cases hstorable : Storable userId body
  · have hcommit := (commitUpsert_eq_iff userId (table userId)
        (table userId) body createdAt).mpr
      ⟨hstorable, findsAsSelected_self _ body⟩
    simp only [serveQuota, selectQuota_of_storable hstorable,
      insertedId_of_fits hstorable.1, hcommit, Function.update_self,
      if_pos hstorable]
  · rw [if_neg hstorable]
    by_cases hinserted : insertedId userId = userId
    · cases hselect : selectQuota userId (table userId) with
      | error exc => simp only [serveQuota, hselect]
      | ok existing =>
          simp only [serveQuota, hselect, hinserted, commitUpsert,
            if_neg hstorable]
    · exact serveQuota_frame hinserted

theorem serveQuota_delete_own :
    serveQuota table (userId, .delete) userId =
      if nulFree userId then none else table userId := by
  simp only [serveQuota, deleteQuota]
  cases nulFree userId <;> simp

theorem serveQuota_of_ne {request : UserRequest} (hkept : Kept table)
    (hne : request.1 ≠ userId) :
    (serveQuota table request userId).map lookedUp =
      ((table userId).map lookedUp).or
        ((insertsFor userId request).map requested) := by
  obtain ⟨other, written⟩ := request
  cases written with
  | delete =>
      rw [serveQuota_frame (by exact hne), insertsFor, Option.map_none,
        Option.or_none]
  | put body createdAt =>
      by_cases hinserted : insertedId other = userId
      · have hcut : insertedId other ≠ other := by
          rw [hinserted]
          exact Ne.symm hne
        obtain ⟨hunfit, hnul⟩ := cut_of_insertedId_ne hcut
        have habsent : table other = none := by
          by_contra hrow
          exact hunfit (hkept other hrow)
        have hselect : selectQuota other (table other) = .ok none := by
          rw [habsent]
          exact if_pos hnul
        simp only [serveQuota, insertsFor, hselect, hinserted, commitUpsert]
        by_cases hstorable : Storable userId body
        · have hother : other ≠ userId := hne
          cases hrow : table userId with
          | none =>
              simp only [hstorable, hother, if_true, ne_eq, not_false_eq_true,
                and_self, Function.update_self]
              rfl
          | some row => simp [hstorable, hrow]
        · simp [hstorable]
      · rw [serveQuota_frame (by exact hinserted)]
        simp [insertsFor, hinserted]

theorem Kept.serveQuota (hkept : Kept table) (request : UserRequest) :
    Kept (serveQuota table request) := by
  intro userId hrow
  by_contra hunfit
  have habsent : table userId = none := by
    by_contra hrow
    exact hunfit (hkept userId hrow)
  have hrefused : ∀ body, ¬ Storable userId body := fun body h => hunfit h.1
  apply hrow
  by_cases hown : request.1 = userId
  · subst hown
    obtain ⟨user, written⟩ := request
    cases written with
    | put body createdAt =>
        rw [serveQuota_put_own, if_neg (hrefused body), habsent]
    | delete => rw [serveQuota_delete_own, habsent, ite_self]
  · have hnone : insertsFor userId request = none := by
      obtain ⟨other, written⟩ := request
      cases written with
      | put body createdAt => exact if_neg fun h => hrefused body h.2.2
      | delete => rfl
    have hserved := serveQuota_of_ne hkept hown
    rw [habsent, hnone] at hserved
    exact Option.map_eq_none_iff.mp hserved

end Tables

theorem tableAfter_append (history : List UserRequest) (request : UserRequest) :
    tableAfter (history ++ [request]) =
      serveQuota (tableAfter history) request :=
  List.foldl_concat ..

theorem kept_tableAfter (history : List UserRequest) :
    Kept (tableAfter history) := by
  induction history using List.reverseRecOn with
  | nil => exact fun _ hrow => absurd rfl hrow
  | append_singleton history request ih =>
      rw [tableAfter_append]
      exact ih.serveQuota request

theorem tableAfter_eq (history : List UserRequest) (userId : String) :
    (tableAfter history userId).map lookedUp =
      (bodyInForce history userId).map requested := by
  induction history using List.reverseRecOn with
  | nil => rfl
  | append_singleton history request ih =>
      rw [tableAfter_append]
      by_cases hother : request.1 = userId
      · subst hother
        obtain ⟨user, written⟩ := request
        by_cases hcommits : written.Commits user
        · cases written with
          | put body createdAt =>
              rw [bodyInForce_append_put history hcommits, serveQuota_put_own]
              exact congrArg (Option.map lookedUp) (if_pos hcommits)
          | delete =>
              rw [bodyInForce_append_delete history hcommits,
                serveQuota_delete_own]
              exact congrArg (Option.map lookedUp) (if_pos hcommits)
        · have hnone : insertsFor user (user, written) = none := by
            cases written with
            | put body createdAt => simp [insertsFor]
            | delete => rfl
          rw [bodyInForce_append_of_not history fun h => hcommits h.2, hnone,
            Option.or_none, ← ih]
          cases written with
          | put body createdAt =>
              rw [serveQuota_put_own]
              exact congrArg (Option.map lookedUp) (if_neg hcommits)
          | delete =>
              rw [serveQuota_delete_own]
              exact congrArg (Option.map lookedUp) (if_neg hcommits)
      · rw [serveQuota_of_ne (kept_tableAfter history) hother, ih,
          bodyInForce_append_of_not history fun h => hother h.1,
          Option.map_or]

/-! ## The limit as a double -/

/--
A limit that a double can hold; for half of it, one that is rounded down to the
even number before it does as well.
-/
def Converts (baseLimit : Int) (healthFactor : ℚ) : Prop :=
  overflows baseLimit = false ∧
    (baseLimit ≤ 1 ∨ binary64 baseLimit = baseLimit ∨
      healthFactor = 1 / 2 ∧ binary64 baseLimit = baseLimit - 1)

instance (baseLimit : Int) (healthFactor : ℚ) :
    Decidable (Converts baseLimit healthFactor) :=
  inferInstanceAs (Decidable (_ ∧ (_ ∨ _ ∨ _ ∧ _)))

theorem effectiveLimit_one_eq_iff (baseLimit : Int) :
    effectiveLimit baseLimit 1 = max 1 baseLimit ↔
      baseLimit ≤ 1 ∨ binary64 baseLimit = baseLimit := by
  rcases le_or_gt baseLimit (2 ^ 53) with hsmall | hlarge
  · rw [effectiveLimit_one_of_le hsmall]
    rcases le_or_gt baseLimit 0 with hneg | hpos
    · simp only [true_iff]
      omega
    · simp [binary64_intCast hpos.le hsmall]
  · obtain ⟨c, hc, heven⟩ := binary64_even hlarge
    have hfloor : ⌊binary64 (baseLimit : ℚ)⌋ = 2 * c := by
      rw [heven, Int.floor_intCast]
    rw [effectiveLimit_one_of_pos (by omega), hfloor, heven, Int.cast_inj]
    omega

theorem effectiveLimit_half_eq_iff (baseLimit : Int) :
    effectiveLimit baseLimit (1 / 2) = max 1 (baseLimit / 2) ↔
      baseLimit ≤ 1 ∨ binary64 baseLimit = baseLimit ∨
        binary64 baseLimit = baseLimit - 1 := by
  rcases le_or_gt baseLimit 0 with hneg | hpos
  · rw [effectiveLimit_of_nonpos hneg (by norm_num)]
    omega
  rw [effectiveLimit_half_of_pos hpos]
  rcases le_or_gt baseLimit (2 ^ 53) with hsmall | hlarge
  · have hhalf : ⌊(baseLimit : ℚ) / 2⌋ = baseLimit / 2 := by
      exact_mod_cast Rat.floor_intCast_div_natCast baseLimit 2
    simp [binary64_intCast hpos.le hsmall, hhalf]
  · obtain ⟨c, hc, heven⟩ := binary64_even hlarge
    have hfloor : ⌊binary64 (baseLimit : ℚ) / 2⌋ = c := by
      rw [heven, Int.cast_mul, Int.cast_ofNat, mul_div_cancel_left₀ _
        (by norm_num), Int.floor_intCast]
    have hbefore : ((2 * c : Int) : ℚ) = baseLimit - 1 ↔
        2 * c = baseLimit - 1 := by
      exact_mod_cast Iff.rfl
    rw [hfloor, heven, Int.cast_inj, hbefore]
    omega

theorem effectiveLimit_eq_floor_iff (baseLimit : Int) {healthFactor : ℚ}
    (hfactor : healthFactor = 1 ∨ healthFactor = 1 / 2) :
    overflows baseLimit = false ∧ effectiveLimit baseLimit healthFactor =
        max 1 ⌊baseLimit * healthFactor⌋ ↔
      Converts baseLimit healthFactor := by
  apply and_congr_right'
  rcases hfactor with rfl | rfl
  · rw [mul_one, Int.floor_intCast, effectiveLimit_one_eq_iff]
    norm_num
  · have hhalf : ⌊(baseLimit : ℚ) * (1 / 2)⌋ = baseLimit / 2 := by
      rw [mul_one_div]
      exact_mod_cast Rat.floor_intCast_div_natCast baseLimit 2
    rw [hhalf, effectiveLimit_half_eq_iff]
    simp

/-! ## What the limiter is asked -/

def storesAfter (stores : Stores) (history : List UserRequest) : Stores :=
  { stores with selectOverride := selectOverride (tableAfter history) }

theorem check_limit (redis : Redis) (delivery : Delivery) (key : String)
    (limit now : Int) :
    (RedisRateLimiter.check redis delivery key limit windowSeconds
      now).1.limit = limit := by
  cases delivery <;> rfl

def limitFound (settings : Settings) (tier : String) (utcNow : ℚ)
    (history : List UserRequest) (userId : String) : Int :=
  resolveLimit settings ((bodyInForce history userId).map requested) utcNow tier

def HasExpired (body : QuotaOverrideCreate) (utcNow : ℚ) : Prop :=
  ∃ expiresAt ∈ body.expiresAt, expiresAt < utcNow

instance (body : QuotaOverrideCreate) (utcNow : ℚ) :
    Decidable (HasExpired body utcNow) :=
  inferInstanceAs (Decidable (∃ expiresAt ∈ body.expiresAt, expiresAt < utcNow))

/-- A row that another id has inserted makes no difference to the limit. -/
def Undisplaced (settings : Settings) (tier : String) (utcNow healthFactor : ℚ)
    (history : List UserRequest) (userId : String) : Prop :=
  ∀ body ∈ insertedByOther history userId,
    HasExpired body utcNow ∨
      max 1 ⌊body.customLimit * healthFactor⌋ =
        max 1 ⌊tierDefault settings tier * healthFactor⌋

instance (settings : Settings) (tier : String) (utcNow healthFactor : ℚ)
    (history : List UserRequest) (userId : String) :
    Decidable (Undisplaced settings tier utcNow healthFactor history userId) :=
  inferInstanceAs (Decidable (∀ body ∈ insertedByOther history userId, _ ∨ _))

section Decided

variable (settings : Settings) (tier : String) (utcNow : ℚ)
variable (history : List UserRequest) (userId : String)

theorem resolveLimit_of_body (body : QuotaOverrideCreate) :
    resolveLimit settings (some (requested body)) utcNow tier =
      if HasExpired body utcNow then tierDefault settings tier
      else body.customLimit := by
  cases hexpires : body.expiresAt with
  | none => simp [resolveLimit, requested, lookupOverride, HasExpired, hexpires]
  | some expiresAt =>
      by_cases hpast : expiresAt < utcNow <;>
        simp [resolveLimit, requested, lookupOverride, HasExpired, hexpires,
          hpast]

theorem decidedLimit_put (body : QuotaOverrideCreate) (createdAt : ℚ) :
    decidedLimit settings tier utcNow (some (.put body createdAt)) =
      if HasExpired body utcNow then tierDefault settings tier
      else body.customLimit := by
  cases hexpires : body.expiresAt with
  | none => simp [decidedLimit, HasExpired, hexpires]
  | some expiresAt =>
      by_cases hpast : expiresAt < utcNow
      · simp [decidedLimit, HasExpired, hexpires, hpast, not_le.mpr hpast]
      · simp [decidedLimit, HasExpired, hexpires, hpast, not_lt.mp hpast]

theorem limitFound_of_own (hown : insertedByOther history userId = none) :
    limitFound settings tier utcNow history userId =
      decidedLimit settings tier utcNow (latestRequest history userId) := by
  unfold limitFound bodyInForce
  rw [hown]
  cases latestRequest history userId with
  | none => rfl
  | some latest =>
      cases latest with
      | delete => rfl
      | put body createdAt =>
          rw [decidedLimit_put]
          exact resolveLimit_of_body settings tier utcNow body

theorem limitFound_of_other {body : QuotaOverrideCreate}
    (hother : insertedByOther history userId = some body) :
    decidedLimit settings tier utcNow (latestRequest history userId) =
        tierDefault settings tier ∧
      limitFound settings tier utcNow history userId =
        if HasExpired body utcNow then tierDefault settings tier
        else body.customLimit := by
  have hlatest : ∀ own createdAt,
      latestRequest history userId ≠ some (.put own createdAt) := by
    intro own createdAt hput
    simp [insertedByOther, hput] at hother
  have hbody : bodyInForce history userId = some body := by
    rw [bodyInForce, hother]
    split
    · next own createdAt hput => exact absurd hput (hlatest own createdAt)
    · rfl
  constructor
  · cases hrequest : latestRequest history userId with
    | none => rfl
    | some latest =>
        cases latest with
        | delete => rfl
        | put own createdAt => exact absurd hrequest (hlatest own createdAt)
  · rw [limitFound, hbody]
    exact resolveLimit_of_body settings tier utcNow body

theorem converts_customLimit (body : QuotaOverrideCreate) (healthFactor : ℚ) :
    Converts body.customLimit healthFactor := by
  have hdouble : binary64 body.customLimit = body.customLimit :=
    binary64_intCast body.customLimit_pos.le
      (body.customLimit_le.trans (by norm_num))
  have hpos : (0 : ℚ) ≤ body.customLimit := by
    exact_mod_cast body.customLimit_pos.le
  have hle : (body.customLimit : ℚ) ≤ 2 ^ 20 := by
    exact_mod_cast body.customLimit_le.trans (by norm_num)
  refine ⟨?_, .inr (.inl hdouble)⟩
  rw [overflows, hdouble, abs_of_nonneg hpos, decide_eq_false_iff_not, not_le]
  exact lt_of_le_of_lt hle (pow_lt_pow_right₀ (by norm_num) (by norm_num))

theorem limitFound_iff {healthFactor : ℚ}
    (hfactor : healthFactor = 1 ∨ healthFactor = 1 / 2)
    (hconverts : Converts
      (decidedLimit settings tier utcNow (latestRequest history userId))
      healthFactor) :
    (overflows (limitFound settings tier utcNow history userId) = false ∧
        effectiveLimit (limitFound settings tier utcNow history userId)
            healthFactor =
          max 1 ⌊decidedLimit settings tier utcNow
            (latestRequest history userId) * healthFactor⌋) ↔
      Undisplaced settings tier utcNow healthFactor history userId := by
  have hdecided := (effectiveLimit_eq_floor_iff _ hfactor).mpr hconverts
  cases hother : insertedByOther history userId with
  | none =>
      rw [limitFound_of_own _ _ _ _ _ hother]
      exact iff_of_true hdecided fun body hbody => by simp [hother] at hbody
  | some body =>
      obtain ⟨hdefault, hfound⟩ :=
        limitFound_of_other settings tier utcNow history userId hother
      rw [hfound]
      simp only [Undisplaced, hother, Option.mem_some_iff, forall_eq']
      rw [hdefault] at hdecided ⊢
      by_cases hexpired : HasExpired body utcNow
      · simp [hexpired, hdecided]
      · obtain ⟨hsmall, hcustom⟩ := (effectiveLimit_eq_floor_iff _ hfactor).mpr
          (converts_customLimit body healthFactor)
        simp [hexpired, hsmall, hcustom]

end Decided

theorem checkRateLimit_eq_iff (settings : Settings) (stores : Stores)
    (history : List UserRequest) (userId tier : String) (healthFactor : ℚ)
    (limit : Int) :
    checkRateLimit settings (storesAfter stores history) userId tier
          healthFactor =
        .ok (RedisRateLimiter.check stores.redis stores.delivery
          ("user:" ++ userId) limit 60 stores.epochNow) ↔
      nulFree userId = true ∧
        overflows (limitFound settings tier stores.utcNow history userId) =
          false ∧
        effectiveLimit (limitFound settings tier stores.utcNow history userId)
          healthFactor = limit := by
  cases huser : nulFree userId with
  | false =>
      have hselect : selectOverride (tableAfter history) userId =
          .error "DBAPIError" := by
        simp [selectOverride, selectQuota, huser]
      simp [checkRateLimit, storesAfter, hselect]
  | true =>
      have hselect : selectOverride (tableAfter history) userId =
          .ok ((bodyInForce history userId).map requested) := by
        simp [selectOverride, selectQuota, huser, tableAfter_eq]
      have hfound : resolveLimit settings
          ((bodyInForce history userId).map requested) stores.utcNow tier =
          limitFound settings tier stores.utcNow history userId := rfl
      simp only [checkRateLimit, storesAfter, hselect, hfound, true_and]
      cases hoverflows :
          overflows (limitFound settings tier stores.utcNow history userId) with
      | true => simp
      | false =>
          simp only [Bool.false_eq_true, if_false, Except.ok.injEq, true_and]
          constructor
          · intro hsame
            have hlimit := congrArg (fun checked => checked.1.limit) hsame
            simp only [check_limit] at hlimit
            exact hlimit.trans (check_limit _ _ _ _ _)
          · rintro rfl
            rfl

/--
The limiter is asked about the user's own key, with the limit that the latest
request for this user decides, whatever requests there are for other users,
exactly if the id is one that the database takes, a double holds the limit, and
no id that is cut to the user's has left a row for it.
-/
theorem history_decides_limit_iff (settings : Settings) (stores : Stores)
    (history : List UserRequest) (userId tier : String) {healthFactor : ℚ}
    (hfactor : healthFactor = 1 ∨ healthFactor = 1 / 2) :
    let baseLimit := decidedLimit settings tier stores.utcNow
      (latestRequest history userId)
    let limit := max 1 ⌊baseLimit * healthFactor⌋
    (checkRateLimit settings (storesAfter stores history) userId tier
          healthFactor =
        .ok (RedisRateLimiter.check stores.redis stores.delivery
          ("user:" ++ userId) limit 60 stores.epochNow) ∧
      checkRateLimit settings (storesAfter stores history) userId tier
          healthFactor =
        checkRateLimit settings
          (storesAfter stores
            (history.filter fun request => request.1 = userId))
          userId tier healthFactor ∧
      1 ≤ limit ∧ (limit / 60 : ℚ) ≠ 0) ↔
    nulFree userId = true ∧ Converts baseLimit healthFactor ∧
      Undisplaced settings tier stores.utcNow healthFactor history userId := by
  intro baseLimit limit
  have hlimit : 1 ≤ limit := le_max_left _ _
  have hpos : (0 : ℚ) < limit := by exact_mod_cast hlimit
  have hdivisor : (limit / 60 : ℚ) ≠ 0 := by positivity
  have hfiltered : limitFound settings tier stores.utcNow
      (history.filter fun request => request.1 = userId) userId = baseLimit :=
    by
    rw [limitFound_of_own _ _ _ _ _ (insertedByOther_filter history),
      latestRequest_filter]
  have halone := checkRateLimit_eq_iff settings stores
    (history.filter fun request => request.1 = userId) userId tier
    healthFactor limit
  rw [hfiltered, effectiveLimit_eq_floor_iff _ hfactor] at halone
  rw [and_iff_left (show 1 ≤ limit ∧ (limit / 60 : ℚ) ≠ 0 from
    ⟨hlimit, hdivisor⟩)]
  constructor
  · rintro ⟨hasks, hsame⟩
    rw [hsame] at hasks
    obtain ⟨huser, hconverts⟩ := halone.mp hasks
    rw [← hsame, checkRateLimit_eq_iff] at hasks
    exact ⟨huser, hconverts,
      (limitFound_iff _ _ _ _ _ hfactor hconverts).mp hasks.2⟩
  · rintro ⟨huser, hconverts, hundisplaced⟩
    have hasks := (checkRateLimit_eq_iff settings stores history userId tier
      healthFactor limit).mpr
      ⟨huser, (limitFound_iff _ _ _ _ _ hfactor hconverts).mpr hundisplaced⟩
    exact ⟨hasks, hasks.trans (halone.mpr ⟨huser, hconverts⟩).symm⟩

/-! ## Defaults of other sizes -/

def idleStores : Stores :=
  { selectOverride := fun _ => .ok none, redis := Redis.empty,
    delivery := .completes, epochNow := 0, utcNow := 0 }

def exactSettings : Settings := { devSettings with rateLimitFree := 2 ^ 53 - 1 }

def inexactSettings : Settings :=
  { devSettings with rateLimitFree := 2 ^ 53 + 1 }

theorem history_decides_limit_iff_exact :
    checkRateLimit exactSettings (storesAfter idleStores []) "alice" "free"
        (1 / 2) =
      .ok (RedisRateLimiter.check Redis.empty .completes "user:alice"
        (2 ^ 52 - 1) 60 0) := by
  have hlimit : max 1 ⌊(decidedLimit exactSettings "free" 0
      (latestRequest [] "alice") : ℚ) * (1 / 2)⌋ = 2 ^ 52 - 1 := by
    decide +kernel
  rw [← hlimit]
  exact ((history_decides_limit_iff exactSettings idleStores [] "alice" "free"
    (.inr rfl)).mpr (by decide +kernel)).1

theorem large_default_loses_one :
    ¬ ∀ (settings : Settings) (stores : Stores) (history : List UserRequest)
      (userId tier : String) (healthFactor : ℚ),
      healthFactor = 1 ∨ healthFactor = 1 / 2 →
      let limit := max 1 ⌊decidedLimit settings tier stores.utcNow
        (latestRequest history userId) * healthFactor⌋
      checkRateLimit settings (storesAfter stores history) userId tier
            healthFactor =
          .ok (RedisRateLimiter.check stores.redis stores.delivery
            ("user:" ++ userId) limit 60 stores.epochNow) ∧
        checkRateLimit settings (storesAfter stores history) userId tier
            healthFactor =
          checkRateLimit settings
            (storesAfter stores
              (history.filter fun request => request.1 = userId))
            userId tier healthFactor ∧
        1 ≤ limit ∧ (limit / 60 : ℚ) ≠ 0 := by
  intro hdecides
  have hasks := (hdecides inexactSettings idleStores [] "alice" "free" 1
    (.inl rfl)).1
  rw [checkRateLimit_eq_iff] at hasks
  revert hasks
  decide +kernel

end RateLimitedGateway.Routes
