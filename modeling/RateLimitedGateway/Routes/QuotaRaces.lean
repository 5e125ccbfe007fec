import Mathlib.Data.List.Nodup
import RateLimitedGateway.Foundation.History
import RateLimitedGateway.Routes.Admin

/-!
# Concurrent quota requests

Requests for one user whose steps interleave: the `SELECT` of a `PUT`, its
commit and its refresh see the row that is committed at that moment.  Nothing
holds the row in between.  A text that the columns do not take fails its
request whatever the others do.
-/

namespace RateLimitedGateway.Routes

open RateLimitedGateway.Foundation RateLimitedGateway.Infra

inductive QuotaPhase where
  | arrived
  | selected (existing : Option UserQuotaOverride)
  | committed (left : Option UserQuotaOverride)
  | finished

def QuotaPhase.IsDone : QuotaPhase → Prop
  | .arrived => False
  | .selected _ => False
  | .committed _ => True
  | .finished => True

structure QuotaState where
  row : Option UserQuotaOverride
  phase : ℕ → QuotaPhase

def QuotaState.advance (state : QuotaState) (id : ℕ) (phase : QuotaPhase) :
    QuotaState :=
  { state with phase := Function.update state.phase id phase }

@[simp] theorem QuotaState.advance_row (state : QuotaState) (id : ℕ)
    (phase : QuotaPhase) : (state.advance id phase).row = state.row := rfl

@[simp] theorem QuotaState.advance_phase_self (state : QuotaState) (id : ℕ)
    (phase : QuotaPhase) : (state.advance id phase).phase id = phase :=
  Function.update_self _ _ _

theorem QuotaState.advance_phase_of_ne (state : QuotaState) {id other : ℕ}
    (hne : other ≠ id) (phase : QuotaPhase) :
    (state.advance id phase).phase other = state.phase other :=
  Function.update_of_ne hne _ _

inductive QuotaStep where
  | select (id : ℕ)
  | commit (id : ℕ)
  | refresh (id : ℕ)
  deriving DecidableEq, Repr

inductive QuotaAnswer where
  | pending
  | deleted
  | returned (row : UserQuotaOverride)
  | failed (exc : DbError)
  deriving DecidableEq, Repr

/-- The requests for one user are numbered; each of them runs once. -/
def quotaMachine (userId : String) (requests : List QuotaRequest) :
    Machine QuotaState QuotaStep QuotaAnswer := fun state step =>
  match step with
  | .select id =>
      match requests[id]?, state.phase id with
      | some (.put _ _), .arrived =>
          match selectQuota userId state.row with
          | .error exc => some (.failed exc, state.advance id .finished)
          | .ok existing =>
              some (.pending, state.advance id (.selected existing))
      | _, _ => none
  | .commit id =>
      match requests[id]?, state.phase id with
      | some (.put body createdAt), .selected existing =>
          match commitUpsert userId existing body createdAt state.row with
          | .error exc => some (.failed exc, state.advance id .finished)
          | .ok row =>
              some (.pending,
                { state.advance id (.committed row) with row := row })
      | some .delete, .arrived =>
          match deleteQuota userId state.row with
          | .error exc => some (.failed exc, state.advance id .finished)
          | .ok row =>
              some (.deleted, { state.advance id .finished with row := row })
      | _, _ => none
  | .refresh id =>
      match requests[id]?, state.phase id with
      | some (.put _ _), .committed _ =>
          match refresh state.row with
          | .error exc => some (.failed exc, state.advance id .finished)
          | .ok row => some (.returned row, state.advance id .finished)
      | _, _ => none

def quotaStart (row : Option UserQuotaOverride) : QuotaState :=
  ⟨row, fun _ => .arrived⟩

abbrev QuotaEntry := Entry QuotaState QuotaStep QuotaAnswer

def Succeeds (requests : List QuotaRequest) (entry : QuotaEntry) : Prop :=
  match entry.output with
  | .failed _ => False
  | .returned row =>
      ∀ id body createdAt, entry.input = .refresh id →
        requests[id]? = some (.put body createdAt) → row.Carries body
  | .pending => True
  | .deleted => True

def serialRow (userId : String) (requests : List QuotaRequest)
    (order : List ℕ) (row : Option UserQuotaOverride) :
    Option UserQuotaOverride :=
  (order.filterMap fun id => requests[id]?).foldl
    (fun row request => request.rowAfter userId row) row

/--
Every request succeeds, and when all of them have finished, the row is the one
that some serial order of them leaves.
-/
def Serializable (userId : String) (requests : List QuotaRequest)
    (first : Option UserQuotaOverride) (history : List QuotaEntry)
    (last : QuotaState) : Prop :=
  (∀ entry ∈ history, Succeeds requests entry) ∧
    ((∀ id < requests.length, last.phase id = .finished) →
      ∃ order : List ℕ, order.Perm (List.range requests.length) ∧
        last.row = serialRow userId requests order first)

/-! ## Undisturbed runs -/

def columns (row : UserQuotaOverride) : Int × Option String × Option ℚ :=
  (row.customLimit, row.reason, row.expiresAt)

/--
What other requests have committed since the last step of this one does not
show: not in what its commit decides and leaves out, nor in what it reads back.
Nor is a text in the way, of the path or of the body.
-/
def Undisturbed (userId : String) (requests : List QuotaRequest)
    (state : QuotaState) : QuotaStep → Prop
  | .select _ => nulFree userId = true
  | .commit id =>
      match requests[id]?, state.phase id with
      | some (.put body _), .selected existing =>
          CommitsWhole userId existing body state.row
      | _, _ => nulFree userId = true
  | .refresh id =>
      match state.phase id with
      | .committed left => state.row.map columns = left.map columns
      | _ => True

instance (userId : String) (requests : List QuotaRequest) (state : QuotaState)
    (step : QuotaStep) : Decidable (Undisturbed userId requests state step) :=
  by
  cases step <;> dsimp only [Undisturbed] <;> try split
  all_goals infer_instance

theorem quotaMachine_cases {userId : String} {requests : List QuotaRequest}
    {state after : QuotaState} {step : QuotaStep} {answer : QuotaAnswer}
    (h : quotaMachine userId requests state step = some (answer, after)) :
    (∃ id body createdAt, step = .select id ∧
      requests[id]? = some (.put body createdAt) ∧
      state.phase id = .arrived ∧
      ((∃ exc, selectQuota userId state.row = .error exc ∧
          answer = .failed exc ∧ after = state.advance id .finished) ∨
        ∃ existing, selectQuota userId state.row = .ok existing ∧
          answer = .pending ∧
          after = state.advance id (.selected existing))) ∨
    (∃ id body createdAt existing, step = .commit id ∧
      requests[id]? = some (.put body createdAt) ∧
      state.phase id = .selected existing ∧
      ((∃ exc, commitUpsert userId existing body createdAt state.row =
            .error exc ∧
          answer = .failed exc ∧ after = state.advance id .finished) ∨
        ∃ row, commitUpsert userId existing body createdAt state.row =
            .ok row ∧
          answer = .pending ∧
          after = { state.advance id (.committed row) with row := row })) ∨
    (∃ id, step = .commit id ∧ requests[id]? = some .delete ∧
      state.phase id = .arrived ∧
      ((∃ exc, deleteQuota userId state.row = .error exc ∧
          answer = .failed exc ∧ after = state.advance id .finished) ∨
        ∃ row, deleteQuota userId state.row = .ok row ∧ answer = .deleted ∧
          after = { state.advance id .finished with row := row })) ∨
    ∃ id body createdAt left, step = .refresh id ∧
      requests[id]? = some (.put body createdAt) ∧
      state.phase id = .committed left ∧
      ((∃ exc, refresh state.row = .error exc ∧ answer = .failed exc ∧
          after = state.advance id .finished) ∨
        ∃ row, refresh state.row = .ok row ∧ answer = .returned row ∧
          after = state.advance id .finished) := by
  cases step with
  | select id =>
      simp only [quotaMachine] at h
      split at h
      · next body createdAt hrequest hphase =>
          refine .inl ⟨id, body, createdAt, rfl, hrequest, hphase, ?_⟩
          split at h
          · next exc hselect =>
              cases h
              exact .inl ⟨exc, hselect, rfl, rfl⟩
          · next existing hselect =>
              cases h
              exact .inr ⟨existing, hselect, rfl, rfl⟩
      · cases h
  | commit id =>
      simp only [quotaMachine] at h
      split at h
      · next body createdAt existing hrequest hphase =>
          refine .inr (.inl ⟨id, body, createdAt, existing, rfl, hrequest,
            hphase, ?_⟩)
          split at h
          · next exc hcommit =>
              cases h
              exact .inl ⟨exc, hcommit, rfl, rfl⟩
          · next row hcommit =>
              cases h
              exact .inr ⟨row, hcommit, rfl, rfl⟩
      · next hrequest hphase =>
          refine .inr (.inr (.inl ⟨id, rfl, hrequest, hphase, ?_⟩))
          split at h
          · next exc hdelete =>
              cases h
              exact .inl ⟨exc, hdelete, rfl, rfl⟩
          · next row hdelete =>
              cases h
              exact .inr ⟨row, hdelete, rfl, rfl⟩
      · cases h
  | refresh id =>
      simp only [quotaMachine] at h
      split at h
      · next body createdAt left hrequest hphase =>
          refine .inr (.inr (.inr ⟨id, body, createdAt, left, rfl, hrequest,
            hphase, ?_⟩))
          split at h
          · next exc hrefresh =>
              cases h
              exact .inl ⟨exc, hrefresh, rfl, rfl⟩
          · next row hrefresh =>
              cases h
              exact .inr ⟨row, hrefresh, rfl, rfl⟩
      · cases h

theorem serialRow_append (userId : String) {requests : List QuotaRequest}
    {id : ℕ} {request : QuotaRequest} (hrequest : requests[id]? = some request)
    (order : List ℕ) (first : Option UserQuotaOverride) :
    serialRow userId requests (order ++ [id]) first =
      request.rowAfter userId (serialRow userId requests order first) := by
  simp [serialRow, List.filterMap_append, List.foldl_append, hrequest]

/-- The row is that of the requests that are done, in the order of commits. -/
structure InOrder (userId : String) (requests : List QuotaRequest)
    (first : Option UserQuotaOverride) (state : QuotaState) (order : List ℕ) :
    Prop where
  nodup : order.Nodup
  mem_iff : ∀ id, id ∈ order ↔
    (∃ request, requests[id]? = some request) ∧ (state.phase id).IsDone
  row_eq : state.row = serialRow userId requests order first
  carries : ∀ id body createdAt left,
    requests[id]? = some (.put body createdAt) →
    state.phase id = .committed left →
    ∃ row, left = some row ∧ row.Carries body

section Steps

variable {userId : String} {requests : List QuotaRequest}
variable {first : Option UserQuotaOverride}
variable {state : QuotaState} {order : List ℕ} {id : ℕ} {phase : QuotaPhase}

theorem InOrder.advance (h : InOrder userId requests first state order)
    (hdone : phase.IsDone ↔ (state.phase id).IsDone)
    (hphase : ∀ left, phase ≠ .committed left) :
    InOrder userId requests first (state.advance id phase) order where
  nodup := h.nodup
  mem_iff other := by
    by_cases hsame : other = id
    · subst hsame
      rw [h.mem_iff, state.advance_phase_self, hdone]
    · rw [h.mem_iff, state.advance_phase_of_ne hsame]
  row_eq := h.row_eq
  carries other body createdAt left hrequest hleft := by
    by_cases hsame : other = id
    · subst hsame
      rw [state.advance_phase_self] at hleft
      exact absurd hleft (hphase left)
    · rw [state.advance_phase_of_ne hsame] at hleft
      exact h.carries other body createdAt left hrequest hleft

theorem InOrder.commit (h : InOrder userId requests first state order)
    {request : QuotaRequest} (hrequest : requests[id]? = some request)
    (hbefore : ¬ (state.phase id).IsDone) (hafter : phase.IsDone)
    (hcarries : ∀ body createdAt left, request = .put body createdAt →
      phase = .committed left → ∃ row, left = some row ∧ row.Carries body) :
    InOrder userId requests first
      { state.advance id phase with row := request.rowAfter userId state.row }
      (order ++ [id]) where
  nodup := by
    have hnew : id ∉ order := fun hmem => hbefore ((h.mem_iff id).mp hmem).2
    refine List.nodup_append.mpr ⟨h.nodup, List.nodup_singleton id, ?_⟩
    rintro other hmem same hsame rfl
    exact hnew (List.mem_singleton.mp hsame ▸ hmem)
  mem_iff other := by
    rw [List.mem_append, List.mem_singleton, h.mem_iff]
    by_cases hsame : other = id
    · subst hsame
      simp [hrequest, hafter]
    · simp [hsame, state.advance_phase_of_ne hsame]
  row_eq := by
    rw [serialRow_append userId hrequest, ← h.row_eq]
  carries other body createdAt left hother hleft := by
    by_cases hsame : other = id
    · subst hsame
      rw [hrequest, Option.some_inj] at hother
      simp only [state.advance_phase_self] at hleft
      exact hcarries body createdAt left hother hleft
    · simp only [state.advance_phase_of_ne hsame] at hleft
      exact h.carries other body createdAt left hother hleft

theorem InOrder.refresh (h : InOrder userId requests first state order)
    {body : QuotaOverrideCreate} {createdAt : ℚ}
    {left : Option UserQuotaOverride} {after : QuotaState}
    {answer : QuotaAnswer}
    (hrequest : requests[id]? = some (.put body createdAt))
    (hphase : state.phase id = .committed left)
    (hcolumns : state.row.map columns = left.map columns)
    (hrefresh : (∃ exc, Routes.refresh state.row = .error exc ∧
        answer = .failed exc ∧ after = state.advance id .finished) ∨
      ∃ row, Routes.refresh state.row = .ok row ∧ answer = .returned row ∧
        after = state.advance id .finished) :
    Succeeds requests ⟨state, .refresh id, answer, after⟩ ∧
      InOrder userId requests first after order := by
  obtain ⟨row, rfl, hcarries⟩ :=
    h.carries id body createdAt left hrequest hphase
  have hkeep :
      InOrder userId requests first (state.advance id .finished) order := by
    refine h.advance ?_ fun left => by simp
    simp [QuotaPhase.IsDone, hphase]
  rcases hrefresh with ⟨exc, hexc, rfl, rfl⟩ | ⟨found, hfound, rfl, rfl⟩
  · cases hrow : state.row with
    | none => simp [hrow] at hcolumns
    | some found => simp [hrow, Routes.refresh] at hexc
  · refine ⟨?_, hkeep⟩
    cases hrow : state.row with
    | none => simp [hrow, Routes.refresh] at hfound
    | some current =>
        simp only [hrow, Routes.refresh, Except.ok.injEq] at hfound
        subst hfound
        simp only [hrow, Option.map_some, Option.some_inj, columns,
          Prod.mk.injEq] at hcolumns
        rintro other body' createdAt' hinput hother
        cases hinput
        rw [hrequest, Option.some_inj] at hother
        cases hother
        exact ⟨hcolumns.1.trans hcarries.1, hcolumns.2.1.trans hcarries.2.1,
          hcolumns.2.2.trans hcarries.2.2⟩

theorem InOrder.step (h : InOrder userId requests first state order)
    {after : QuotaState} {step : QuotaStep} {answer : QuotaAnswer}
    (hstep : quotaMachine userId requests state step = some (answer, after))
    (hundisturbed : Undisturbed userId requests state step) :
    Succeeds requests ⟨state, step, answer, after⟩ ∧
      ∃ order, InOrder userId requests first after order := by
  rcases quotaMachine_cases hstep with
    ⟨id, body, createdAt, rfl, hrequest, hphase, hselect⟩ |
    ⟨id, body, createdAt, existing, rfl, hrequest, hphase, hcommit⟩ |
    ⟨id, rfl, hrequest, hphase, hdelete⟩ |
    ⟨id, body, createdAt, left, rfl, hrequest, hphase, hrefresh⟩
  · -- SELECT
    have hfound : selectQuota userId state.row = .ok state.row :=
      if_pos hundisturbed
    rcases hselect with ⟨exc, hexc, -⟩ | ⟨existing, -, rfl, rfl⟩
    · rw [hfound] at hexc
      cases hexc
    · refine ⟨trivial, order, h.advance ?_ fun left => by simp⟩
      simp [QuotaPhase.IsDone, hphase]
  · -- the commit of a PUT
    have hwhole : CommitsWhole userId existing body state.row := by
      simpa only [Undisturbed, hrequest, hphase] using hundisturbed
    have hupsert := (commitUpsert_eq_iff userId existing state.row body
      createdAt).mpr hwhole
    rcases hcommit with ⟨exc, hexc, -⟩ | ⟨row, hrow, rfl, rfl⟩
    · rw [hupsert] at hexc
      cases hexc
    · rw [hupsert, Except.ok.injEq] at hrow
      subst hrow
      refine ⟨trivial, order ++ [id], ?_⟩
      have hrow : some (upserted body createdAt state.row) =
          (QuotaRequest.put body createdAt).rowAfter userId state.row := by
        rw [QuotaRequest.rowAfter, upsertQuota_eq hwhole.1]
      rw [hrow]
      refine h.commit hrequest (by simp [hphase, QuotaPhase.IsDone]) trivial ?_
      rintro body' createdAt' left hput hleft
      cases hput
      cases hleft
      exact ⟨_, hrow.symm, upserted_carries body createdAt state.row⟩
  · -- DELETE
    have hnone : deleteQuota userId state.row = .ok none := by
      simp only [Undisturbed, hrequest, hphase] at hundisturbed
      exact if_pos hundisturbed
    rcases hdelete with ⟨exc, hexc, -⟩ | ⟨row, hrow, rfl, rfl⟩
    · rw [hnone] at hexc
      cases hexc
    · have hafter : row = QuotaRequest.delete.rowAfter userId state.row := by
        rw [QuotaRequest.rowAfter, hrow]
      rw [hafter]
      refine ⟨trivial, order ++ [id], ?_⟩
      exact h.commit hrequest (by simp [hphase, QuotaPhase.IsDone]) trivial
        (fun body createdAt left hput => by cases hput)
  · -- the refresh of a PUT
    have hcolumns : state.row.map columns = left.map columns := by
      simpa only [Undisturbed, hphase] using hundisturbed
    obtain ⟨hsucceeds, hkeep⟩ := h.refresh hrequest hphase hcolumns hrefresh
    exact ⟨hsucceeds, order, hkeep⟩

end Steps

/-! ## Whole runs -/

theorem inOrder_start (userId : String) (requests : List QuotaRequest)
    (first : Option UserQuotaOverride) :
    InOrder userId requests first (quotaStart first) [] where
  nodup := List.nodup_nil
  mem_iff id := by simp [quotaStart, QuotaPhase.IsDone]
  row_eq := rfl
  carries id body createdAt left _ hphase := by cases hphase

theorem inOrder_run {userId : String} {requests : List QuotaRequest}
    {first : Option UserQuotaOverride} {history : List QuotaEntry}
    {last : QuotaState}
    (hrun : History (quotaMachine userId requests) (quotaStart first) history
      last)
    (hundisturbed : ∀ entry ∈ history,
      Undisturbed userId requests entry.before entry.input) :
    (∀ entry ∈ history, Succeeds requests entry) ∧
      ∃ order, InOrder userId requests first last order := by
  induction hrun with
  | start => exact ⟨by simp, [], inOrder_start userId requests first⟩
  | @next past before after step answer hpast hstep ih =>
      obtain ⟨hsucceed, order, horder⟩ := ih fun entry hmem =>
        hundisturbed entry (List.mem_cons_of_mem _ hmem)
      obtain ⟨hentry, hafter⟩ := horder.step hstep
        (hundisturbed _ List.mem_cons_self)
      refine ⟨?_, hafter⟩
      intro entry hmem
      rcases List.mem_cons.mp hmem with rfl | hmem
      · exact hentry
      · exact hsucceed entry hmem

theorem undisturbed_serializable {userId : String}
    {requests : List QuotaRequest} {first : Option UserQuotaOverride}
    {history : List QuotaEntry} {last : QuotaState}
    (hrun : History (quotaMachine userId requests) (quotaStart first) history
      last)
    (hundisturbed : ∀ entry ∈ history,
      Undisturbed userId requests entry.before entry.input) :
    Serializable userId requests first history last := by
  obtain ⟨hsucceed, order, horder⟩ := inOrder_run hrun hundisturbed
  refine ⟨hsucceed, ?_⟩
  intro hfinished
  refine ⟨order, ?_, horder.row_eq⟩
  rw [List.perm_ext_iff_of_nodup horder.nodup List.nodup_range]
  intro id
  rw [horder.mem_iff, List.mem_range]
  constructor
  · rintro ⟨⟨request, hrequest⟩, -⟩
    exact (List.getElem?_eq_some_iff.mp hrequest).1
  · intro hid
    rw [hfinished id hid]
    exact ⟨⟨_, List.getElem?_eq_getElem hid⟩, trivial⟩

/-! ## Two first overrides at once -/

def firstBody : QuotaOverrideCreate :=
  { customLimit := 10, reason := none, expiresAt := none,
    customLimit_pos := by decide, customLimit_le := by decide,
    reason_length_le := by simp }

def secondBody : QuotaOverrideCreate :=
  { customLimit := 20, reason := none, expiresAt := none,
    customLimit_pos := by decide, customLimit_le := by decide,
    reason_length_le := by simp }

def twoPuts : List QuotaRequest := [.put firstBody 1, .put secondBody 2]

theorem undisturbed_serializable_twoPuts :
    let run := played (quotaMachine "alice" twoPuts) (quotaStart none)
      [.select 0, .commit 0, .select 1, .refresh 0, .commit 1, .refresh 1]
    Serializable "alice" twoPuts none run.1 run.2 ∧
      ∀ id < twoPuts.length, run.2.phase id = .finished := by
  intro run
  refine ⟨undisturbed_serializable (history_played (by decide +kernel))
    (by decide +kernel), ?_⟩
  intro id hid
  match id, hid with
  | 0, _ => rfl
  | 1, _ => rfl

theorem second_insert_fails :
    ¬ ∀ (userId : String) (requests : List QuotaRequest)
      (first : Option UserQuotaOverride) (history : List QuotaEntry)
      (last : QuotaState),
      History (quotaMachine userId requests) (quotaStart first) history last →
        Serializable userId requests first history last := by
  intro hserializable
  let run := played (quotaMachine "alice" twoPuts) (quotaStart none)
    [.select 0, .select 1, .commit 0, .commit 1]
  have hrun := hserializable "alice" twoPuts none run.1 run.2
    (history_played (by decide +kernel))
  have hfailed : ∃ entry ∈ run.1,
      entry.output = .failed .integrityError := by decide +kernel
  obtain ⟨entry, hmem, houtput⟩ := hfailed
  have hsucceeds := hrun.1 entry hmem
  rw [Succeeds, houtput] at hsucceeds
  exact hsucceeds

end RateLimitedGateway.Routes
