import RateLimitedGateway.Main.Fleet.Admission

/-!
# The order of a request's effects

Whatever other requests do in between, a request passes through the stages of
the source one after the other: it is checked, enters the breaker, calls the
upstream, records the result and is written down, each at most once.
-/

namespace RateLimitedGateway.Main

open RateLimitedGateway.Core RateLimitedGateway.Foundation
open RateLimitedGateway.Http RateLimitedGateway.Infra
open RateLimitedGateway.Middleware RateLimitedGateway.Routes
open RateLimitedGateway.Services
open Coroutine (InOrder Keeps inOrder_of_leads keeps_await keeps_pure ordering)

variable {jobs : ℕ → Job} {shared : Shared} {last : Fleet}
variable {history : List FleetEntry}

def Question.stage : Question → ℕ
  | healthCounts => 0
  | selectOverride _ => 1
  | utcNow => 2
  | check _ _ _ => 3
  | enterBreaker => 4
  | finishCall _ _ => 5
  | record _ => 6
  | selectQuota _ => 4
  | commitQuota _ _ _ => 5
  | refreshQuota _ => 6
  | deleteQuota _ => 4
  | writeLog _ => 7

def nextStage : Turn Question.Answer → ℕ
  | ⟨.selectOverride _, .error _⟩ => 7
  | ⟨.check _ _ _, result⟩ => if result.allowed then 4 else 7
  | ⟨.enterBreaker, .error _⟩ => 6
  | ⟨.commitQuota _ _ _, .error _⟩ => 7
  | ⟨question, _⟩ => question.stage + 1

def Question.isCheck : Question → Bool
  | check _ _ _ => true
  | _ => false

/-- A question is the next one, or the log; a check is of the accepted user. -/
def Follows (accepted : Option Claims) (reached : ℕ) (question : Question) :
    Prop :=
  (question.stage = reached ∨ question.stage = 7 ∧ reached ≤ 7) ∧
    ∀ userId baseLimit healthFactor,
      question = .check userId baseLimit healthFactor →
        accepted.map Claims.sub = some userId

namespace App

variable (app : App) (front : QuotaFront) (request : Request)

def firstStage : ℕ :=
  if isPublic authPublicPrefixes request.url.path then 4 else 0

abbrev orderly := ordering (Follows (app.acceptedClaims request)) nextStage

variable {app front request}

theorem orderly_await {α : Type} {ends : ℕ → α → Prop} {question : Question}
    {resume : question.Answer → Task α} {reached : ℕ}
    (hstage : question.stage = reached)
    (hcheck : question.isCheck = false)
    (hresume : ∀ reply, Keeps (app.orderly request) ends (resume reply)
      (nextStage ⟨question, reply⟩)) :
    Keeps (app.orderly request) ends (.await question resume) reached := by
  refine keeps_await ⟨.inl hstage, ?_⟩ fun reply _ => hresume reply
  rintro userId baseLimit healthFactor rfl
  cases hcheck

theorem orderly_afterRecordingTask (conclusion : Conclusion) :
    Keeps (app.orderly request) (fun reached _ => reached ≤ 7)
      (afterRecordingTask conclusion) 6 := by
  unfold afterRecordingTask
  cases conclusion.recorded with
  | none => exact keeps_pure (Nat.le_of_ble_eq_true rfl)
  | some success =>
      refine orderly_await rfl rfl ?_
      rintro (text | _) <;> exact keeps_pure (Nat.le_of_ble_eq_true rfl)

theorem orderly_handledTask (state : RequestState) :
    Keeps (app.orderly request) (fun reached _ => reached ≤ 7)
      (app.handledTask front request state) 4 := by
  refine app.keeps_handledTask_of front request (by decide) ?_
  intro endpoint parameter _
  cases endpoint with
  | proxy =>
      refine orderly_await rfl rfl ?_
      rintro (exc | call)
      · exact orderly_afterRecordingTask (conclude (.error exc))
      · exact orderly_await rfl rfl fun ending =>
          orderly_afterRecordingTask (conclude (.ok ending))
  | upsertQuota =>
      simp only [handlerTask]
      cases front.readBody request with
      | none => exact keeps_pure (Nat.le_of_ble_eq_true rfl)
      | some body =>
          refine orderly_await rfl rfl ?_
          rintro (exc | existing)
          · exact keeps_pure (Nat.le_of_ble_eq_true rfl)
          refine orderly_await rfl rfl ?_
          rintro (exc | _)
          · exact keeps_pure (Nat.le_of_ble_eq_true rfl)
          refine orderly_await rfl rfl ?_
          rintro (exc | override) <;>
            exact keeps_pure (Nat.le_of_ble_eq_true rfl)
  | getQuota =>
      refine orderly_await rfl rfl ?_
      rintro (exc | _ | override) <;>
        exact keeps_pure (Nat.le_of_ble_eq_true rfl)
  | deleteQuota =>
      refine orderly_await rfl rfl ?_
      rintro (exc | _) <;> exact keeps_pure (Nat.le_of_ble_eq_true rfl)
  | _ => exact keeps_pure (Nat.le_of_ble_eq_true rfl)

theorem orderly_limitedTask {state : RequestState}
    (hpassed : app.passed request = some state) :
    Keeps (app.orderly request) (fun reached _ => reached ≤ 7)
      (app.limitedTask front request state) (firstStage request) := by
  unfold firstStage
  obtain ⟨hpublic, -, htask⟩ | ⟨claims, haccepted, hprivate, htask⟩ :=
    app.limitedTask_cases front request hpassed
  · rw [htask, if_pos hpublic]
    exact orderly_handledTask _
  · rw [htask, hprivate, if_neg Bool.false_ne_true]
    refine orderly_await rfl rfl fun counts => orderly_await rfl rfl ?_
    rintro (text | row)
    · exact keeps_pure (Nat.le_of_ble_eq_true rfl)
    refine orderly_await rfl rfl fun utcNow => ?_
    change Keeps _ _ (if overflows _ = true then _ else _) 3
    split
    · exact keeps_pure (Nat.le_of_ble_eq_true rfl)
    refine keeps_await ⟨.inl rfl, ?_⟩ fun result _ => ?_
    · rintro userId baseLimit healthFactor ⟨⟩
      rw [haccepted]
      rfl
    change Keeps _ _ (if result.allowed = true then _ else _)
      (if result.allowed = true then 4 else 7)
    split
    · exact (orderly_handledTask _).bind fun _ _ hreached => hreached
    · exact keeps_pure (Nat.le_of_ble_eq_true rfl)

theorem orderly_requestTask :
    Keeps (app.orderly request) (fun _ _ => True)
      (app.requestTask front request) (firstStage request) := by
  have hserve : Keeps (app.orderly request) (fun reached _ => reached ≤ 7)
      (app.serveTask front request) (firstStage request) := by
    unfold serveTask
    cases hpassed : app.passed request with
    | none =>
        apply keeps_pure
        unfold firstStage
        split <;> decide
    | some state =>
        exact (orderly_limitedTask hpassed).bind fun _ _ hreached => hreached
  refine hserve.bind fun reached served hreached => ?_
  split
  · trivial
  · refine keeps_await ⟨.inr ⟨rfl, hreached⟩, ?_⟩ fun _ _ => trivial
    rintro userId baseLimit healthFactor ⟨⟩

end App

/-! ## What the order comes to -/

variable {accepted : Option Claims} {start : ℕ}
variable {turns : List (Turn Question.Answer)}

theorem stage_lt_nextStage (turn : Turn Question.Answer) :
    turn.1.stage < nextStage turn := by
  obtain ⟨question, reply⟩ := turn
  cases question with
  | selectOverride userId => cases reply <;> exact Nat.le_of_ble_eq_true rfl
  | check userId baseLimit healthFactor =>
      simp only [nextStage, Question.stage]
      split <;> decide
  | enterBreaker => cases reply <;> exact Nat.le_of_ble_eq_true rfl
  | commitQuota userId existing body =>
      cases reply <;> exact Nat.le_of_ble_eq_true rfl
  | _ => exact Nat.lt_succ_self _

theorem stages_increase
    (h : InOrder (Follows accepted) nextStage start turns) :
    turns.Pairwise fun later earlier => earlier.1.stage < later.1.stage := by
  induction turns with
  | nil => exact List.Pairwise.nil
  | cons turn earlier ih =>
      have hearlier := ih h.2
      refine List.pairwise_cons.mpr ⟨?_, hearlier⟩
      cases earlier with
      | nil => simp
      | cons latest earlier =>
          have hlatest : latest.1.stage < turn.1.stage := by
            have hnext := stage_lt_nextStage latest
            have hfollows : turn.1.stage = nextStage latest ∨
                turn.1.stage = 7 ∧ nextStage latest ≤ 7 := h.1.1
            omega
          intro other hmem
          rcases List.mem_cons.mp hmem with rfl | hrest
          · exact hlatest
          · exact (List.rel_of_pairwise_cons hearlier hrest).trans hlatest

theorem allowed_or_begun {turn : Turn Question.Answer}
    (hlow : 4 ≤ nextStage turn) (hhigh : nextStage turn ≤ 6) :
    (∃ userId baseLimit healthFactor result,
      turn = ⟨.check userId baseLimit healthFactor, result⟩ ∧
        result.allowed = true) ∨ 4 ≤ turn.1.stage := by
  obtain ⟨question, reply⟩ := turn
  cases question with
  | healthCounts => simp [nextStage, Question.stage] at hlow
  | selectOverride userId =>
      cases reply <;> simp [nextStage, Question.stage] at hlow hhigh
  | utcNow => simp [nextStage, Question.stage] at hlow
  | check userId baseLimit healthFactor =>
      left
      refine ⟨userId, baseLimit, healthFactor, reply, rfl, ?_⟩
      by_contra hdenied
      simp [nextStage, hdenied] at hhigh
  | _ => exact .inr (Nat.le_of_ble_eq_true rfl)

theorem checked_before {turn : Turn Question.Answer}
    {earlier : List (Turn Question.Answer)}
    (h : InOrder (Follows accepted) nextStage 0 (turn :: earlier))
    (hlow : 4 ≤ turn.1.stage) (hhigh : turn.1.stage ≤ 6) :
    ∃ userId baseLimit healthFactor result,
      accepted.map Claims.sub = some userId ∧
        ⟨.check userId baseLimit healthFactor, result⟩ ∈ earlier ∧
          result.allowed = true := by
  induction earlier generalizing turn with
  | nil =>
      have hfollows : turn.1.stage = 0 ∨ turn.1.stage = 7 ∧ 0 ≤ 7 := h.1.1
      omega
  | cons latest earlier ih =>
      have hfollows : turn.1.stage = nextStage latest ∨
          turn.1.stage = 7 ∧ nextStage latest ≤ 7 := h.1.1
      have hnext : nextStage latest = turn.1.stage := by omega
      rcases allowed_or_begun (hnext ▸ hlow) (hnext ▸ hhigh) with
        ⟨userId, baseLimit, healthFactor, result, rfl, hallowed⟩ | hbegun
      · exact ⟨userId, baseLimit, healthFactor, result, h.2.1.2 _ _ _ rfl,
          List.mem_cons_self, hallowed⟩
      · have hstage := stage_lt_nextStage latest
        obtain ⟨userId, baseLimit, healthFactor, result, huser, hmem,
          hallowed⟩ := ih h.2 hbegun (by omega)
        exact ⟨userId, baseLimit, healthFactor, result, huser,
          List.mem_cons_of_mem _ hmem, hallowed⟩

theorem stage_of_isHandlers {question : Question}
    (hhandlers : question.isHandlers = true) :
    4 ≤ question.stage ∧ question.stage ≤ 6 := by
  cases question with
  | healthCounts => cases hhandlers
  | selectOverride userId => cases hhandlers
  | utcNow => cases hhandlers
  | check userId baseLimit healthFactor => cases hhandlers
  | writeLog entry => cases hhandlers
  | _ => exact ⟨Nat.le_of_ble_eq_true rfl, Nat.le_of_ble_eq_true rfl⟩

/--
At any time the turns that a request has taken are in the order of the stages,
without a repetition; on a path that is not public, whatever a handler does
comes after an allowed check of the accepted user.
-/
theorem effects_in_order
    (h : History (fleetMachine jobs) (fleetStart jobs shared) history last)
    (id : ℕ) :
    (turnsOf id history).Pairwise
        (fun later earlier => earlier.1.stage < later.1.stage) ∧
      (isPublic authPublicPrefixes (jobs id).request.url.path = false →
        ∀ later turn earlier, turnsOf id history = later ++ turn :: earlier →
          turn.1.isHandlers = true →
          ∃ claims baseLimit healthFactor result,
            (jobs id).app.acceptedClaims (jobs id).request = some claims ∧
              ⟨.check claims.sub baseLimit healthFactor, result⟩ ∈ earlier ∧
              result.allowed = true) := by
  have hkeeps : Keeps ((jobs id).app.orderly (jobs id).request)
      (fun _ _ => True) ((fleetStart jobs shared).process id)
      (App.firstStage (jobs id).request) := App.orderly_requestTask
  have horder := inOrder_of_leads hkeeps (leads_of_history h id)
  refine ⟨stages_increase horder, ?_⟩
  intro hprivate later turn earlier hturns hhandlers
  rw [App.firstStage, hprivate, hturns] at horder
  obtain ⟨hlow, hhigh⟩ := stage_of_isHandlers hhandlers
  obtain ⟨userId, baseLimit, healthFactor, result, huser, hmem, hallowed⟩ :=
    checked_before horder.of_append hlow hhigh
  obtain ⟨claims, haccepted, rfl⟩ := Option.map_eq_some_iff.mp huser
  exact ⟨claims, baseLimit, healthFactor, result, haccepted, hmem, hallowed⟩

theorem effects_in_order_twoVisits :
    ((turnsOf 0 twoVisits.1).map (·.1.stage)).reverse =
        [0, 1, 2, 3, 4, 5, 6, 7] ∧
      (turnsOf 0 twoVisits.1).Pairwise
        fun later earlier => earlier.1.stage < later.1.stage :=
  ⟨by decide +kernel, (effects_in_order twoVisits_history 0).1⟩

end RateLimitedGateway.Main
