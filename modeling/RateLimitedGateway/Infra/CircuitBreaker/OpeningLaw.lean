import RateLimitedGateway.Infra.CircuitBreaker.Calls

/-!
# When the breaker opens

The failure counter is bumped in all three states, reset in two of them and
left alone by a late success in the third.  One invariant ties it to the state:
the breaker is closed exactly while the counter is below the threshold.  While
it is closed, the counter is a function of the history of completions.
-/

namespace RateLimitedGateway.Infra

open RateLimitedGateway.Foundation

variable {ε α γ : Type} {breaker : CircuitBreaker}

namespace CircuitBreaker

def Tripped (breaker : CircuitBreaker) (circuit : Circuit) : Prop :=
  circuit.state ≠ .closed → breaker.threshold ≤ circuit.failures

def Holding (breaker : CircuitBreaker) (circuit : Circuit) : Prop :=
  circuit.state = .closed → (circuit.failures : Int) < breaker.threshold

theorem initial_tripped (breaker : CircuitBreaker) :
    breaker.Tripped initial := by
  simp [Tripped, initial]

theorem initial_holding (hthreshold : 1 ≤ breaker.threshold) :
    breaker.Holding initial := by
  intro _
  simp only [initial, Nat.cast_zero]
  omega

theorem onFailure_tripped {circuit : Circuit} (h : breaker.Tripped circuit)
    (now : ℚ) : breaker.Tripped (breaker.onFailure circuit now) := by
  intro hstate
  rw [onFailure_failures, Nat.cast_succ]
  by_cases hclosed : circuit.state = .closed
  · by_cases hcount : breaker.threshold ≤ (circuit.failures : Int) + 1
    · exact hcount
    · rw [onFailure_of_holds (by simp [hclosed]) (not_le.mp hcount)] at hstate
      exact absurd hclosed hstate
  · have := h hclosed
    omega

theorem onFailure_holding (circuit : Circuit) (now : ℚ) :
    breaker.Holding (breaker.onFailure circuit now) := by
  intro hclosed
  by_cases htrips : circuit.state = .halfOpen ∨
      breaker.threshold ≤ (circuit.failures : Int) + 1
  · rw [onFailure_of_trips htrips] at hclosed
    cases hclosed
  · rw [onFailure_failures, Nat.cast_succ]
    rw [not_or, not_le] at htrips
    exact htrips.2

theorem onSuccess_tripped {circuit : Circuit} (h : breaker.Tripped circuit) :
    breaker.Tripped (onSuccess circuit) := by
  by_cases hopened : circuit.state = .opened
  · rwa [onSuccess_of_opened hopened]
  · rw [onSuccess_of_ne_opened hopened]
    intro hstate
    exact absurd rfl hstate

theorem onSuccess_holding (hthreshold : 1 ≤ breaker.threshold)
    {circuit : Circuit} (h : breaker.Holding circuit) :
    breaker.Holding (onSuccess circuit) := by
  by_cases hopened : circuit.state = .opened
  · rwa [onSuccess_of_opened hopened]
  · rw [onSuccess_of_ne_opened hopened]
    intro _
    simp only [Nat.cast_zero]
    omega

theorem tripped_of_history {clock : ℚ} {last : Calls γ}
    {history : List (CallEntry ε α γ)}
    (h : History breaker.step (Calls.fresh clock) history last) :
    breaker.Tripped last.circuit := by
  apply circuit_invariant (P := breaker.Tripped) ?_ ?_ ?_ ?_ h
  · intro circuit hopened htripped _
    exact htripped (by simp [hopened])
  · intro circuit
    exact onSuccess_tripped
  · intro circuit now htripped
    exact onFailure_tripped htripped now
  · exact initial_tripped breaker

theorem holding_of_history (hthreshold : 1 ≤ breaker.threshold) {clock : ℚ}
    {last : Calls γ} {history : List (CallEntry ε α γ)}
    (h : History breaker.step (Calls.fresh clock) history last) :
    breaker.Holding last.circuit := by
  apply circuit_invariant (P := breaker.Holding) ?_ ?_ ?_ ?_ h
  · intro circuit _ _ hclosed
    cases hclosed
  · intro circuit
    exact onSuccess_holding hthreshold
  · intro circuit now _
    exact onFailure_holding circuit now
  · exact initial_holding hthreshold

theorem closed_iff_of_history (hthreshold : 1 ≤ breaker.threshold) {clock : ℚ}
    {last : Calls γ} {history : List (CallEntry ε α γ)}
    (h : History breaker.step (Calls.fresh clock) history last) :
    last.circuit.state = .closed ↔
      (last.circuit.failures : Int) < breaker.threshold := by
  constructor
  · exact holding_of_history hthreshold h
  · intro hbelow
    by_contra hclosed
    exact absurd (tripped_of_history h hclosed) (not_le.mpr hbelow)

end CircuitBreaker

/-! ## The counter as a function of the history -/

namespace CallEvent

def Fails : CallEvent ε α γ → Prop
  | .finish _ (.raised _) _ => True
  | _ => False

def Succeeds : CallEvent ε α γ → Prop
  | .finish _ (.returned _) _ => True
  | _ => False

instance (event : CallEvent ε α γ) : Decidable event.Fails :=
  match event with
  | .arrive _ _ => .isFalse id
  | .finish _ (.returned _) _ => .isFalse id
  | .finish _ (.raised _) _ => .isTrue trivial
  | .finish _ .cancelled _ => .isFalse id

instance (event : CallEvent ε α γ) : Decidable event.Succeeds :=
  match event with
  | .arrive _ _ => .isFalse id
  | .finish _ (.returned _) _ => .isTrue trivial
  | .finish _ (.raised _) _ => .isFalse id
  | .finish _ .cancelled _ => .isFalse id

end CallEvent

def ResetsCount (entry : CallEntry ε α γ) : Prop :=
  (entry.input.Succeeds ∧ entry.before.circuit.state = .closed) ∨
    (entry.before.circuit.state = .halfOpen ∧
      entry.after.circuit.state = .closed)

instance (entry : CallEntry ε α γ) : Decidable (ResetsCount entry) :=
  inferInstanceAs (Decidable (_ ∨ _))

def failedSinceReset : List (CallEntry ε α γ) → Nat
  | [] => 0
  | entry :: past =>
      if ResetsCount entry then 0
      else if entry.input.Fails then failedSinceReset past + 1
      else failedSinceReset past

namespace CircuitBreaker

theorem failures_eq_of_history {clock : ℚ} {last : Calls γ}
    {history : List (CallEntry ε α γ)}
    (h : History breaker.step (Calls.fresh clock) history last) :
    last.circuit.state = .closed →
      last.circuit.failures = failedSinceReset history := by
  induction h with
  | start =>
      intro _
      rfl
  | @next past before after event outcome hpast hstep ih =>
      intro hclosed
      obtain ⟨func, now, circuit, rfl, _, henter, _, rfl⟩ |
        ⟨func, now, exc, rfl, _, henter, _, rfl⟩ |
        ⟨id, ending, now, rfl, _, _, _, rfl⟩ := step_cases hstep
      · rcases enter_eq_ok henter with ⟨_, rfl⟩ | ⟨_, _, rfl⟩
        · simp only at hclosed
          simp [failedSinceReset, ResetsCount, CallEvent.Succeeds,
            CallEvent.Fails, hclosed, ih hclosed]
        · cases hclosed
      · have hopened := (enter_eq_error_iff.mp henter).1
        simp [hopened] at hclosed
      · cases ending with
        | returned result =>
            simp only [leave] at hclosed ⊢
            by_cases hopened : before.circuit.state = .opened
            · rw [onSuccess_of_opened hopened, hopened] at hclosed
              cases hclosed
            · have hreset : ResetsCount (⟨before, .finish id (.returned result)
                  now, outcome, { before with
                    circuit := onSuccess before.circuit
                    clock := now
                    running := Calls.without before.running id }⟩ :
                  CallEntry ε α γ) := by
                cases hbefore : before.circuit.state with
                | closed => exact .inl ⟨trivial, hbefore⟩
                | opened => exact absurd hbefore hopened
                | halfOpen => exact .inr ⟨hbefore, hclosed⟩
              simp only [failedSinceReset]
              rw [if_pos hreset, onSuccess_of_ne_opened hopened]
        | raised exc =>
            simp only [leave] at hclosed ⊢
            -- a failure that leaves the breaker closed found it closed
            have hholds : ¬ (before.circuit.state = .halfOpen ∨
                breaker.threshold ≤ (before.circuit.failures : Int) + 1) := by
              intro htrips
              rw [onFailure_of_trips htrips] at hclosed
              cases hclosed
            rw [not_or, not_le] at hholds
            rw [onFailure_of_holds hholds.1 hholds.2] at hclosed
            rw [onFailure_failures, ih hclosed]
            simp only at hclosed
            simp [failedSinceReset, ResetsCount, CallEvent.Succeeds,
              CallEvent.Fails, hclosed]
        | cancelled =>
            simp only [leave] at hclosed ⊢
            simp [failedSinceReset, ResetsCount, CallEvent.Succeeds,
              CallEvent.Fails, hclosed, ih hclosed]

theorem opens_iff {before after : Calls γ} {event : CallEvent ε α γ}
    {outcome : CallOutcome ε α} (hclosed : before.circuit.state = .closed)
    (hstep : breaker.step before event = some (outcome, after)) :
    after.circuit.state = .opened ↔
      event.Fails ∧
        breaker.threshold ≤ (before.circuit.failures : Int) + 1 := by
  obtain ⟨func, now, circuit, rfl, _, henter, _, rfl⟩ |
    ⟨func, now, exc, rfl, _, henter, _, rfl⟩ |
    ⟨id, ending, now, rfl, _, _, _, rfl⟩ := step_cases hstep
  · rcases enter_eq_ok henter with ⟨_, rfl⟩ | ⟨hopened, _, _⟩
    · simp [CallEvent.Fails, hclosed]
    · simp [hopened] at hclosed
  · have hopened := (enter_eq_error_iff.mp henter).1
    simp [hopened] at hclosed
  · cases ending with
    | returned result => simp [leave, CallEvent.Fails, onSuccess, hclosed]
    | raised exc =>
        by_cases hcount :
            breaker.threshold ≤ (before.circuit.failures : Int) + 1
        · simp [leave, onFailure_of_trips (.inr hcount), CallEvent.Fails,
            hcount]
        · have hbelow := not_le.mp hcount
          simp [leave, onFailure_of_holds (by simp [hclosed]) hbelow,
            CallEvent.Fails, hclosed, hcount]
    | cancelled => simp [leave, CallEvent.Fails, hclosed]

/--
In every reachable state the breaker is closed exactly while its counter is
below the threshold, the counter of a closed breaker counts the failed
completions since the latest reset, and a closed breaker opens exactly at the
failure that completes a run of `threshold` of them.
-/
theorem opening_law (hthreshold : 1 ≤ breaker.threshold) {clock : ℚ}
    {last : Calls γ} {history : List (CallEntry ε α γ)}
    (h : History breaker.step (Calls.fresh clock) history last) :
    (last.circuit.state = .closed ↔
      (last.circuit.failures : Int) < breaker.threshold) ∧
    (last.circuit.state = .closed →
      last.circuit.failures = failedSinceReset history) ∧
    ∀ (event : CallEvent ε α γ) outcome after,
      breaker.step last event = some (outcome, after) →
      last.circuit.state = .closed →
      (after.circuit.state = .opened ↔ event.Fails ∧
        (failedSinceReset history : Int) + 1 = breaker.threshold) := by
  refine ⟨closed_iff_of_history hthreshold h, failures_eq_of_history h, ?_⟩
  intro event outcome after hstep hclosed
  have hbelow := (closed_iff_of_history hthreshold h).mp hclosed
  rw [opens_iff hclosed hstep, failures_eq_of_history h hclosed]
  rw [failures_eq_of_history h hclosed] at hbelow
  constructor
  · rintro ⟨hfails, hcount⟩
    exact ⟨hfails, by omega⟩
  · rintro ⟨hfails, hcount⟩
    exact ⟨hfails, by omega⟩

def twoFailures : List (CallEvent Unit Unit Unit) :=
  [.arrive () 0, .arrive () 0, .finish 1 (.raised ()) 1,
    .finish 0 (.raised ()) 2]

theorem opening_law_twoFailures :
    (played (step upstreamBreaker) (Calls.fresh 0)
        twoFailures).2.circuit.failures =
      failedSinceReset (played (step upstreamBreaker) (Calls.fresh 0)
        twoFailures).1 := by
  have hrun := history_played (by decide +kernel : (replay
    (step upstreamBreaker) [] (Calls.fresh 0) twoFailures).isSome)
  exact (opening_law (by decide) hrun).2.1 (by decide +kernel)

end CircuitBreaker

end RateLimitedGateway.Infra
