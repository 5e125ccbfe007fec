import RateLimitedGateway.Infra.CircuitBreaker.OpenPeriod

/-!
# How often the breaker turns

Time and failures are what it takes to get round once.  Each opening of a closed
breaker uses up a threshold of failures, and each probing an open period, and
nothing is used twice, whatever other calls do in between.
-/

namespace RateLimitedGateway.Infra

open RateLimitedGateway.Foundation

variable {ε α γ : Type} {breaker : CircuitBreaker}

def Trips (entry : CallEntry ε α γ) : Prop :=
  entry.before.circuit.state = .closed ∧ entry.after.circuit.state = .opened

def Probes (entry : CallEntry ε α γ) : Prop :=
  entry.before.circuit.state = .opened ∧ entry.after.circuit.state = .halfOpen

instance (entry : CallEntry ε α γ) : Decidable (Trips entry) :=
  inferInstanceAs (Decidable (_ ∧ _))

instance (entry : CallEntry ε α γ) : Decidable (Probes entry) :=
  inferInstanceAs (Decidable (_ ∧ _))

def trips (history : List (CallEntry ε α γ)) : ℕ :=
  history.countP fun entry => Trips entry

def probings (history : List (CallEntry ε α γ)) : ℕ :=
  history.countP fun entry => Probes entry

def failedCalls (history : List (CallEntry ε α γ)) : ℕ :=
  history.countP fun entry => entry.input.Fails

/-- The failures that no opening has used up. -/
def Circuit.unused (circuit : Circuit) : ℕ :=
  if circuit.state = .closed then circuit.failures else 0

namespace Calls

def reached (calls : Calls γ) : ℚ :=
  if calls.circuit.state = .opened then calls.circuit.openedAt
  else calls.clock

theorem reached_le_clock {calls : Calls γ}
    (h : calls.circuit.state = .opened → calls.circuit.openedAt ≤ calls.clock) :
    calls.reached ≤ calls.clock := by
  unfold reached
  split
  · next hopened => exact h hopened
  · rfl

end Calls

namespace CircuitBreaker

theorem probes_elapsed {before after : Calls γ} {event : CallEvent ε α γ}
    {outcome : CallOutcome ε α}
    (hstep : breaker.step before event = some (outcome, after))
    (hprobes : Probes ⟨before, event, outcome, after⟩) :
    breaker.recoveryTimeout ≤ after.clock - before.circuit.openedAt := by
  obtain ⟨hopened, hhalf⟩ := hprobes
  simp only at hopened hhalf
  obtain ⟨_, now, circuit, _, _, henter, _, rfl⟩ |
    ⟨_, _, _, _, _, _, _, rfl⟩ | ⟨_, ending, now, _, _, _, _, rfl⟩ :=
      step_cases hstep
  · rcases enter_eq_ok henter with ⟨hne, _⟩ | ⟨_, helapsed, _⟩
    · exact absurd hopened hne
    · exact helapsed
  · rw [hopened] at hhalf
    cases hhalf
  · rw [leave_halfOpen hhalf] at hopened
    cases hopened

theorem step_reached {before after : Calls γ} {event : CallEvent ε α γ}
    {outcome : CallOutcome ε α} (htripped : breaker.Tripped before.circuit)
    (hbefore : before.circuit.state = .opened →
      before.circuit.openedAt ≤ before.clock)
    (hstep : breaker.step before event = some (outcome, after)) :
    before.reached + (if Probes ⟨before, event, outcome, after⟩ then
      breaker.recoveryTimeout else 0) ≤ after.reached := by
  have hclock := step_clock_le hstep
  have hreached := Calls.reached_le_clock hbefore
  by_cases hopened : after.circuit.state = .opened
  · have hnot : ¬ Probes ⟨before, event, outcome, after⟩ := by
      rintro ⟨-, hhalf⟩
      simp only [hopened] at hhalf
      cases hhalf
    rw [if_neg hnot, add_zero]
    rcases step_opened_cases htripped hstep hopened with
      ⟨hbefore, hsame, -⟩ | ⟨-, hreading⟩
    · simp only [Calls.reached, hsame, hbefore, if_true, le_refl]
    · have hafter : after.reached = after.clock := by
        simp only [Calls.reached, hopened, if_true, hreading,
          step_reading hstep]
      linarith
  · have hafter : after.reached = after.clock := if_neg hopened
    split
    · next hprobes =>
        have helapsed := probes_elapsed hstep hprobes
        have hsince : before.reached = before.circuit.openedAt :=
          if_pos hprobes.1
        linarith
    · linarith

theorem probings_of_history {clock : ℚ} {last : Calls γ}
    {history : List (CallEntry ε α γ)}
    (h : History breaker.step (Calls.fresh clock) history last) :
    clock + probings history * breaker.recoveryTimeout ≤ last.reached := by
  induction h with
  | start => simp [probings, Calls.reached, Calls.fresh, initial]
  | @next past before after event outcome hpast hstep ih =>
      have hstepped := step_reached (tripped_of_history hpast)
        (openedAt_le_clock hpast) hstep
      rw [probings, List.countP_cons, ← probings, Nat.cast_add, add_mul]
      by_cases hprobes : Probes ⟨before, event, outcome, after⟩ <;>
        simp only [hprobes, if_true, if_false, decide_true, decide_false,
          Nat.cast_one, Nat.cast_zero, Bool.false_eq_true] at hstepped ⊢ <;>
        linarith

theorem onSuccess_unused_le (circuit : Circuit) :
    (onSuccess circuit).unused ≤ circuit.unused := by
  by_cases hopened : circuit.state = .opened
  · rw [onSuccess_of_opened hopened]
  · rw [onSuccess_of_ne_opened hopened]
    exact Nat.zero_le _

theorem onFailure_unused_le (circuit : Circuit) (now : ℚ) :
    (breaker.onFailure circuit now).unused ≤ circuit.unused + 1 := by
  by_cases htrips : circuit.state = .halfOpen ∨
      breaker.threshold ≤ (circuit.failures : Int) + 1
  · rw [onFailure_of_trips htrips]
    exact Nat.zero_le _
  · rw [not_or, not_le] at htrips
    rw [onFailure_of_holds htrips.1 htrips.2]
    simp only [Circuit.unused]
    split <;> omega

theorem step_unused_le {before after : Calls γ} {event : CallEvent ε α γ}
    {outcome : CallOutcome ε α}
    (hstep : breaker.step before event = some (outcome, after)) :
    after.circuit.unused ≤
      before.circuit.unused + if event.Fails then 1 else 0 := by
  obtain ⟨_, _, _, rfl, _, henter, _, rfl⟩ | ⟨_, _, _, rfl, _, _, _, rfl⟩ |
    ⟨_, ending, now, rfl, _, _, _, rfl⟩ := step_cases hstep
  · rcases enter_eq_ok henter with ⟨_, rfl⟩ | ⟨_, _, rfl⟩
    · exact Nat.le_add_right _ _
    · exact Nat.zero_le _
  · exact Nat.le_add_right _ _
  · cases ending with
    | returned result => exact onSuccess_unused_le before.circuit
    | raised exc => exact onFailure_unused_le before.circuit now
    | cancelled => exact Nat.le_add_right _ _

theorem step_trips {before after : Calls γ} {event : CallEvent ε α γ}
    {outcome : CallOutcome ε α}
    (hstep : breaker.step before event = some (outcome, after)) :
    (after.circuit.unused : Int) +
        (if Trips ⟨before, event, outcome, after⟩ then
          breaker.threshold else 0) ≤
      before.circuit.unused + if event.Fails then 1 else 0 := by
  by_cases htrips : Trips ⟨before, event, outcome, after⟩
  · have hclosed : before.circuit.state = .closed := htrips.1
    have hopened : after.circuit.state = .opened := htrips.2
    obtain ⟨hfails, hcount⟩ := (opens_iff hclosed hstep).mp hopened
    have hused : after.circuit.unused = 0 := by simp [Circuit.unused, hopened]
    have hcounted : before.circuit.unused = before.circuit.failures :=
      if_pos hclosed
    rw [if_pos htrips, if_pos hfails, hused, hcounted]
    omega
  · rw [if_neg htrips, add_zero]
    exact_mod_cast step_unused_le hstep

theorem trips_of_history {clock : ℚ} {last : Calls γ}
    {history : List (CallEntry ε α γ)}
    (h : History breaker.step (Calls.fresh clock) history last) :
    trips history * breaker.threshold + last.circuit.unused ≤
      failedCalls history := by
  induction h with
  | start => simp [trips, failedCalls, Circuit.unused, Calls.fresh, initial]
  | @next past before after event outcome hpast hstep ih =>
      have hstepped := step_trips hstep
      rw [trips, failedCalls, List.countP_cons, List.countP_cons, ← trips,
        ← failedCalls, Nat.cast_add, Nat.cast_add, add_mul]
      by_cases htrips : Trips ⟨before, event, outcome, after⟩ <;>
        by_cases hfails : event.Fails <;>
        simp only [htrips, hfails, if_true, if_false, decide_true,
          decide_false, Nat.cast_one, Nat.cast_zero, Bool.false_eq_true]
          at hstepped ⊢ <;>
        linarith

end CircuitBreaker

end RateLimitedGateway.Infra
