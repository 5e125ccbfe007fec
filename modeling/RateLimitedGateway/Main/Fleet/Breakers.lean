import RateLimitedGateway.Infra.CircuitBreaker.Cycles
import RateLimitedGateway.Main.Fleet

/-!
# How often a worker's breaker turns

The bounds of one breaker hold for each worker, although the turns of its
requests are spread over those of the whole fleet.
-/

namespace RateLimitedGateway.Main

open RateLimitedGateway.Foundation RateLimitedGateway.Infra
open RateLimitedGateway.Routes

variable {jobs : ℕ → Job} {shared : Shared} {last : Fleet}
variable {history : List FleetEntry}

def changesOf (worker : ℕ) (source target : CircuitState)
    (history : List FleetEntry) : ℕ :=
  history.countP fun entry =>
    (entry.before.shared.breakers worker).circuit.state = source ∧
      (entry.after.shared.breakers worker).circuit.state = target

def failsAt (jobs : ℕ → Job) (worker : ℕ) (entry : FleetEntry) : Bool :=
  match entry.output with
  | ⟨.finishCall _ _, .raised _⟩ => (jobs entry.input.1).worker = worker
  | _ => false

def breakerHistory (jobs : ℕ → Job) (worker : ℕ) (history : List FleetEntry) :
    List (CallEntry HttpxError UpstreamResponse ℕ) :=
  history.filterMap (Entry.shown
    (fun fleet : Fleet => fleet.shared.breakers worker)
    (breakerView jobs worker))

theorem countP_breakerHistory (source target : CircuitState)
    (hne : source ≠ target) (worker : ℕ) {first : Fleet}
    (h : History (fleetMachine jobs) first history last) :
    (breakerHistory jobs worker history).countP
        (fun entry => entry.before.circuit.state = source ∧
          entry.after.circuit.state = target) =
      changesOf worker source target history := by
  let changes (before after : Calls ℕ) : Bool :=
    before.circuit.state = source ∧ after.circuit.state = target
  have hsame : ∀ calls, changes calls calls = false := by
    intro calls
    simp only [changes, decide_eq_false_iff_not]
    rintro ⟨rfl, htarget⟩
    exact hne htarget
  exact h.countP_project hsame fun _ hstep => simulates_breaker worker hstep

theorem failedCalls_breakerHistory (worker : ℕ) :
    failedCalls (breakerHistory jobs worker history) =
      history.countP (failsAt jobs worker) := by
  rw [failedCalls, breakerHistory, List.countP_filterMap]
  congr 1
  funext entry
  obtain ⟨before, ⟨id, now⟩, ⟨question, reply⟩, after⟩ := entry
  by_cases hworker : (jobs id).worker = worker
  · cases question with
    | enterBreaker =>
        cases reply <;>
          simp only [Entry.shown, breakerView, hworker, failsAt] <;>
          rfl
    | finishCall call sent =>
        cases reply <;>
          simp only [Entry.shown, breakerView, hworker, failsAt, decide_true,
            if_true] <;>
          rfl
    | _ => simp [Entry.shown, breakerView, hworker, failsAt]
  · cases question with
    | finishCall call sent =>
        cases reply <;> simp [Entry.shown, breakerView, hworker, failsAt]
    | _ => simp [Entry.shown, breakerView, hworker, failsAt]

/--
In every run of the fleet, a worker's breaker goes half-open at most once for
each minute of its clock, and opens from closed at most once for each five
failed calls of the worker's own requests.
-/
theorem breaker_cycles_le {worker : ℕ} {clock : ℚ}
    (hfresh : shared.breakers worker = Calls.fresh clock)
    (h : History (fleetMachine jobs) (fleetStart jobs shared) history last) :
    clock + 60 * changesOf worker .opened .halfOpen history ≤
        (last.shared.breakers worker).clock ∧
      5 * changesOf worker .closed .opened history ≤
        history.countP (failsAt jobs worker) := by
  have hbreaker := breaker_of_history worker h
  simp only [fleetStart, hfresh] at hbreaker
  have hprobings := CircuitBreaker.probings_of_history hbreaker
  have htrips := CircuitBreaker.trips_of_history hbreaker
  have hreached := Calls.reached_le_clock
    (CircuitBreaker.openedAt_le_clock hbreaker)
  constructor
  · have hcount : probings (breakerHistory jobs worker history) =
        changesOf worker .opened .halfOpen history :=
      countP_breakerHistory .opened .halfOpen (by decide) worker h
    rw [← hcount]
    have htimeout : upstreamBreaker.recoveryTimeout = 60 := rfl
    rw [htimeout] at hprobings
    change clock + probings (breakerHistory jobs worker history) * 60 ≤ _
      at hprobings
    linarith
  · have hcount : trips (breakerHistory jobs worker history) =
        changesOf worker .closed .opened history :=
      countP_breakerHistory .closed .opened (by decide) worker h
    rw [← hcount, ← failedCalls_breakerHistory]
    have hthreshold : upstreamBreaker.threshold = 5 := rfl
    rw [hthreshold] at htrips
    change (trips (breakerHistory jobs worker history) : Int) * 5 + _ ≤
      failedCalls (breakerHistory jobs worker history) at htrips
    omega

/-- Five calls time out, and so does a probe; the next probe succeeds. -/
def twoProbes : List FleetEntry × Fleet :=
  let lost : Circumstances := { calm with exchange := .lost .timeoutException }
  played (fleetMachine aliceJobs) (fleetStart aliceJobs idle)
    (((List.range 5).flatMap fun id => List.replicate 8 (id, lost)) ++
      List.replicate 8 (5, { lost with monotonic := 60 }) ++
      List.replicate 8 (6, { calm with monotonic := 120 }))

theorem breaker_cycles_le_twoProbes :
    changesOf 0 .opened .halfOpen twoProbes.1 = 2 ∧
      changesOf 0 .closed .opened twoProbes.1 = 1 ∧
      0 + 60 * changesOf 0 .opened .halfOpen twoProbes.1 ≤
        (twoProbes.2.shared.breakers 0).clock ∧
      5 * changesOf 0 .closed .opened twoProbes.1 ≤
        twoProbes.1.countP (failsAt aliceJobs 0) :=
  ⟨by decide +kernel, by decide +kernel,
    breaker_cycles_le rfl (history_played (by decide +kernel))⟩

end RateLimitedGateway.Main
