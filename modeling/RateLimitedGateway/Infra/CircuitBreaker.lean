import Mathlib.Algebra.Order.Ring.Rat
import Mathlib.Tactic.Linarith
import RateLimitedGateway.Foundation.History

/-!
# The upstream circuit breaker

`CircuitBreaker.call` takes its lock twice: once before the wrapped function
runs, to admit or reject the call, and once after it has returned or raised.
No section under the lock awaits anything, so each is one atomic step, and the
wrapped function runs between them with the lock released.
-/

namespace RateLimitedGateway.Infra

open RateLimitedGateway.Foundation

inductive CircuitState where
  | closed
  | opened
  | halfOpen
  deriving DecidableEq, Repr

structure CircuitOpenError where
  message : String
  deriving DecidableEq, Repr

structure CircuitBreaker where
  threshold : Int
  recoveryTimeout : ℚ
  name : String
  deriving DecidableEq, Repr

structure Circuit where
  state : CircuitState
  failures : Nat
  openedAt : ℚ
  deriving DecidableEq, Repr

/-- How the wrapped function ends.  A cancellation is no `Exception`. -/
inductive Ending (ε α : Type) where
  | returned (result : α)
  | raised (exc : ε)
  | cancelled
  deriving DecidableEq, Repr

namespace CircuitBreaker

variable {ε α γ : Type}

def initial : Circuit := ⟨.closed, 0, 0⟩

def openError (breaker : CircuitBreaker) : CircuitOpenError :=
  ⟨"Circuit '" ++ breaker.name ++ "' is open — upstream unavailable."⟩

/-- The section before the wrapped function is invoked. -/
def enter (breaker : CircuitBreaker) (circuit : Circuit) (now : ℚ) :
    Except CircuitOpenError Circuit :=
  if circuit.state = .opened then
    if now - circuit.openedAt ≥ breaker.recoveryTimeout then
      .ok { circuit with state := .halfOpen }
    else .error breaker.openError
  else .ok circuit

def onFailure (breaker : CircuitBreaker) (circuit : Circuit) (now : ℚ) :
    Circuit :=
  let failures := circuit.failures + 1
  if circuit.state = .halfOpen ∨ (failures : Int) ≥ breaker.threshold then
    { state := .opened, failures := failures, openedAt := now }
  else { circuit with failures := failures }

def onSuccess (circuit : Circuit) : Circuit :=
  if circuit.state = .halfOpen then
    { circuit with state := .closed, failures := 0 }
  else if circuit.state = .closed then { circuit with failures := 0 }
  else circuit

def leave (breaker : CircuitBreaker) (circuit : Circuit) (ending : Ending ε α)
    (now : ℚ) : Circuit :=
  match ending with
  | .returned _ => onSuccess circuit
  | .raised _ => breaker.onFailure circuit now
  | .cancelled => circuit

/-- `call` when no other call overlaps it. -/
def call (breaker : CircuitBreaker) (circuit : Circuit) (arrival : ℚ)
    (ending : Ending ε α) (finish : ℚ) :
    Except CircuitOpenError (Ending ε α) × Circuit :=
  match breaker.enter circuit arrival with
  | .error exc => (.error exc, circuit)
  | .ok entered => (.ok ending, breaker.leave entered ending finish)

/-! ## What the sections do -/

theorem enter_of_ne_opened {breaker : CircuitBreaker} {circuit : Circuit}
    (h : circuit.state ≠ .opened) (now : ℚ) :
    breaker.enter circuit now = .ok circuit := by
  simp [enter, h]

theorem enter_of_elapsed {breaker : CircuitBreaker} {circuit : Circuit}
    {now : ℚ} (h : circuit.state = .opened)
    (helapsed : breaker.recoveryTimeout ≤ now - circuit.openedAt) :
    breaker.enter circuit now = .ok { circuit with state := .halfOpen } := by
  simp [enter, h, helapsed]

theorem enter_of_early {breaker : CircuitBreaker} {circuit : Circuit}
    {now : ℚ} (h : circuit.state = .opened)
    (hearly : now - circuit.openedAt < breaker.recoveryTimeout) :
    breaker.enter circuit now = .error breaker.openError := by
  simp [enter, h, not_le.mpr hearly]

theorem enter_eq_error_iff {breaker : CircuitBreaker} {circuit : Circuit}
    {now : ℚ} {exc : CircuitOpenError} :
    breaker.enter circuit now = .error exc ↔
      circuit.state = .opened ∧
        now - circuit.openedAt < breaker.recoveryTimeout ∧
        exc = breaker.openError := by
  by_cases hstate : circuit.state = .opened
  · by_cases helapsed : breaker.recoveryTimeout ≤ now - circuit.openedAt
    · simp [enter_of_elapsed hstate helapsed, not_lt.mpr helapsed]
    · have hearly := not_le.mp helapsed
      simp only [enter_of_early hstate hearly, hstate, hearly, true_and,
        Except.error.injEq]
      exact eq_comm
  · simp [enter_of_ne_opened hstate, hstate]

theorem enter_eq_ok {breaker : CircuitBreaker} {circuit entered : Circuit}
    {now : ℚ} (h : breaker.enter circuit now = .ok entered) :
    (circuit.state ≠ .opened ∧ entered = circuit) ∨
      (circuit.state = .opened ∧
        breaker.recoveryTimeout ≤ now - circuit.openedAt ∧
        entered = { circuit with state := .halfOpen }) := by
  by_cases hstate : circuit.state = .opened
  · by_cases helapsed : breaker.recoveryTimeout ≤ now - circuit.openedAt
    · rw [enter_of_elapsed hstate helapsed] at h
      exact .inr ⟨hstate, helapsed, (Except.ok.inj h).symm⟩
    · rw [enter_of_early hstate (not_le.mp helapsed)] at h
      cases h
  · rw [enter_of_ne_opened hstate] at h
    exact .inl ⟨hstate, (Except.ok.inj h).symm⟩

theorem onFailure_of_trips {breaker : CircuitBreaker} {circuit : Circuit}
    (h : circuit.state = .halfOpen ∨
      breaker.threshold ≤ (circuit.failures : Int) + 1) (now : ℚ) :
    breaker.onFailure circuit now = ⟨.opened, circuit.failures + 1, now⟩ := by
  simp [onFailure, h]

theorem onFailure_of_holds {breaker : CircuitBreaker} {circuit : Circuit}
    (hstate : circuit.state ≠ .halfOpen)
    (hcount : (circuit.failures : Int) + 1 < breaker.threshold) (now : ℚ) :
    breaker.onFailure circuit now =
      { circuit with failures := circuit.failures + 1 } := by
  simp [onFailure, hstate, not_le.mpr hcount]

theorem onFailure_closed_iff {breaker : CircuitBreaker} {circuit : Circuit}
    (h : circuit.state = .closed) (now : ℚ) :
    (breaker.onFailure circuit now).state = .closed ↔
      (circuit.failures : Int) + 1 < breaker.threshold := by
  by_cases hcount : breaker.threshold ≤ (circuit.failures : Int) + 1
  · simp [onFailure_of_trips (.inr hcount), hcount]
  · have hbelow := not_le.mp hcount
    simp [onFailure_of_holds (by simp [h]) hbelow, h, hbelow]

@[simp] theorem onFailure_failures (breaker : CircuitBreaker)
    (circuit : Circuit) (now : ℚ) :
    (breaker.onFailure circuit now).failures = circuit.failures + 1 := by
  simp only [onFailure]
  split <;> rfl

theorem onSuccess_of_opened {circuit : Circuit}
    (h : circuit.state = .opened) : onSuccess circuit = circuit := by
  simp [onSuccess, h]

theorem onSuccess_of_ne_opened {circuit : Circuit}
    (h : circuit.state ≠ .opened) :
    onSuccess circuit = { circuit with state := .closed, failures := 0 } := by
  obtain ⟨state, failures, openedAt⟩ := circuit
  cases state <;> simp_all [onSuccess]

end CircuitBreaker

def upstreamBreaker : CircuitBreaker := ⟨5, 60, "upstream"⟩

end RateLimitedGateway.Infra
