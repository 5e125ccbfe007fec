import RateLimitedGateway.Infra.CircuitBreaker

/-!
# Overlapping calls

Any number of invocations of `CircuitBreaker.call` share one breaker.  An
invocation arrives, and, if it is admitted, its function runs until the
invocation finishes.  Sections of different invocations follow each other in
any order, each at a reading of `time.monotonic()` that never decreases.
Invocations are numbered in the order of their arrival.
-/

namespace RateLimitedGateway.Infra

open RateLimitedGateway.Foundation

structure Calls (γ : Type) where
  circuit : Circuit
  clock : ℚ
  arrived : Nat
  running : List (Nat × γ)
  deriving DecidableEq, Repr

/-- One section under the lock, or a cancellation between two of them. -/
inductive CallEvent (ε α γ : Type) where
  | arrive (func : γ) (now : ℚ)
  | finish (id : Nat) (ending : Ending ε α) (now : ℚ)
  deriving DecidableEq, Repr

inductive CallOutcome (ε α : Type) where
  | admitted (id : Nat)
  | rejected (id : Nat) (exc : CircuitOpenError)
  | finished (id : Nat) (ending : Ending ε α)
  deriving DecidableEq, Repr

abbrev CallEntry (ε α γ : Type) :=
  Entry (Calls γ) (CallEvent ε α γ) (CallOutcome ε α)

namespace Calls

variable {ε α γ : Type}

def fresh (clock : ℚ) : Calls γ := ⟨CircuitBreaker.initial, clock, 0, []⟩

def ids (calls : Calls γ) : List Nat := calls.running.map Prod.fst

def without (running : List (Nat × γ)) (id : Nat) : List (Nat × γ) :=
  running.filter fun call => call.1 ≠ id

end Calls

namespace CircuitBreaker

variable {ε α γ : Type}

def step (breaker : CircuitBreaker) :
    Machine (Calls γ) (CallEvent ε α γ) (CallOutcome ε α)
  | calls, .arrive func now =>
      if calls.clock ≤ now then
        match breaker.enter calls.circuit now with
        | .ok circuit =>
            some (.admitted calls.arrived,
              { circuit := circuit, clock := now, arrived := calls.arrived + 1,
                running := (calls.arrived, func) :: calls.running })
        | .error exc =>
            some (.rejected calls.arrived exc,
              { calls with clock := now, arrived := calls.arrived + 1 })
      else none
  | calls, .finish id ending now =>
      if calls.clock ≤ now ∧ id ∈ calls.ids then
        some (.finished id ending,
          { calls with
            circuit := breaker.leave calls.circuit ending now
            clock := now
            running := Calls.without calls.running id })
      else none

theorem step_admits {breaker : CircuitBreaker} {calls : Calls γ}
    {circuit : Circuit} {now : ℚ} (func : γ) (hclock : calls.clock ≤ now)
    (henter : breaker.enter calls.circuit now = .ok circuit) :
    breaker.step calls (.arrive func now : CallEvent ε α γ) =
      some (.admitted calls.arrived,
        ⟨circuit, now, calls.arrived + 1,
          (calls.arrived, func) :: calls.running⟩) := by
  simp [step, hclock, henter]

theorem step_rejects {breaker : CircuitBreaker} {calls : Calls γ}
    {exc : CircuitOpenError} {now : ℚ} (func : γ) (hclock : calls.clock ≤ now)
    (henter : breaker.enter calls.circuit now = .error exc) :
    breaker.step calls (.arrive func now : CallEvent ε α γ) =
      some (.rejected calls.arrived exc,
        { calls with clock := now, arrived := calls.arrived + 1 }) := by
  simp [step, hclock, henter]

theorem step_finishes (breaker : CircuitBreaker) {calls : Calls γ} {id : Nat}
    {now : ℚ} (ending : Ending ε α) (hclock : calls.clock ≤ now)
    (hid : id ∈ calls.ids) :
    breaker.step calls (.finish id ending now) =
      some (.finished id ending,
        { calls with
          circuit := breaker.leave calls.circuit ending now
          clock := now
          running := Calls.without calls.running id }) := by
  simp [step, hclock, hid]

/-- The three things a step can be, with everything it changes. -/
theorem step_cases {breaker : CircuitBreaker} {calls after : Calls γ}
    {event : CallEvent ε α γ} {outcome : CallOutcome ε α}
    (h : breaker.step calls event = some (outcome, after)) :
    (∃ func now circuit, event = .arrive func now ∧ calls.clock ≤ now ∧
      breaker.enter calls.circuit now = .ok circuit ∧
      outcome = .admitted calls.arrived ∧
      after = ⟨circuit, now, calls.arrived + 1,
        (calls.arrived, func) :: calls.running⟩) ∨
    (∃ func now exc, event = .arrive func now ∧ calls.clock ≤ now ∧
      breaker.enter calls.circuit now = .error exc ∧
      outcome = .rejected calls.arrived exc ∧
      after = { calls with clock := now, arrived := calls.arrived + 1 }) ∨
    (∃ id ending now, event = .finish id ending now ∧ calls.clock ≤ now ∧
      id ∈ calls.ids ∧ outcome = .finished id ending ∧
      after = { calls with
        circuit := breaker.leave calls.circuit ending now
        clock := now
        running := Calls.without calls.running id }) := by
  cases event with
  | arrive func now =>
      by_cases hclock : calls.clock ≤ now
      · cases henter : breaker.enter calls.circuit now with
        | ok circuit =>
            simp only [step_admits func hclock henter, Option.some.injEq,
              Prod.mk.injEq] at h
            exact .inl ⟨func, now, circuit, rfl, hclock, henter, h.1.symm,
              h.2.symm⟩
        | error exc =>
            simp only [step_rejects func hclock henter, Option.some.injEq,
              Prod.mk.injEq] at h
            exact .inr (.inl ⟨func, now, exc, rfl, hclock, henter, h.1.symm,
              h.2.symm⟩)
      · simp [step, hclock] at h
  | finish id ending now =>
      by_cases henabled : calls.clock ≤ now ∧ id ∈ calls.ids
      · simp only [step_finishes breaker ending henabled.1 henabled.2,
          Option.some.injEq, Prod.mk.injEq] at h
        exact .inr (.inr ⟨id, ending, now, rfl, henabled.1, henabled.2,
          h.1.symm, h.2.symm⟩)
      · simp [step, henabled] at h

theorem step_clock_le {breaker : CircuitBreaker} {calls after : Calls γ}
    {event : CallEvent ε α γ} {outcome : CallOutcome ε α}
    (h : breaker.step calls event = some (outcome, after)) :
    calls.clock ≤ after.clock := by
  obtain ⟨_, _, _, _, hclock, _, _, rfl⟩ | ⟨_, _, _, _, hclock, _, _, rfl⟩ |
    ⟨_, _, _, _, hclock, _, _, rfl⟩ := step_cases h <;> exact hclock

/--
The invariant rule for the breaker's fields: what the probe's admission and the
two kinds of completion preserve holds after every run.
-/
theorem circuit_invariant {breaker : CircuitBreaker} {P : Circuit → Prop}
    (hprobe : ∀ circuit, circuit.state = .opened → P circuit →
      P { circuit with state := .halfOpen })
    (hsuccess : ∀ circuit, P circuit → P (onSuccess circuit))
    (hfailure : ∀ circuit now, P circuit → P (breaker.onFailure circuit now))
    {first last : Calls γ} {history : List (CallEntry ε α γ)}
    (hfirst : P first.circuit) (h : History breaker.step first history last) :
    P last.circuit := by
  refine h.invariant (P := fun calls => P calls.circuit) hfirst ?_
  intro before event outcome after hbefore hstep
  obtain ⟨_, _, _, _, _, henter, _, rfl⟩ | ⟨_, _, _, _, _, _, _, rfl⟩ |
    ⟨_, ending, now, _, _, _, _, rfl⟩ := step_cases hstep
  · rcases enter_eq_ok henter with ⟨_, rfl⟩ | ⟨hopened, _, rfl⟩
    · exact hbefore
    · exact hprobe _ hopened hbefore
  · exact hbefore
  · cases ending with
    | returned result => exact hsuccess _ hbefore
    | raised exc => exact hfailure _ now hbefore
    | cancelled => exact hbefore

end CircuitBreaker

/-! ## The calls that are running -/

namespace Calls

variable {ε α γ : Type} {breaker : CircuitBreaker}

theorem mem_ids_without {running : List (Nat × γ)} {id other : Nat} :
    other ∈ (without running id).map Prod.fst ↔
      other ∈ running.map Prod.fst ∧ other ≠ id := by
  simp only [without, List.mem_map, List.mem_filter, decide_eq_true_eq]
  constructor
  · rintro ⟨call, ⟨hmem, hne⟩, rfl⟩
    exact ⟨⟨call, hmem, rfl⟩, hne⟩
  · rintro ⟨⟨call, hmem, rfl⟩, hne⟩
    exact ⟨call, ⟨hmem, hne⟩, rfl⟩

def Numbered (calls : Calls γ) : Prop := ∀ id ∈ calls.ids, id < calls.arrived

theorem numbered_step {calls after : Calls γ} {event : CallEvent ε α γ}
    {outcome : CallOutcome ε α} (hnumbered : calls.Numbered)
    (h : breaker.step calls event = some (outcome, after)) :
    after.Numbered := by
  intro id hid
  obtain ⟨func, now, circuit, _, _, _, _, rfl⟩ |
    ⟨func, now, exc, _, _, _, _, rfl⟩ |
    ⟨finished, ending, now, _, _, _, _, rfl⟩ := CircuitBreaker.step_cases h
  · rcases List.mem_cons.mp hid with rfl | hid
    · exact Nat.lt_succ_self _
    · exact Nat.lt_succ_of_lt (hnumbered id hid)
  · exact Nat.lt_succ_of_lt (hnumbered id hid)
  · exact hnumbered id (mem_ids_without.mp hid).1

theorem numbered_of_history {first last : Calls γ}
    {history : List (CallEntry ε α γ)} (hfirst : first.Numbered)
    (h : History breaker.step first history last) : last.Numbered :=
  h.invariant hfirst fun _ _ _ _ hbefore hstep => numbered_step hbefore hstep

theorem fresh_numbered (clock : ℚ) : (fresh clock : Calls γ).Numbered := by
  simp [Numbered, fresh, ids]

theorem running_of_history {first last : Calls γ}
    {history : List (CallEntry ε α γ)}
    (h : History breaker.step first history last) {id : Nat}
    (hid : id ∈ last.ids) :
    id ∈ first.ids ∨ ∃ entry ∈ history, entry.output = .admitted id := by
  induction h with
  | start => exact .inl hid
  | @next past before after event outcome _ hstep ih =>
      have hpast : id ∈ before.ids → id ∈ first.ids ∨
          ∃ entry ∈ (⟨before, event, outcome, after⟩ : CallEntry ε α γ) :: past,
            entry.output = .admitted id := by
        intro hbefore
        rcases ih hbefore with hfirst | ⟨entry, hmem, hentry⟩
        · exact .inl hfirst
        · exact .inr ⟨entry, List.mem_cons_of_mem _ hmem, hentry⟩
      obtain ⟨func, now, circuit, _, _, _, hout, rfl⟩ |
        ⟨func, now, exc, _, _, _, _, rfl⟩ |
        ⟨finished, ending, now, _, _, _, _, rfl⟩ :=
          CircuitBreaker.step_cases hstep
      · rcases List.mem_cons.mp hid with rfl | hid
        · exact .inr ⟨_, List.mem_cons_self, hout⟩
        · exact hpast hid
      · exact hpast hid
      · exact hpast (mem_ids_without.mp hid).1

theorem arrived_le_of_history {first last : Calls γ}
    {history : List (CallEntry ε α γ)}
    (h : History breaker.step first history last) :
    first.arrived ≤ last.arrived := by
  refine h.invariant (P := fun calls => first.arrived ≤ calls.arrived)
    le_rfl ?_
  intro before event outcome after hbefore hstep
  obtain ⟨_, _, _, _, _, _, _, rfl⟩ | ⟨_, _, _, _, _, _, _, rfl⟩ |
    ⟨_, _, _, _, _, _, _, rfl⟩ := CircuitBreaker.step_cases hstep
  · exact Nat.le_succ_of_le hbefore
  · exact Nat.le_succ_of_le hbefore
  · exact hbefore

theorem arrived_le_of_admitted {first last : Calls γ}
    {history : List (CallEntry ε α γ)}
    (h : History breaker.step first history last) {entry : CallEntry ε α γ}
    (hmem : entry ∈ history) {id : Nat} (hentry : entry.output = .admitted id) :
    first.arrived ≤ id := by
  obtain ⟨past, hpast, hstep⟩ := h.of_mem hmem
  have hle := arrived_le_of_history hpast
  obtain ⟨_, _, _, _, _, _, hout, _⟩ | ⟨_, _, _, _, _, _, hout, _⟩ |
    ⟨_, _, _, _, _, _, hout, _⟩ := CircuitBreaker.step_cases hstep
  all_goals rw [hout] at hentry
  · cases hentry
    exact hle
  · cases hentry
  · cases hentry

/--
`call` composes the steps of an invocation that no other one overlaps: it
arrives and finishes, or it is rejected on arrival.
-/
theorem history_of_call (breaker : CircuitBreaker) (calls : Calls γ) (func : γ)
    (ending : Ending ε α) {arrival finish : ℚ}
    (harrival : calls.clock ≤ arrival) (hfinish : arrival ≤ finish) :
    ∃ (history : List (CallEntry ε α γ)) (last : Calls γ),
      History breaker.step calls history last ∧
        last.circuit = (breaker.call calls.circuit arrival ending finish).2 ∧
        last.clock ≤ finish ∧
        history.head?.map Entry.output = some
          (match (breaker.call calls.circuit arrival ending finish).1 with
          | .error exc => .rejected calls.arrived exc
          | .ok result => .finished calls.arrived result) := by
  cases henter : breaker.enter calls.circuit arrival with
  | error exc =>
      have hstep := CircuitBreaker.step_rejects (ε := ε) (α := α) func harrival
        henter
      exact ⟨_, _, .next .start hstep, by simp [CircuitBreaker.call, henter],
        hfinish, by simp [CircuitBreaker.call, henter]⟩
  | ok circuit =>
      let running := (calls.arrived, func) :: calls.running
      have hfirst := CircuitBreaker.step_admits (ε := ε) (α := α) func harrival
        henter
      have hrunning : calls.arrived ∈
          ids ⟨circuit, arrival, calls.arrived + 1, running⟩ := by
        simp [ids, running]
      have hsecond := CircuitBreaker.step_finishes breaker ending hfinish
        hrunning
      exact ⟨_, _, .next (.next .start hfirst) hsecond,
        by simp [CircuitBreaker.call, henter], le_rfl,
        by simp [CircuitBreaker.call, henter]⟩

end Calls

end RateLimitedGateway.Infra
