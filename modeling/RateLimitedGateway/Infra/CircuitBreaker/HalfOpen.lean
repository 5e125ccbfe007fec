import RateLimitedGateway.Infra.CircuitBreaker.OpeningLaw

/-!
# The half-open period

The module docstring allows one probe in the half-open state and lets its
outcome decide the next state.  The sections under the lock keep no record of
which call is the probe: an arrival is admitted in every state but the open
one, and the completion of any call moves the breaker out of the half-open
state.  Both promises therefore hold on exactly the runs in which no other
call arrives, respectively completes, during the period.
-/

namespace RateLimitedGateway.Infra

open RateLimitedGateway.Foundation

variable {ε α γ : Type} {breaker : CircuitBreaker}

namespace CallEvent

def Arrives : CallEvent ε α γ → Prop
  | .arrive _ _ => True
  | .finish _ _ _ => False

instance (event : CallEvent ε α γ) : Decidable event.Arrives :=
  match event with
  | .arrive _ _ => .isTrue trivial
  | .finish _ _ _ => .isFalse id

/-- The call that returns or raises; a cancelled call does not complete. -/
def completed : CallEvent ε α γ → Option Nat
  | .finish id (.returned _) _ => some id
  | .finish id (.raised _) _ => some id
  | .finish _ .cancelled _ => none
  | .arrive _ _ => none

end CallEvent

def Admits (entry : CallEntry ε α γ) : Prop :=
  ∃ id, entry.output = .admitted id

def Rejects (entry : CallEntry ε α γ) : Prop :=
  ∃ id exc, entry.output = .rejected id exc

/--
The breaker goes half-open at `entrance`, and every entry of `during` still
finds it so; the head of `during` may be the entry that leaves the state.
-/
structure HalfOpenPeriod (during : List (CallEntry ε α γ))
    (entrance : CallEntry ε α γ) : Prop where
  outside : entrance.before.circuit.state ≠ .halfOpen
  enters : entrance.after.circuit.state = .halfOpen
  inside : ∀ entry ∈ during, entry.before.circuit.state = .halfOpen

def SingleProbe (history : List (CallEntry ε α γ)) : Prop :=
  ∀ later during entrance before,
    history = later ++ (during ++ entrance :: before) →
    HalfOpenPeriod during entrance →
    Admits entrance ∧ (∀ entry ∈ during, ¬ Admits entry) ∧
      ∀ entry ∈ during, entry.input.Arrives → Rejects entry

def ProbeDecides (history : List (CallEntry ε α γ)) : Prop :=
  ∀ later leaving during entrance before,
    history = later ++ leaving :: (during ++ entrance :: before) →
    HalfOpenPeriod during entrance →
    leaving.before.circuit.state = .halfOpen →
    leaving.after.circuit.state ≠ .halfOpen →
    ∃ id, leaving.input.completed = some id ∧
      ∃ entry ∈ during ++ [entrance], entry.output = .admitted id

def NoEarlierCompletion (history : List (CallEntry ε α γ)) : Prop :=
  ∀ later entry during entrance before,
    history = later ++ entry :: (during ++ entrance :: before) →
    HalfOpenPeriod during entrance →
    entry.before.circuit.state = .halfOpen →
    ∀ id ∈ entrance.before.ids, entry.input.completed ≠ some id

namespace CircuitBreaker

/-! ## Entering and leaving the half-open state -/

theorem onSuccess_ne_halfOpen (circuit : Circuit) :
    (onSuccess circuit).state ≠ .halfOpen := by
  by_cases hopened : circuit.state = .opened
  · rw [onSuccess_of_opened hopened, hopened]
    nofun
  · rw [onSuccess_of_ne_opened hopened]
    nofun

theorem onFailure_ne_halfOpen (breaker : CircuitBreaker) (circuit : Circuit)
    (now : ℚ) : (breaker.onFailure circuit now).state ≠ .halfOpen := by
  by_cases htrips : circuit.state = .halfOpen ∨
      breaker.threshold ≤ (circuit.failures : Int) + 1
  · rw [onFailure_of_trips htrips]
    nofun
  · rw [not_or, not_le] at htrips
    rw [onFailure_of_holds htrips.1 htrips.2]
    exact htrips.1

theorem leave_halfOpen {circuit : Circuit} {ending : Ending ε α} {now : ℚ}
    (h : (breaker.leave circuit ending now).state = .halfOpen) :
    circuit.state = .halfOpen := by
  cases ending with
  | returned result => exact absurd h (onSuccess_ne_halfOpen circuit)
  | raised exc => exact absurd h (onFailure_ne_halfOpen breaker circuit now)
  | cancelled => exact h

theorem admitted_of_enters {before after : Calls γ} {event : CallEvent ε α γ}
    {outcome : CallOutcome ε α}
    (hstep : breaker.step before event = some (outcome, after))
    (houtside : before.circuit.state ≠ .halfOpen)
    (henters : after.circuit.state = .halfOpen) :
    outcome = .admitted before.arrived := by
  obtain ⟨_, _, _, _, _, _, hout, _⟩ | ⟨_, _, _, _, _, _, _, rfl⟩ |
    ⟨_, _, _, _, _, _, _, rfl⟩ := step_cases hstep
  · exact hout
  · exact absurd henters houtside
  · exact absurd (leave_halfOpen henters) houtside

theorem admitted_of_halfOpen {before after : Calls γ} {event : CallEvent ε α γ}
    {outcome : CallOutcome ε α}
    (hstep : breaker.step before event = some (outcome, after))
    (hstate : before.circuit.state = .halfOpen) (harrives : event.Arrives) :
    outcome = .admitted before.arrived := by
  obtain ⟨_, _, _, _, _, _, hout, _⟩ | ⟨_, _, _, _, _, henter, _, _⟩ |
    ⟨_, _, _, rfl, _, _, _, _⟩ := step_cases hstep
  · exact hout
  · rw [(enter_eq_error_iff.mp henter).1] at hstate
    cases hstate
  · exact harrives.elim

theorem leaves_iff {before after : Calls γ} {event : CallEvent ε α γ}
    {outcome : CallOutcome ε α}
    (hstep : breaker.step before event = some (outcome, after))
    (hstate : before.circuit.state = .halfOpen) :
    after.circuit.state ≠ .halfOpen ↔
      ∃ id ∈ before.ids, event.completed = some id := by
  obtain ⟨func, now, circuit, rfl, _, henter, _, rfl⟩ |
    ⟨func, now, exc, rfl, _, henter, _, rfl⟩ |
    ⟨id, ending, now, rfl, _, hid, _, rfl⟩ := step_cases hstep
  · rcases enter_eq_ok henter with ⟨_, rfl⟩ | ⟨hopened, _, _⟩
    · simp [hstate, CallEvent.completed]
    · rw [hopened] at hstate
      cases hstate
  · simp [hstate, CallEvent.completed]
  · cases ending with
    | returned result =>
        simp [leave, onSuccess_ne_halfOpen, CallEvent.completed, hid]
    | raised exc =>
        simp [leave, onFailure_ne_halfOpen, CallEvent.completed, hid]
    | cancelled => simp [leave, hstate, CallEvent.completed]

theorem running_of_completed {before after : Calls γ}
    {event : CallEvent ε α γ} {outcome : CallOutcome ε α} {id : Nat}
    (hstep : breaker.step before event = some (outcome, after))
    (hcompleted : event.completed = some id) : id ∈ before.ids := by
  obtain ⟨_, _, _, rfl, _⟩ | ⟨_, _, _, rfl, _⟩ |
    ⟨finished, ending, _, rfl, _, hid, _⟩ := step_cases hstep
  · cases hcompleted
  · cases hcompleted
  · cases ending with
    | returned result =>
        cases hcompleted
        exact hid
    | raised exc =>
        cases hcompleted
        exact hid
    | cancelled => cases hcompleted

theorem not_admitted_of_not_arrives {before after : Calls γ}
    {event : CallEvent ε α γ} {outcome : CallOutcome ε α}
    (hstep : breaker.step before event = some (outcome, after))
    (h : ¬ event.Arrives) (id : Nat) : outcome ≠ .admitted id := by
  obtain ⟨_, _, _, rfl, _⟩ | ⟨_, _, _, rfl, _⟩ | ⟨_, _, _, _, _, _, rfl, _⟩ :=
    step_cases hstep
  · exact absurd trivial h
  · exact absurd trivial h
  · nofun

/-! ## The single probe -/

theorem not_singleProbe_of_arrival {clock : ℚ} {last : Calls γ}
    {history : List (CallEntry ε α γ)}
    (h : History breaker.step (Calls.fresh clock) history last)
    {entry : CallEntry ε α γ} (hmem : entry ∈ history)
    (hstate : entry.before.circuit.state = .halfOpen)
    (harrives : entry.input.Arrives) : ¬ SingleProbe history := by
  intro hprobe
  obtain ⟨later, earlier, rfl⟩ := List.append_of_mem hmem
  obtain ⟨hearlier, hstep, -⟩ := h.at_entry
  -- the period in which the arrival falls begins at the last entrance
  obtain ⟨during, entrance, before, rfl, houtside, henters, hinside⟩ :=
    hearlier.exists_entrance (P := fun calls => calls.circuit.state = .halfOpen)
      (by simp [Calls.fresh, initial]) hstate
  have hperiod : HalfOpenPeriod (entry :: during) entrance := by
    refine ⟨houtside, henters, ?_⟩
    intro other hother
    rcases List.mem_cons.mp hother with rfl | hother
    · exact hstate
    · exact hinside other hother
  obtain ⟨-, hadmits, -⟩ :=
    hprobe later (entry :: during) entrance before rfl hperiod
  exact hadmits entry List.mem_cons_self
    ⟨_, admitted_of_halfOpen hstep hstate harrives⟩

theorem singleProbe_of_undisturbed {clock : ℚ} {last : Calls γ}
    {history : List (CallEntry ε α γ)}
    (h : History breaker.step (Calls.fresh clock) history last)
    (hquiet : ∀ entry ∈ history, entry.before.circuit.state = .halfOpen →
      ¬ entry.input.Arrives) : SingleProbe history := by
  rintro later during entrance before rfl hperiod
  obtain ⟨middle, hearlier, -⟩ := History.append_iff.mp h
  have hnone : ∀ entry ∈ during, ¬ entry.input.Arrives := by
    intro entry hentry
    exact hquiet entry (by simp [hentry]) (hperiod.inside entry hentry)
  refine ⟨⟨_, admitted_of_enters hearlier.at_entry.2.1 hperiod.outside
    hperiod.enters⟩, ?_, ?_⟩
  · rintro entry hentry ⟨id, hadmitted⟩
    obtain ⟨_, _, hstep⟩ := h.of_mem (by simp [hentry] :
      entry ∈ later ++ (during ++ entrance :: before))
    exact not_admitted_of_not_arrives hstep (hnone entry hentry) id hadmitted
  · intro entry hentry harrives
    exact absurd harrives (hnone entry hentry)

theorem single_probe_iff {clock : ℚ} {last : Calls γ}
    {history : List (CallEntry ε α γ)}
    (h : History breaker.step (Calls.fresh clock) history last) :
    SingleProbe history ↔
      ∀ entry ∈ history, entry.before.circuit.state = .halfOpen →
        ¬ entry.input.Arrives := by
  constructor
  · intro hprobe entry hmem hstate harrives
    exact not_singleProbe_of_arrival h hmem hstate harrives hprobe
  · exact singleProbe_of_undisturbed h

def outage : List (CallEvent Unit Unit Unit) :=
  (List.replicate 6 (.arrive () 0)) ++
    [.finish 0 (.raised ()) 1, .finish 1 (.raised ()) 1,
      .finish 2 (.raised ()) 1, .finish 3 (.raised ()) 1,
      .finish 4 (.raised ()) 1]

def arrivalDuringProbe : List (CallEvent Unit Unit Unit) :=
  outage ++ [.arrive () 61, .arrive () 62]

theorem arrival_during_probe_admitted :
    ¬ ∀ (history : List (CallEntry Unit Unit Unit)) (last : Calls Unit),
      History (step upstreamBreaker) (Calls.fresh 0) history last →
        SingleProbe history := by
  intro h
  have hrun := history_played (by decide +kernel : (replay
    (step upstreamBreaker) [] (Calls.fresh 0) arrivalDuringProbe).isSome)
  have harrival : ∃ entry ∈ (played (step upstreamBreaker) (Calls.fresh 0)
      arrivalDuringProbe).1, entry.before.circuit.state = .halfOpen ∧
        entry.input.Arrives := by
    decide +kernel
  obtain ⟨entry, hmem, hstate, harrives⟩ := harrival
  exact not_singleProbe_of_arrival hrun hmem hstate harrives (h _ _ hrun)

def undisturbedProbe : List (CallEvent Unit Unit Unit) :=
  outage ++ [.arrive () 61, .finish 6 (.returned ()) 62]

theorem single_probe_iff_undisturbed :
    SingleProbe (played (step upstreamBreaker) (Calls.fresh 0)
      undisturbedProbe).1 := by
  have hrun := history_played (by decide +kernel : (replay
    (step upstreamBreaker) [] (Calls.fresh 0) undisturbedProbe).isSome)
  exact (single_probe_iff hrun).mpr (by decide +kernel)

/-! ## The probe decides -/

theorem probe_decides_iff {clock : ℚ} {last : Calls γ}
    {history : List (CallEntry ε α γ)}
    (h : History breaker.step (Calls.fresh clock) history last) :
    ProbeDecides history ↔ NoEarlierCompletion history := by
  constructor
  · rintro hdecides later entry during entrance before rfl hperiod hstate id
      hrunning hcompleted
    obtain ⟨hearlier, hstep, -⟩ := h.at_entry
    have hleaves : entry.after.circuit.state ≠ .halfOpen :=
      (leaves_iff hstep hstate).mpr
        ⟨id, running_of_completed hstep hcompleted, hcompleted⟩
    obtain ⟨other, hother, admission, hmem, hadmitted⟩ :=
      hdecides later entry during entrance before rfl hperiod hstate hleaves
    obtain rfl : id = other := Option.some.inj (hcompleted.symm.trans hother)
    -- a call running at the entrance has a smaller number than any later one
    have hnew : entrance.before.arrived ≤ id :=
      Calls.arrived_le_of_admitted hearlier.from_entry hmem hadmitted
    have hold : id < entrance.before.arrived :=
      Calls.numbered_of_history (Calls.fresh_numbered clock)
        hearlier.at_entry.1 id hrunning
    omega
  · rintro hquiet later leaving during entrance before rfl hperiod hstate
      hleaves
    obtain ⟨hearlier, hstep, -⟩ := h.at_entry
    obtain ⟨id, hid, hcompleted⟩ := (leaves_iff hstep hstate).mp hleaves
    refine ⟨id, hcompleted, ?_⟩
    rcases Calls.running_of_history hearlier.from_entry hid with
      hrunning | hadmitted
    · exact absurd hcompleted (hquiet later leaving during entrance before rfl
        hperiod hstate id hrunning)
    · exact hadmitted

theorem probe_decides_iff_undisturbed :
    ProbeDecides (played (step upstreamBreaker) (Calls.fresh 0)
      undisturbedProbe).1 := by
  have hrun := history_played (by decide +kernel : (replay
    (step upstreamBreaker) [] (Calls.fresh 0) undisturbedProbe).isSome)
  have hquiet : ∀ entrance ∈ (played (step upstreamBreaker) (Calls.fresh 0)
        undisturbedProbe).1,
      entrance.before.circuit.state ≠ .halfOpen →
      entrance.after.circuit.state = .halfOpen →
      ∀ entry ∈ (played (step upstreamBreaker) (Calls.fresh 0)
        undisturbedProbe).1,
      entry.before.circuit.state = .halfOpen →
      ∀ id ∈ entrance.before.ids, entry.input.completed ≠ some id := by
    decide +kernel
  refine (probe_decides_iff hrun).mpr ?_
  intro later entry during entrance before hsplit hperiod hstate
  exact hquiet entrance (by simp [hsplit]) hperiod.outside hperiod.enters entry
    (by simp [hsplit]) hstate

def lateSuccess : List (CallEvent Unit Unit Unit) :=
  outage ++ [.arrive () 61, .finish 5 (.returned ()) 62]

private theorem lateSuccess_ends :
    ∃ leaving entrance before,
      (played (step upstreamBreaker) (Calls.fresh 0) lateSuccess).1 =
        [] ++ leaving :: ([] ++ entrance :: before) ∧
      (entrance.before.circuit.state ≠ .halfOpen ∧
        entrance.after.circuit.state = .halfOpen) ∧
      (leaving.before.circuit.state = .halfOpen ∧
        leaving.after.circuit.state ≠ .halfOpen) ∧
      leaving.input.completed = some 5 ∧ entrance.output = .admitted 6 :=
  ⟨(played (step upstreamBreaker) (Calls.fresh 0) lateSuccess).1.get
      ⟨0, by decide +kernel⟩,
    (played (step upstreamBreaker) (Calls.fresh 0) lateSuccess).1.get
      ⟨1, by decide +kernel⟩,
    (played (step upstreamBreaker) (Calls.fresh 0) lateSuccess).1.drop 2,
    by decide +kernel⟩

theorem late_success_closes :
    ¬ ∀ (history : List (CallEntry Unit Unit Unit)) (last : Calls Unit),
      History (step upstreamBreaker) (Calls.fresh 0) history last →
        ProbeDecides history := by
  intro h
  have hrun := history_played (by decide +kernel : (replay
    (step upstreamBreaker) [] (Calls.fresh 0) lateSuccess).isSome)
  obtain ⟨leaving, entrance, before, hsplit, ⟨houtside, henters⟩,
    ⟨hstate, hleaves⟩, hlate, hprobe⟩ := lateSuccess_ends
  obtain ⟨id, hcompleted, entry, hmem, hadmitted⟩ :=
    h _ _ hrun [] leaving [] entrance before hsplit
      ⟨houtside, henters, by simp⟩ hstate hleaves
  rw [List.nil_append, List.mem_singleton] at hmem
  rw [hmem, hprobe] at hadmitted
  rw [hlate] at hcompleted
  cases hcompleted
  cases hadmitted

end CircuitBreaker

end RateLimitedGateway.Infra
