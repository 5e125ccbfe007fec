import RateLimitedGateway.Infra.CircuitBreaker.HalfOpen

/-!
# The open period

A failure that is observed in the open state passes through the same branch as
the one that opened the breaker, and sets `_opened_at` again.  So no call gets
through too early, whatever finishes in the meantime, but the open period is
prolonged by every such failure that comes later than its beginning.
-/

namespace RateLimitedGateway.Infra

open RateLimitedGateway.Foundation

variable {ε α γ : Type} {breaker : CircuitBreaker}

def CallEvent.reading : CallEvent ε α γ → ℚ
  | .arrive _ now => now
  | .finish _ _ now => now

def Opens (entry : CallEntry ε α γ) : Prop :=
  entry.before.circuit.state ≠ .opened ∧ entry.after.circuit.state = .opened

instance (entry : CallEntry ε α γ) : Decidable (Opens entry) :=
  inferInstanceAs (Decidable (_ ∧ _))

def latestOpening : List (CallEntry ε α γ) → Option ℚ
  | [] => none
  | entry :: past =>
      if Opens entry then some entry.input.reading else latestOpening past

/--
At no point of the run is a call rejected that arrives `recoveryTimeout` or
more after the most recent transition into the open state.
-/
def FastFailBounded (breaker : CircuitBreaker) (clock : ℚ)
    (history : List (CallEntry ε α γ)) : Prop :=
  ∀ later earlier calls, history = later ++ earlier →
    History breaker.step (Calls.fresh clock) earlier calls →
    ∀ opening, latestOpening earlier = some opening →
    ∀ func now, opening + breaker.recoveryTimeout ≤ now →
    ∀ id exc after, breaker.step calls (.arrive func now) ≠
      some (CallOutcome.rejected (ε := ε) (α := α) id exc, after)

def NoLateFailure (history : List (CallEntry ε α γ)) : Prop :=
  ∀ later entry earlier, history = later ++ entry :: earlier →
    entry.before.circuit.state = .opened → entry.input.Fails →
    ∀ opening, latestOpening earlier = some opening →
      entry.input.reading ≤ opening

theorem NoLateFailure.earlier {later past : List (CallEntry ε α γ)}
    (h : NoLateFailure (later ++ past)) : NoLateFailure past := by
  rintro middle entry earlier rfl
  exact h (later ++ middle) entry earlier (by simp)

namespace CircuitBreaker

theorem step_reading {before after : Calls γ} {event : CallEvent ε α γ}
    {outcome : CallOutcome ε α}
    (hstep : breaker.step before event = some (outcome, after)) :
    after.clock = event.reading := by
  obtain ⟨_, _, _, rfl, _, _, _, rfl⟩ | ⟨_, _, _, rfl, _, _, _, rfl⟩ |
    ⟨_, _, _, rfl, _, _, _, rfl⟩ := step_cases hstep <;> rfl

/-! ## The quiet period -/

theorem onFailure_of_opened {circuit : Circuit}
    (htripped : breaker.Tripped circuit) (hopened : circuit.state = .opened)
    (now : ℚ) :
    breaker.onFailure circuit now = ⟨.opened, circuit.failures + 1, now⟩ := by
  have hcount := htripped (by simp [hopened])
  exact onFailure_of_trips (.inr (by omega)) now

def OpenedSince (since : ℚ) (circuit : Circuit) : Prop :=
  circuit.state = .opened ∧ since ≤ circuit.openedAt

theorem leave_openedSince {since now : ℚ} {circuit : Circuit}
    (htripped : breaker.Tripped circuit) (h : OpenedSince since circuit)
    (hnow : since ≤ now) (ending : Ending ε α) :
    OpenedSince since (breaker.leave circuit ending now) := by
  cases ending with
  | returned result =>
      simp only [leave, onSuccess_of_opened h.1]
      exact h
  | raised exc =>
      simp only [leave, onFailure_of_opened htripped h.1]
      exact ⟨rfl, hnow⟩
  | cancelled => exact h

theorem step_openedSince {since : ℚ} {before after : Calls γ}
    {event : CallEvent ε α γ} {outcome : CallOutcome ε α}
    (htripped : breaker.Tripped before.circuit)
    (hstep : breaker.step before event = some (outcome, after))
    (hsince : since ≤ before.clock)
    (hearly : event.reading < since + breaker.recoveryTimeout)
    (h : OpenedSince since before.circuit) :
    OpenedSince since after.circuit ∧ ∀ id, outcome ≠ .admitted id := by
  obtain ⟨func, now, circuit, rfl, _, henter, _, _⟩ |
    ⟨func, now, exc, rfl, _, _, rfl, rfl⟩ |
    ⟨id, ending, now, rfl, hclock, _, rfl, rfl⟩ := step_cases hstep
  · rcases enter_eq_ok henter with ⟨hne, _⟩ | ⟨_, helapsed, _⟩
    · exact absurd h.1 hne
    · simp only [CallEvent.reading] at hearly
      have := h.2
      linarith
  · exact ⟨h, nofun⟩
  · exact ⟨leave_openedSince htripped h (hsince.trans hclock) ending, nofun⟩

theorem step_opened_cases {before after : Calls γ} {event : CallEvent ε α γ}
    {outcome : CallOutcome ε α} (htripped : breaker.Tripped before.circuit)
    (hstep : breaker.step before event = some (outcome, after))
    (hopened : after.circuit.state = .opened) :
    (before.circuit.state = .opened ∧ after.circuit = before.circuit ∧
      ¬ event.Fails) ∨
    (event.Fails ∧ after.circuit.openedAt = event.reading) := by
  obtain ⟨_, _, _, rfl, _, henter, _, rfl⟩ | ⟨_, _, _, rfl, _, _, _, rfl⟩ |
    ⟨_, ending, now, rfl, _, _, _, rfl⟩ := step_cases hstep
  · rcases enter_eq_ok henter with ⟨hne, rfl⟩ | ⟨_, _, rfl⟩
    · exact absurd hopened hne
    · cases hopened
  · exact .inl ⟨hopened, rfl, id⟩
  · cases ending with
    | returned result =>
        simp only [leave] at hopened ⊢
        by_cases hbefore : before.circuit.state = .opened
        · exact .inl ⟨hbefore, onSuccess_of_opened hbefore, id⟩
        · rw [onSuccess_of_ne_opened hbefore] at hopened
          cases hopened
    | raised exc =>
        simp only [leave] at hopened ⊢
        refine .inr ⟨trivial, ?_⟩
        by_cases htrips : before.circuit.state = .halfOpen ∨
            breaker.threshold ≤ (before.circuit.failures : Int) + 1
        · rw [onFailure_of_trips htrips]
          rfl
        · rw [not_or, not_le] at htrips
          rw [onFailure_of_holds htrips.1 htrips.2] at hopened
          have hcount := htripped (by simp_all)
          omega
    | cancelled => exact .inl ⟨hopened, rfl, id⟩

theorem tripped_of_mem {clock : ℚ} {last : Calls γ}
    {history : List (CallEntry ε α γ)} {entry : CallEntry ε α γ}
    (h : History breaker.step (Calls.fresh clock) history last)
    (hmem : entry ∈ history) : breaker.Tripped entry.before.circuit := by
  obtain ⟨past, hpast, -⟩ := h.of_mem hmem
  exact tripped_of_history hpast

/--
Once a failed completion at `since` leaves the breaker open, no call is
admitted before `since + recoveryTimeout`.
-/
theorem quiet_period {clock since : ℚ} {last : Calls γ}
    {later earlier : List (CallEntry ε α γ)} {failure : CallEntry ε α γ}
    {id : Nat} {exc : ε}
    (h : History breaker.step (Calls.fresh clock)
      (later ++ failure :: earlier) last)
    (hfailure : failure.input = .finish id (.raised exc) since)
    (hopened : failure.after.circuit.state = .opened) :
    ∀ entry ∈ later, entry.input.reading < since + breaker.recoveryTimeout →
      ¬ Admits entry := by
  obtain ⟨hearlier, hstep, hlater⟩ := h.at_entry
  have hstart : failure.after.clock = since := by
    rw [step_reading hstep, hfailure]
    rfl
  have hopenedAt : failure.after.circuit.openedAt = since := by
    rw [hfailure] at hstep
    rcases step_opened_cases (tripped_of_history hearlier) hstep hopened with
      ⟨_, _, hnot⟩ | ⟨_, hreading⟩
    · exact absurd trivial hnot
    · exact hreading
  -- each step before the timeout finds the breaker open, so it leaves it open
  have hstable := hlater.stable
    (P := fun calls => since ≤ calls.clock ∧
      (calls.clock < since + breaker.recoveryTimeout →
        OpenedSince since calls.circuit))
    ⟨hstart.ge, fun _ => ⟨hopened, hopenedAt.ge⟩⟩
    (by
      rintro entry hmem ⟨hsince, hbefore⟩
      obtain ⟨_, _, hentry⟩ := hlater.of_mem hmem
      have hclock := step_clock_le hentry
      refine ⟨hsince.trans hclock, fun hearly => ?_⟩
      have htripped := tripped_of_mem h (List.mem_append_left _ hmem)
      exact (step_openedSince htripped hentry hsince
        (step_reading hentry ▸ hearly)
        (hbefore (lt_of_le_of_lt hclock hearly))).1)
  rintro entry hmem hearly ⟨other, hadmitted⟩
  obtain ⟨hsince, hbefore⟩ := hstable.2 entry hmem
  obtain ⟨_, _, hentry⟩ := hlater.of_mem hmem
  have hclock : entry.before.clock < since + breaker.recoveryTimeout :=
    lt_of_le_of_lt (step_clock_le hentry) (step_reading hentry ▸ hearly)
  exact (step_openedSince (tripped_of_mem h (List.mem_append_left _ hmem))
    hentry hsince hearly (hbefore hclock)).2 other hadmitted

def quietMinute : List (CallEvent Unit Unit Unit) :=
  outage ++ [.arrive () 30, .finish 5 (.returned ()) 40, .arrive () 60]

private theorem quietMinute_splits :
    ∃ arrival later failure earlier,
      (played (step upstreamBreaker) (Calls.fresh 0) quietMinute).1 =
        (arrival :: later) ++ failure :: earlier ∧
      arrival.input = .arrive () 60 ∧
      failure.input = .finish 4 (.raised ()) 1 ∧
      failure.after.circuit.state = .opened :=
  ⟨(played (step upstreamBreaker) (Calls.fresh 0) quietMinute).1.get
      ⟨0, by decide +kernel⟩,
    ((played (step upstreamBreaker) (Calls.fresh 0) quietMinute).1.take 3).tail,
    (played (step upstreamBreaker) (Calls.fresh 0) quietMinute).1.get
      ⟨3, by decide +kernel⟩,
    (played (step upstreamBreaker) (Calls.fresh 0) quietMinute).1.drop 4,
    by decide +kernel⟩

theorem quiet_period_quietMinute :
    ∃ entry ∈ (played (step upstreamBreaker) (Calls.fresh 0) quietMinute).1,
      entry.input = .arrive () 60 ∧ ¬ Admits entry := by
  have hrun := history_played (by decide +kernel : (replay
    (step upstreamBreaker) [] (Calls.fresh 0) quietMinute).isSome)
  obtain ⟨arrival, later, failure, earlier, hsplit, harrival, hfailure,
    hopened⟩ := quietMinute_splits
  rw [hsplit] at hrun ⊢
  refine ⟨arrival, by simp, harrival, ?_⟩
  apply quiet_period hrun hfailure hopened arrival List.mem_cons_self
  rw [harrival]
  norm_num [CallEvent.reading, upstreamBreaker]

/-! ## The end of the open period -/

theorem openedAt_le_clock {clock : ℚ} {last : Calls γ}
    {history : List (CallEntry ε α γ)}
    (h : History breaker.step (Calls.fresh clock) history last) :
    last.circuit.state = .opened → last.circuit.openedAt ≤ last.clock := by
  induction h with
  | start => simp [Calls.fresh, initial]
  | next hpast hstep ih =>
      intro hopened
      rcases step_opened_cases (tripped_of_history hpast) hstep hopened with
        ⟨hbefore, hsame, _⟩ | ⟨_, hreading⟩
      · rw [hsame]
        exact (ih hbefore).trans (step_clock_le hstep)
      · rw [hreading, step_reading hstep]

theorem latestOpening_le_clock {clock opening : ℚ} {last : Calls γ}
    {history : List (CallEntry ε α γ)}
    (h : History breaker.step (Calls.fresh clock) history last) :
    latestOpening history = some opening → opening ≤ last.clock := by
  induction h with
  | start => nofun
  | next hpast hstep ih =>
      simp only [latestOpening]
      split
      · rintro ⟨⟩
        exact (step_reading hstep).ge
      · intro hopening
        exact (ih hopening).trans (step_clock_le hstep)

theorem openedAt_eq_latestOpening {clock : ℚ} {last : Calls γ}
    {history : List (CallEntry ε α γ)}
    (h : History breaker.step (Calls.fresh clock) history last)
    (hlate : NoLateFailure history) : last.circuit.state = .opened →
      latestOpening history = some last.circuit.openedAt := by
  induction h with
  | start => simp [Calls.fresh, initial]
  | @next past before after event outcome hpast hstep ih =>
      intro hopened
      have hpastLate : NoLateFailure past :=
        (show NoLateFailure ([_] ++ past) from hlate).earlier
      rcases step_opened_cases (tripped_of_history hpast) hstep hopened with
        ⟨hbefore, hsame, _⟩ | ⟨hfails, hreading⟩
      · simp [latestOpening, Opens, hbefore, hsame, ih hpastLate hbefore]
      · by_cases hbefore : before.circuit.state = .opened
        · have hopening := ih hpastLate hbefore
          -- the failure comes at the very reading that opened the breaker
          have hle := hlate [] _ past rfl hbefore hfails _ hopening
          have hge := (latestOpening_le_clock hpast hopening).trans
            (step_clock_le hstep)
          rw [step_reading hstep] at hge
          simp only [latestOpening, Opens, hbefore, ne_eq, not_true_eq_false,
            false_and, if_false, hopening, hreading]
          exact congrArg some (le_antisymm hge hle)
        · simp [latestOpening, Opens, hbefore, hopened, hreading]

theorem failure_of_opened {before after : Calls γ} {event : CallEvent ε α γ}
    {outcome : CallOutcome ε α} (htripped : breaker.Tripped before.circuit)
    (hstep : breaker.step before event = some (outcome, after))
    (hopened : before.circuit.state = .opened) (hfails : event.Fails) :
    after.circuit.state = .opened ∧
      after.circuit.openedAt = event.reading ∧
      ∃ call, call ∈ before.running := by
  obtain ⟨_, _, _, rfl, _⟩ | ⟨_, _, _, rfl, _⟩ |
    ⟨id, ending, now, rfl, _, hid, _, rfl⟩ := step_cases hstep
  · exact hfails.elim
  · exact hfails.elim
  · obtain ⟨call, hcall, -⟩ := List.mem_map.mp hid
    cases ending with
    | returned result => exact hfails.elim
    | raised exc =>
        simp only [leave, onFailure_of_opened htripped hopened]
        exact ⟨trivial, rfl, call, hcall⟩
    | cancelled => exact hfails.elim

/--
A call that arrives `recoveryTimeout` or more after the breaker opened is never
rejected exactly in the runs without late failures.
-/
theorem fast_fail_bounded_iff {clock : ℚ} {last : Calls γ}
    {history : List (CallEntry ε α γ)}
    (h : History breaker.step (Calls.fresh clock) history last) :
    FastFailBounded breaker clock history ↔
      (0 < breaker.recoveryTimeout → NoLateFailure history) := by
  constructor
  · rintro hbounded hpositive later entry earlier rfl hstate hfails opening
      hopening
    by_contra hafter
    rw [not_le] at hafter
    obtain ⟨hearlier, hstep, -⟩ := h.at_entry
    obtain ⟨hopened, hopenedAt, ⟨_, func⟩, _⟩ :=
      failure_of_opened (tripped_of_history hearlier) hstep hstate hfails
    -- the call arrives as soon as both the clock and the bound let it
    let now := max entry.input.reading (opening + breaker.recoveryTimeout)
    have hearly : now - entry.after.circuit.openedAt <
        breaker.recoveryTimeout := by
      rw [hopenedAt, sub_lt_iff_lt_add']
      exact max_lt (by linarith) (by linarith)
    have hclock : entry.after.clock ≤ now := by
      rw [step_reading hstep]
      exact le_max_left _ _
    have hprefix : History breaker.step (Calls.fresh clock)
        (entry :: earlier) entry.after :=
      (History.cons_iff entry).mpr ⟨hearlier, hstep, rfl⟩
    exact hbounded later (entry :: earlier) entry.after rfl hprefix opening
      (by simp [latestOpening, Opens, hstate, hopening]) func now
      (le_max_right _ _) _ _ _
      (step_rejects func hclock (enter_of_early hopened hearly))
  · rintro hlate later earlier calls rfl hearlier opening hopening func now
      hnow id exc after hstep
    obtain ⟨_, _, _, _, _, _, hout, _⟩ | ⟨_, _, _, heq, hclock, henter, _, _⟩ |
      ⟨_, _, _, heq, _⟩ := step_cases hstep
    · cases hout
    · cases heq
      obtain ⟨hopened, hearly, -⟩ := enter_eq_error_iff.mp henter
      have hle := openedAt_le_clock hearlier hopened
      by_cases hpositive : 0 < breaker.recoveryTimeout
      · have hopenedAt := openedAt_eq_latestOpening hearlier
          (hlate hpositive).earlier hopened
        rw [hopening, Option.some.injEq] at hopenedAt
        linarith
      · linarith
    · cases heq

def lateFailure : List (CallEvent Unit Unit Unit) :=
  outage ++ [.finish 5 (.raised ()) 50]

theorem late_failure_prolongs :
    ¬ ∀ (history : List (CallEntry Unit Unit Unit)) (last : Calls Unit),
      History (step upstreamBreaker) (Calls.fresh 0) history last →
        FastFailBounded upstreamBreaker 0 history := by
  intro h
  have hrun := history_played (by decide +kernel : (replay
    (step upstreamBreaker) [] (Calls.fresh 0) lateFailure).isSome)
  have hopening : latestOpening (played (step upstreamBreaker) (Calls.fresh 0)
      lateFailure).1 = some 1 := by
    decide +kernel
  have hclock : (played (step upstreamBreaker) (Calls.fresh 0)
      lateFailure).2.clock ≤ 61 := by
    decide +kernel
  have henter : upstreamBreaker.enter (played (step upstreamBreaker)
      (Calls.fresh 0) lateFailure).2.circuit 61 =
        .error upstreamBreaker.openError := by
    decide +kernel
  exact h _ _ hrun [] _ _ rfl hrun 1 hopening () 61
    (by norm_num [upstreamBreaker]) _ _ _ (step_rejects () hclock henter)

theorem fast_fail_bounded_iff_undisturbed :
    FastFailBounded upstreamBreaker 0 (played (step upstreamBreaker)
      (Calls.fresh 0) undisturbedProbe).1 := by
  have hrun := history_played (by decide +kernel : (replay
    (step upstreamBreaker) [] (Calls.fresh 0) undisturbedProbe).isSome)
  have hquiet : ∀ entry ∈ (played (step upstreamBreaker) (Calls.fresh 0)
        undisturbedProbe).1, entry.before.circuit.state = .opened →
      ¬ entry.input.Fails := by
    decide +kernel
  refine (fast_fail_bounded_iff hrun).mpr ?_
  intro _ later entry earlier hsplit hstate hfails
  exact absurd hfails (hquiet entry (by simp [hsplit]) hstate)

end CircuitBreaker

end RateLimitedGateway.Infra
