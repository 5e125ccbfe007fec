import RateLimitedGateway.Foundation.History
import RateLimitedGateway.Infra.LogStore

/-!
# Statistics under concurrent writes

`stats` reads the table in three statements, each of which sees all rows that
are committed before it starts.  The writers of the log do not wait for it.
-/

namespace RateLimitedGateway.Infra.PostgresLogStore

open RateLimitedGateway.Foundation

inductive StatsProgress where
  | opened
  | counted (total : List RequestLog)
  | countedLimited (total limited : List RequestLog)
  | averaged (total limited latency : List RequestLog)
  deriving DecidableEq, Repr

structure StatsState where
  rows : List RequestLog
  progress : StatsProgress
  deriving DecidableEq, Repr

inductive StatsStep where
  | write (entry : LogEntry) (createdAt : ℚ)
  | execute
  deriving DecidableEq, Repr

def statsFilter (periodEnd : ℚ) (userId : Option String) : StatsFilter :=
  { periodStart := periodEnd - 24 * 60 * 60, userId := userId }

def report (periodEnd : ℚ) (userId : Option String)
    (total limited latency : List RequestLog) : LogStats :=
  { totalRequests := total.length
    totalRateLimited := (limited.filter fun row => row.rateLimited).length
    avgLatencyMs := averageLatency latency
    periodStart := (statsFilter periodEnd userId).periodStart
    periodEnd := periodEnd }

/-- One call of `stats` among the commits of writers. -/
def statsMachine (periodEnd : ℚ) (userId : Option String) :
    Machine StatsState StatsStep (Option LogStats) := fun state step =>
  let found := state.rows.filter (statsFilter periodEnd userId).admits
  match step, state.progress with
  | .write entry createdAt, _ =>
      some (none, { state with rows := write state.rows createdAt entry })
  | .execute, .opened => some (none, { state with progress := .counted found })
  | .execute, .counted total =>
      some (none, { state with progress := .countedLimited total found })
  | .execute, .countedLimited total limited =>
      some (some (report periodEnd userId total limited found),
        { state with progress := .averaged total limited found })
  | .execute, .averaged _ _ _ => none

abbrev StatsEntry := Entry StatsState StatsStep (Option LogStats)

def disturbance (filter : StatsFilter) (entry : StatsEntry) :
    List RequestLog :=
  match entry.input, entry.before.progress with
  | .write log createdAt, .counted _ =>
      (write [] createdAt log).filter filter.admits
  | .write log createdAt, .countedLimited _ _ =>
      (write [] createdAt log).filter filter.admits
  | _, _ => []

def disturbances (filter : StatsFilter) (history : List StatsEntry) :
    List RequestLog :=
  history.reverse.flatMap (disturbance filter)

theorem disturbances_cons (filter : StatsFilter) (entry : StatsEntry)
    (past : List StatsEntry) :
    disturbances filter (entry :: past) =
      disturbances filter past ++ disturbance filter entry := by
  simp [disturbances]

def Accounted (filter : StatsFilter) (state : StatsState)
    (disturbing : List RequestLog) : Prop :=
  match state.progress with
  | .opened => disturbing = []
  | .counted total => state.rows.filter filter.admits = total ++ disturbing
  | .countedLimited total limited =>
      state.rows.filter filter.admits = total ++ disturbing ∧
        ∃ early late, disturbing = early ++ late ∧ limited = total ++ early
  | .averaged total limited latency =>
      latency = total ++ disturbing ∧
        ∃ early late, disturbing = early ++ late ∧ limited = total ++ early

section Run

variable {periodEnd : ℚ} {userId : Option String}

theorem Accounted.step {before after : StatsState} {step : StatsStep}
    {output : Option LogStats} {disturbing : List RequestLog}
    (h : Accounted (statsFilter periodEnd userId) before disturbing)
    (hstep : statsMachine periodEnd userId before step = some (output, after)) :
    Accounted (statsFilter periodEnd userId) after
      (disturbing ++ disturbance (statsFilter periodEnd userId)
        ⟨before, step, output, after⟩) := by
  obtain ⟨rows, progress⟩ := before
  cases step with
  | write log createdAt =>
      simp only [statsMachine, Option.some_inj, Prod.mk.injEq] at hstep
      obtain ⟨rfl, rfl⟩ := hstep
      cases progress with
      | opened => simpa [Accounted, disturbance] using h
      | counted total =>
          simp only [Accounted] at h
          simp only [Accounted, disturbance]
          rw [write_eq_append, List.filter_append, h, List.append_assoc]
      | countedLimited total limited =>
          simp only [Accounted] at h
          obtain ⟨hrows, early, late, rfl, rfl⟩ := h
          simp only [Accounted, disturbance]
          rw [write_eq_append, List.filter_append, hrows]
          exact ⟨by simp only [List.append_assoc], early, _,
            by rw [List.append_assoc], rfl⟩
      | averaged total limited latency =>
          simpa [Accounted, disturbance] using h
  | execute =>
      cases progress with
      | opened =>
          simp only [statsMachine, Option.some_inj, Prod.mk.injEq] at hstep
          obtain ⟨rfl, rfl⟩ := hstep
          simpa [Accounted, disturbance] using h
      | counted total =>
          simp only [statsMachine, Option.some_inj, Prod.mk.injEq] at hstep
          obtain ⟨rfl, rfl⟩ := hstep
          simp only [Accounted] at h
          simp only [Accounted, disturbance, List.append_nil]
          exact ⟨h, disturbing, [], by simp, h⟩
      | countedLimited total limited =>
          simp only [statsMachine, Option.some_inj, Prod.mk.injEq] at hstep
          obtain ⟨rfl, rfl⟩ := hstep
          simpa [Accounted, disturbance] using h
      | averaged total limited latency => simp [statsMachine] at hstep

theorem accounted_run {rows : List RequestLog} {history : List StatsEntry}
    {last : StatsState}
    (hrun : History (statsMachine periodEnd userId) ⟨rows, .opened⟩ history
      last) :
    Accounted (statsFilter periodEnd userId) last
      (disturbances (statsFilter periodEnd userId) history) := by
  induction hrun with
  | start => rfl
  | next hpast hstep ih =>
      rw [disturbances_cons]
      exact ih.step hstep

end Run

theorem report_limited_le (periodEnd : ℚ) (userId : Option String)
    (rows latency : List RequestLog) :
    (report periodEnd userId rows rows latency).totalRateLimited ≤
      (report periodEnd userId rows rows latency).totalRequests :=
  List.length_filter_le _ _

/--
The numbers of a report belong together, and describe the same rows, exactly if
no admitted row is committed between the first and the last statement.
-/
theorem stats_consistent_iff {periodEnd : ℚ} {userId : Option String}
    {rows total limited latency : List RequestLog}
    {history : List StatsEntry} {last : StatsState}
    (hrun : History (statsMachine periodEnd userId) ⟨rows, .opened⟩ history
      last)
    (hlast : last.progress = .averaged total limited latency) :
    ((report periodEnd userId total limited latency).totalRateLimited ≤
        (report periodEnd userId total limited latency).totalRequests ∧
      limited = total ∧ latency = total) ↔
    ∀ entry ∈ history, disturbance (statsFilter periodEnd userId) entry = [] :=
    by
  have haccounted := accounted_run hrun
  simp only [Accounted, hlast] at haccounted
  obtain ⟨rfl, early, late, hdisturbing, rfl⟩ := haccounted
  have hnone : disturbances (statsFilter periodEnd userId) history = [] ↔
      ∀ entry ∈ history,
        disturbance (statsFilter periodEnd userId) entry = [] := by
    simp [disturbances, List.flatMap_eq_nil_iff]
  rw [← hnone]
  constructor
  · rintro ⟨-, -, hlatency⟩
    exact List.append_right_eq_self.mp hlatency
  · intro hquiet
    rw [hquiet] at hdisturbing ⊢
    obtain ⟨rfl, rfl⟩ := List.append_eq_nil_iff.mp hdisturbing.symm
    simp only [List.append_nil, and_true]
    exact report_limited_le periodEnd userId total total

def limitedEntry : LogEntry :=
  { requestId := "req_0123456789abcdef", userId := "alice", endpoint := "/get",
    method := "GET", statusCode := 429, latencyMs := 3, rateLimited := true,
    ip := none }

theorem stats_consistent_iff_quiet :
    let run := played (statsMachine 100000 none) ⟨[], .opened⟩
      [.write limitedEntry 90000, .execute, .write limitedEntry 0, .execute,
        .execute]
    let rows : List RequestLog := [{ limitedEntry with createdAt := 90000 }]
    run.2.progress = .averaged rows rows rows ∧
      (report 100000 none rows rows rows).totalRateLimited ≤
        (report 100000 none rows rows rows).totalRequests := by
  intro run rows
  have hlast : run.2.progress = .averaged rows rows rows := by decide +kernel
  have hconsistent := (stats_consistent_iff
    (history_played (by decide +kernel)) hlast).mpr (by decide +kernel)
  exact ⟨hlast, hconsistent.1⟩

theorem limited_exceeds_total :
    ¬ ∀ (periodEnd : ℚ) (userId : Option String)
      (rows total limited latency : List RequestLog)
      (history : List StatsEntry) (last : StatsState),
      History (statsMachine periodEnd userId) ⟨rows, .opened⟩ history last →
      last.progress = .averaged total limited latency →
      (report periodEnd userId total limited latency).totalRateLimited ≤
          (report periodEnd userId total limited latency).totalRequests ∧
        limited = total ∧ latency = total := by
  intro hconsistent
  let run := played (statsMachine 100000 none) ⟨[], .opened⟩
    [.execute, .write limitedEntry 90000, .execute, .execute]
  let rows : List RequestLog := [{ limitedEntry with createdAt := 90000 }]
  have hlast : run.2.progress = .averaged [] rows rows := by decide +kernel
  have hle := (hconsistent 100000 none [] [] rows rows run.1 run.2
    (history_played (by decide +kernel)) hlast).1
  revert hle
  decide +kernel

end RateLimitedGateway.Infra.PostgresLogStore
