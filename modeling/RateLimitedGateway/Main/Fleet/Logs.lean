import RateLimitedGateway.Infra.LogStore.Query
import RateLimitedGateway.Main.Fleet.Records

/-!
# What an administrator sees of the fleet

`/admin/logs` reads the newest rows of the table that all workers write to.
-/

namespace RateLimitedGateway.Main

open RateLimitedGateway.Core RateLimitedGateway.Foundation
open RateLimitedGateway.Http RateLimitedGateway.Infra
open RateLimitedGateway.Infra.PostgresLogStore
open RateLimitedGateway.Middleware RateLimitedGateway.Routes
open RateLimitedGateway.Services

variable {jobs : ℕ → Job} {shared : Shared} {last : Fleet}
variable {history : List FleetEntry}

theorem mem_addedRows_iff {entry : FleetEntry} {row : RequestLog} :
    row ∈ addedRows entry ↔ ∃ log kept, written? entry.output = some log ∧
      entry.input.2.delivery ≠ .failsBefore ∧
        RequestLog.stored log = some kept ∧
          row = { kept with createdAt := entry.input.2.utcNow } := by
  obtain ⟨before, ⟨id, now⟩, ⟨question, reply⟩, after⟩ := entry
  cases question with
  | writeLog log =>
      cases hstored : RequestLog.stored log <;>
        cases hdelivery : now.delivery <;>
        simp [addedRows, written?, PostgresLogStore.write, hstored, hdelivery]
  | _ => simp [addedRows, written?]

def RecordOf (fleet : Fleet) (row : RequestLog) : Prop :=
  ∃ id served log, fleet.process id = .done served ∧
    log ∈ loggedEntries served.events ∧
    RequestLog.stored log = some row.toLogEntry

theorem row_of_history
    (h : History (fleetMachine jobs) (fleetStart jobs shared) history last)
    {row : RequestLog} (hrow : row ∈ last.shared.log) :
    row ∈ shared.log ∨ RecordOf last row := by
  rw [log_of_history h, List.mem_append, List.mem_flatMap] at hrow
  rcases hrow with hold | ⟨entry, hmem, hadded⟩
  · exact .inl hold
  · obtain ⟨log, kept, hwritten, -, hstored, rfl⟩ :=
      mem_addedRows_iff.mp hadded
    have hturn : log ∈
        (turnsOf entry.input.1 history).filterMap written? := by
      rw [List.mem_filterMap]
      refine ⟨entry.output, List.mem_map.mpr ⟨entry, ?_, rfl⟩, hwritten⟩
      rw [List.mem_filter]
      exact ⟨List.mem_reverse.mp hmem, by simp⟩
    rw [written_of_history h] at hturn
    cases hprocess : last.process entry.input.1 with
    | done served =>
        rw [hprocess] at hturn
        exact .inr ⟨_, served, log, hprocess, hturn, hstored⟩
    | await question resume =>
        rw [hprocess] at hturn
        cases hturn

theorem kept_mem_log
    (h : History (fleetMachine jobs) (fleetStart jobs shared) history last)
    {entry : FleetEntry} (hmem : entry ∈ history) {log : LogEntry}
    (hwritten : written? entry.output = some log) (hkept : Kept entry) :
    ({ log with createdAt := entry.input.2.utcNow } : RequestLog) ∈
      last.shared.log := by
  obtain ⟨hdelivery, haccepts⟩ := hkept log hwritten
  rw [log_of_history h, List.mem_append, List.mem_flatMap]
  exact .inr ⟨entry, List.mem_reverse.mpr hmem,
    mem_addedRows_iff.mpr ⟨log, log, hwritten, hdelivery,
      (RequestLog.stored_eq_self_iff log).mpr haccepts, rfl⟩⟩

def isNewer (row next : RequestLog) : Bool := next.createdAt ≤ row.createdAt

def stably (rows : List RequestLog) : List RequestLog := rows.mergeSort isNewer

theorem stably_ordersByRecency : OrdersByRecency stably where
  perm rows := List.mergeSort_perm rows isNewer
  newestFirst rows := by
    have htrans : ∀ first second third, isNewer first second = true →
        isNewer second third = true → isNewer first third = true := by
      intro first second third hfirst hsecond
      exact decide_eq_true
        (le_trans (of_decide_eq_true hsecond) (of_decide_eq_true hfirst))
    have htotal : ∀ first second,
        (isNewer first second || isNewer second first) = true := by
      intro first second
      simpa [isNewer] using le_total second.createdAt first.createdAt
    exact (List.pairwise_mergeSort htrans htotal rows).imp of_decide_eq_true

def ofAlice : LogsRequest :=
  { userId := some "alice", ge_one := by decide, le_thousand := by decide }

end RateLimitedGateway.Main
