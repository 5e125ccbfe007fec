import RateLimitedGateway.Infra.LogStore

/-!
# Recent rows

`query` reads the newest rows of the log, of one user or of all.  Which of two
rows of the same time comes first is up to the database.
-/

namespace RateLimitedGateway.Infra.PostgresLogStore

/-- `ORDER BY created_at DESC`. -/
structure OrdersByRecency (orderBy : List RequestLog → List RequestLog) :
    Prop where
  perm : ∀ rows, (orderBy rows).Perm rows
  newestFirst : ∀ rows, (orderBy rows).Pairwise fun row next =>
    next.createdAt ≤ row.createdAt

def isOf (userId : Option String) (row : RequestLog) : Bool :=
  ∀ user ∈ userId, row.userId = user

def query (orderBy : List RequestLog → List RequestLog)
    (rows : List RequestLog) (userId : Option String) (limit : ℕ) :
    List LogEntry :=
  ((orderBy (rows.filter (isOf userId))).take limit).map RequestLog.toLogEntry

structure LogsRequest where
  userId : Option String := none
  limit : ℕ := 100
  ge_one : 1 ≤ limit
  le_thousand : limit ≤ 1000
  deriving DecidableEq, Repr

/-- `list_logs`; a `LogEntry` has no time, so that the epoch stands for it. -/
def listLogs (orderBy : List RequestLog → List RequestLog)
    (rows : List RequestLog) (request : LogsRequest) : List RequestLog :=
  (query orderBy rows request.userId request.limit).map fun entry =>
    { entry with createdAt := 0 }

section Query

variable {orderBy : List RequestLog → List RequestLog}

theorem mem_take_of_newest {rows : List RequestLog}
    (hsorted : rows.Pairwise fun row next => next.createdAt ≤ row.createdAt)
    {row : RequestLog} (hmem : row ∈ rows) {limit : ℕ}
    (hnewer : rows.countP (row.createdAt ≤ ·.createdAt) ≤ limit) :
    row ∈ rows.take limit := by
  induction rows generalizing limit with
  | nil => cases hmem
  | cons first rows ih =>
      rw [List.pairwise_cons] at hsorted
      have hle : row.createdAt ≤ first.createdAt := by
        rcases List.mem_cons.mp hmem with rfl | hrest
        · exact le_rfl
        · exact hsorted.1 row hrest
      rw [List.countP_cons_of_pos (by simpa using hle)] at hnewer
      cases limit with
      | zero => omega
      | succ limit =>
          rw [List.take_succ_cons, List.mem_cons]
          rcases List.mem_cons.mp hmem with heq | hrest
          · exact .inl heq
          · exact .inr (ih hsorted.2 hrest (by omega))

theorem mem_listLogs_iff {rows : List RequestLog} {request : LogsRequest}
    {listed : RequestLog} :
    listed ∈ listLogs orderBy rows request ↔
      ∃ row ∈ (orderBy (rows.filter (isOf request.userId))).take request.limit,
        { row with createdAt := 0 } = listed := by
  simp only [listLogs, query, List.mem_map, exists_exists_and_eq_and]

theorem length_listLogs (horder : OrdersByRecency orderBy)
    (rows : List RequestLog) (request : LogsRequest) :
    (listLogs orderBy rows request).length =
      min request.limit (rows.countP (isOf request.userId)) := by
  rw [listLogs, query, List.length_map, List.length_map, List.length_take,
    (horder.perm _).length_eq, List.countP_eq_length_filter]

theorem mem_of_listed (horder : OrdersByRecency orderBy)
    {rows : List RequestLog} {request : LogsRequest} {listed : RequestLog}
    (hlisted : listed ∈ listLogs orderBy rows request) :
    ∃ row ∈ rows, isOf request.userId row = true ∧
      row.toLogEntry = listed.toLogEntry := by
  obtain ⟨row, hrow, rfl⟩ := mem_listLogs_iff.mp hlisted
  have hmem := (horder.perm _).mem_iff.mp (List.mem_of_mem_take hrow)
  obtain ⟨hrow, hof⟩ := List.mem_filter.mp hmem
  exact ⟨row, hrow, hof, rfl⟩

theorem listed_or_outrun (horder : OrdersByRecency orderBy)
    {rows : List RequestLog} (request : LogsRequest) {row : RequestLog}
    (hrow : row ∈ rows)
    (hof : isOf request.userId row = true) :
    { row with createdAt := 0 } ∈ listLogs orderBy rows request ∨
      request.limit < rows.countP fun other =>
        isOf request.userId other ∧ row.createdAt ≤ other.createdAt := by
  by_cases hfew : (rows.countP fun other =>
      isOf request.userId other ∧ row.createdAt ≤ other.createdAt) ≤
        request.limit
  · left
    rw [mem_listLogs_iff]
    have hmem : row ∈ orderBy (rows.filter (isOf request.userId)) :=
      (horder.perm _).mem_iff.mpr (List.mem_filter.mpr ⟨hrow, hof⟩)
    refine ⟨row, mem_take_of_newest (horder.newestFirst _) hmem ?_, rfl⟩
    rw [(horder.perm _).countP_eq, List.countP_filter]
    refine hfew.trans' (le_of_eq ?_)
    congr 1
    funext other
    rw [Bool.and_comm]
    simp
  · exact .inr (not_le.mp hfew)

end Query

end RateLimitedGateway.Infra.PostgresLogStore
