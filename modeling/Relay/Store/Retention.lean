import Relay.Library.Batch
import Relay.Server.Degraded

/-!
# Relay.Store.Retention

**The retention of the store** (`Store.prune` of `relay/store.py`). One transaction deletes the
stale rows of three tables, in batches; each `DELETE` takes as many stale rows as there are up to
the batch, and which ones is up to the database (`Batch.Deletion`). The transaction issues as many
statements as the stale rows need (`Tables.statements`), and it is all or nothing (`prune_spec`).
-/

namespace Relay

/-- A row of `requests`. -/
structure RequestLogRow where
  id : Nat
  ts : Option Time
  server : Option String
  endpoint : Option String
  client : Option String
  sessionId : Option String
  waitSeconds : Option Time
  activeSeconds : Option Time
  statusCode : Option Int
  requestBytes : Option Int
  responseBytes : Option Int
  deriving DecidableEq

/-- A row of `power_events`. -/
structure PowerEventRow where
  id : Nat
  ts : Option Time
  server : Option String
  action : Option String
  reason : Option String
  initiatedBy : Option String
  success : Option Bool
  deriving DecidableEq

/-- A row of `sessions`. The first three columns are its key. -/
structure SessionRow where
  client : String
  sessionId : String
  endpoint : String
  firstSeen : Option Time
  lastSeen : Option Time
  requestCount : Option Int
  deriving DecidableEq

/-- `column < cutoff`, which `NULL` is not. -/
def isBefore (cutoff : Time) (column : Option Time) : Bool := column.any (fun ts => ts < cutoff)

/-- The database. `R` and `E` are the rows of `server_runtime` and `endpoint_runtime`. -/
structure Tables (R E : Type) where
  requests : List RequestLogRow
  powerEvents : List PowerEventRow
  sessions : List SessionRow
  serverRuntime : List R
  endpointRuntime : List E

/-- What the database does in one transaction: what becomes of its begin, of its statements in
turn and of its commit, and which rows a `DELETE` takes that is the `k`-th statement. -/
structure Transaction where
  begins : WriteOutcome
  statement : Nat → WriteOutcome
  commits : WriteOutcome
  requests : Nat → Batch.Deletion RequestLogRow
  powerEvents : Nat → Batch.Deletion PowerEventRow
  sessions : Nat → Batch.Deletion SessionRow

/-- What `prune` reads and sets of the `Store`. -/
structure RetentionStore (R E : Type) where
  tables : Tables R E
  degraded : Bool
  droppedWrites : Nat

/-- `batch` of `prune`. -/
def pruneBatch : Nat := 10000

theorem pruneBatch_pos : 0 < pruneBatch := by decide

variable {R E : Type}

namespace Tables

variable (tables : Tables R E) (cutoff : Time)

/-- The stale rows of the tables, counted. -/
def staleRequests : Nat := tables.requests.countP (fun row => isBefore cutoff row.ts)

def stalePowerEvents : Nat := tables.powerEvents.countP (fun row => isBefore cutoff row.ts)

def staleSessions : Nat := tables.sessions.countP (fun row => isBefore cutoff row.lastSeen)

/-- The tables without their stale rows. -/
def retained : Tables R E :=
  { tables with
    requests := tables.requests.filter (fun row => !isBefore cutoff row.ts)
    powerEvents := tables.powerEvents.filter (fun row => !isBefore cutoff row.ts)
    sessions := tables.sessions.filter (fun row => !isBefore cutoff row.lastSeen) }

/-- The statements that a transaction needs for the stale rows. -/
def statements : Nat :=
  Batch.rounds pruneBatch (tables.staleRequests cutoff) +
    Batch.rounds pruneBatch (tables.stalePowerEvents cutoff) +
    Batch.rounds pruneBatch (tables.staleSessions cutoff)

end Tables

/-- The counts that `prune` returns, by table. -/
abbrev Deleted := List (String × Nat)

/-- The transaction of `prune`, where it comes to its commit: the tables it would leave, and the
counts. -/
def deleteStale (cutoff : Time) (tx : Transaction) (tables : Tables R E) :
    Except WriteError (Tables R E × Deleted) := do
  let (requests, prunedRequests, next) ←
    Batch.deleteAll tx.requests tx.statement (fun row => isBefore cutoff row.ts)
      pruneBatch_pos 0 tables.requests 0
  let (powerEvents, prunedEvents, next) ←
    Batch.deleteAll tx.powerEvents tx.statement (fun row => isBefore cutoff row.ts)
      pruneBatch_pos next tables.powerEvents 0
  let (sessions, prunedSessions, _) ←
    Batch.deleteAll tx.sessions tx.statement (fun row => isBefore cutoff row.lastSeen)
      pruneBatch_pos next tables.sessions 0
  return ({ tables with requests, powerEvents, sessions },
    [("requests", prunedRequests), ("power_events", prunedEvents), ("sessions", prunedSessions)])

/-- The transaction with its begin and its commit. -/
def transact (cutoff : Time) (tx : Transaction) (tables : Tables R E) :
    Except WriteError (Tables R E × Deleted) :=
  match tx.begins with
  | some e => .error e
  | none =>
      match deleteStale cutoff tx tables with
      | .error e => .error e
      | .ok pruned =>
          match tx.commits with
          | some e => .error e
          | none => .ok pruned

namespace RetentionStore

variable (S : RetentionStore R E)

/-- `prune`: the store afterwards, and what is returned or raised. A transaction that raises is
rolled back. -/
def prune (now : Time) (retentionDays : Int) (tx : Transaction) :
    RetentionStore R E × Except WriteError Deleted :=
  match transact (now - retentionDays * 86400) tx S.tables with
  | .ok (tables, deleted) => ({ S with tables := tables, degraded := false }, .ok deleted)
  | .error e =>
      if e.dbFailure then
        ({ S with droppedWrites := S.droppedWrites + 1, degraded := true }, .ok [])
      else (S, .error e)

end RetentionStore

/-! ### All or nothing -/

/-- What becomes of the begin, of a number of statements and of the commit, in this order. -/
def Transaction.outcomes (tx : Transaction) (statements : Nat) : List WriteOutcome :=
  tx.begins :: (List.range' 0 statements).map tx.statement ++ [tx.commits]

variable {cutoff : Time} {tx : Transaction} {tables : Tables R E}

/-- The statements delete every stale row, or the first of them that fails ends it. -/
theorem deleteStale_eq (cutoff : Time) (tx : Transaction) (tables : Tables R E) :
    deleteStale cutoff tx tables =
      match Batch.firstFailure tx.statement 0 (tables.statements cutoff) with
      | some e => .error e
      | none => .ok (tables.retained cutoff,
          [("requests", tables.staleRequests cutoff),
            ("power_events", tables.stalePowerEvents cutoff),
            ("sessions", tables.staleSessions cutoff)]) := by
  unfold deleteStale Tables.statements Tables.retained
  unfold Tables.staleRequests Tables.stalePowerEvents Tables.staleSessions
  rw [Batch.deleteAll_eq, Batch.firstFailure_add, Batch.firstFailure_add]
  generalize tables.requests.countP (fun row => isBefore cutoff row.ts) = stale
  -- table after table: a failure in one ends the transaction
  cases Batch.firstFailure tx.statement 0 (Batch.rounds pruneBatch stale) with
  | some e => rfl
  | none =>
      dsimp only [bind, Except.bind]
      rw [Batch.deleteAll_eq, Option.none_or, Nat.zero_add, Nat.zero_add, Nat.zero_add]
      generalize tables.powerEvents.countP (fun row => isBefore cutoff row.ts) = staleEvents
      cases Batch.firstFailure tx.statement (Batch.rounds pruneBatch stale)
          (Batch.rounds pruneBatch staleEvents) with
      | some e => rfl
      | none =>
          dsimp only [bind, Except.bind]
          rw [Batch.deleteAll_eq, Option.none_or, Nat.zero_add, Nat.zero_add]
          cases Batch.firstFailure tx.statement
              (Batch.rounds pruneBatch stale + Batch.rounds pruneBatch staleEvents) _ with
          | some e => rfl
          | none => rfl

/-- The transaction commits exactly when nothing in it fails. -/
theorem transact_eq_ok (h : ∀ outcome ∈ tx.outcomes (tables.statements cutoff), outcome = none) :
    transact cutoff tx tables = .ok (tables.retained cutoff,
      [("requests", tables.staleRequests cutoff),
        ("power_events", tables.stalePowerEvents cutoff),
        ("sessions", tables.staleSessions cutoff)]) := by
  simp only [Transaction.outcomes, List.cons_append, List.mem_cons, List.mem_append,
    List.mem_map, List.not_mem_nil, or_false] at h
  have hbegins : tx.begins = none := h _ (Or.inl rfl)
  have hcommits : tx.commits = none := h _ (Or.inr (Or.inr rfl))
  have hstatements : Batch.firstFailure tx.statement 0 (tables.statements cutoff) = none :=
    List.findSome?_eq_none_iff.mpr fun k hk => h _ (Or.inr (Or.inl ⟨k, hk, rfl⟩))
  simp [transact, hbegins, deleteStale_eq, hstatements, hcommits]

/-- The first failure is what is raised. -/
theorem transact_eq_error {before after : List WriteOutcome} {e : WriteError}
    (hsplit : tx.outcomes (tables.statements cutoff) = before ++ some e :: after)
    (hbefore : ∀ outcome ∈ before, outcome = none) :
    transact cutoff tx tables = .error e := by
  have hfirst : (tx.outcomes (tables.statements cutoff)).findSome? id = some e :=
    List.findSome?_eq_some_iff.mpr ⟨before, some e, after, hsplit, rfl, hbefore⟩
  have hmap : (tx.outcomes (tables.statements cutoff)).findSome? id =
      tx.begins.or ((Batch.firstFailure tx.statement 0 (tables.statements cutoff)).or
        tx.commits) := by
    simp only [Transaction.outcomes, List.cons_append, List.findSome?_cons, List.findSome?_append,
      List.findSome?_map, id_eq, Function.id_comp, List.findSome?_nil, Batch.firstFailure]
    cases tx.begins <;> cases tx.commits <;> rfl
  rw [hmap] at hfirst
  unfold transact
  rw [deleteStale_eq]
  cases hbegins : tx.begins with
  | some e' => simpa [hbegins] using hfirst
  | none =>
      cases hstatements : Batch.firstFailure tx.statement 0 (tables.statements cutoff) with
      | some e' => simpa [hbegins, hstatements] using hfirst
      | none =>
          rw [hbegins, hstatements, Option.none_or, Option.none_or] at hfirst
          simp [hfirst]

namespace RetentionStore

/-- **Batched retention is one filter.** Where nothing in the transaction fails, each of the three
tables loses its stale rows and no other, and their numbers are returned; otherwise no table
changes, and an environmental failure returns `{}`. -/
theorem prune_spec (S : RetentionStore R E) (now : Time) (retentionDays : Int)
    (tx : Transaction) :
    let cutoff := now - retentionDays * 86400
    let outcomes := tx.outcomes (S.tables.statements cutoff)
    ((∀ outcome ∈ outcomes, outcome = none) →
      (S.prune now retentionDays tx).1.tables = S.tables.retained cutoff ∧
      (S.prune now retentionDays tx).2 =
        .ok [("requests", S.tables.staleRequests cutoff),
          ("power_events", S.tables.stalePowerEvents cutoff),
          ("sessions", S.tables.staleSessions cutoff)]) ∧
    ∀ before e after, outcomes = before ++ some e :: after →
      (∀ outcome ∈ before, outcome = none) →
      (S.prune now retentionDays tx).1.tables = S.tables ∧
      (S.prune now retentionDays tx).2 = if e.dbFailure then .ok [] else .error e := by
  intro cutoff outcomes
  constructor
  · intro hnone
    simp [prune, transact_eq_ok hnone, cutoff]
  · intro before e after hsplit hbefore
    have herror : transact cutoff tx S.tables = .error e := transact_eq_error hsplit hbefore
    unfold prune
    rw [herror]
    dsimp only
    split <;> exact ⟨rfl, rfl⟩

/-- A request row with a timestamp. -/
def requestAt (id : Nat) (ts : Option Time) : RequestLogRow where
  id := id
  ts := ts
  server := none
  endpoint := none
  client := none
  sessionId := none
  waitSeconds := none
  activeSeconds := none
  statusCode := none
  requestBytes := none
  responseBytes := none

/-- An old row, one without a timestamp, and one of today. -/
def threeRequests : RetentionStore Unit Unit where
  tables :=
    { requests := [requestAt 1 (some 10), requestAt 2 none, requestAt 3 (some 9000000)]
      powerEvents := []
      sessions := []
      serverRuntime := [()]
      endpointRuntime := [] }
  degraded := false
  droppedWrites := 0

/-- A transaction of the database, with what becomes of its commit. -/
def committing (commits : WriteOutcome) : Transaction where
  begins := none
  statement := fun _ => none
  commits := commits
  requests := fun _ => Batch.Deletion.first
  powerEvents := fun _ => Batch.Deletion.first
  sessions := fun _ => Batch.Deletion.first

theorem prune_spec_threeRequests :
    (threeRequests.prune 9000000 90 (committing none)).1.tables.requests =
      [requestAt 2 none, requestAt 3 (some 9000000)] ∧
    (threeRequests.prune 9000000 90 (committing none)).2 =
      .ok [("requests", 1), ("power_events", 0), ("sessions", 0)] ∧
    (threeRequests.prune 9000000 90
      (committing (some (.dbapiError (some .operationalError))))).1.tables =
        threeRequests.tables := by
  obtain ⟨htables, hresult⟩ := (prune_spec threeRequests 9000000 90 (committing none)).1
    (by decide +kernel)
  refine ⟨?_, ?_, ?_⟩
  · rw [htables]
    decide +kernel
  · rw [hresult]
    decide +kernel
  · exact ((prune_spec threeRequests 9000000 90
      (committing (some (.dbapiError (some .operationalError))))).2
        [none, none, none, none] (.dbapiError (some .operationalError)) []
          (by decide +kernel) (by decide +kernel)).1

end RetentionStore

end Relay
