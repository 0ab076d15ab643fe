import Relay.Library.Rows
import Relay.Store.RequestLog
import Relay.Store.Retention

/-!
# Relay.Store.Database

**The store and its tables** (`Store` of `relay/store.py`, over the models of `relay/db.py`). All
writes are serialized on one lock, and each is one transaction, so that a write is one step with
the outcome its transaction has: it commits, it raises, or it is cancelled. An environmental
failure is counted and dropped; the transitions of the degraded mode are logged.

The ids of `requests` and `power_events` are those SQLite gives to an `INTEGER PRIMARY KEY`
without `AUTOINCREMENT`: one more than the highest in the table.
-/

namespace Relay

/-- A row of `server_runtime`. -/
structure ServerRecord extends ServerRow where
  name : String
  updatedAt : Option Time
  deriving DecidableEq, Repr

/-- A row of `endpoint_runtime`. -/
structure EndpointRecord where
  name : String
  ready : Bool
  readySince : Option Time
  lastCheckAt : Option Time
  deriving DecidableEq, Repr

/-- What is logged when the mode of the store changes. -/
inductive ModeLine
  | degraded
  | recovered
  deriving DecidableEq, Repr

/-- `Store`, with the database it has open; `lines` is what it has logged. -/
structure Store where
  tables : Tables ServerRecord EndpointRecord
  degraded : Bool
  droppedWrites : Nat
  droppedRequests : Nat
  lines : List ModeLine

/-- The columns of a power event that its caller gives. -/
structure PowerRecord where
  server : String
  action : String
  reason : String
  initiatedBy : String
  success : Bool
  deriving DecidableEq, Repr

/-- The key of a row of `sessions`. -/
abbrev SessionKey := String × String × String

def SessionRow.key (row : SessionRow) : SessionKey := (row.client, row.sessionId, row.endpoint)

/-- The row of a session seen for the first time. -/
def SessionRow.new (key : SessionKey) (now : Time) : SessionRow where
  client := key.1
  sessionId := key.2.1
  endpoint := key.2.2
  firstSeen := some now
  lastSeen := some now
  requestCount := some 1

/-- The row of a session seen again. -/
def SessionRow.touched (now : Time) (row : SessionRow) : SessionRow :=
  { row with lastSeen := some now, requestCount := row.requestCount.map (· + 1) }

/-- The row of an event. -/
def PowerRecord.toRow (record : PowerRecord) (id : Nat) (ts : Time) : PowerEventRow where
  id := id
  ts := some ts
  server := some record.server
  action := some record.action
  reason := some record.reason
  initiatedBy := some record.initiatedBy
  success := some record.success

/-- The row of a request. -/
def RequestRecord.toRow (record : RequestRecord) (id : Nat) : RequestLogRow where
  id := id
  ts := some record.ts
  server := some record.server
  endpoint := some record.endpoint
  client := some record.client
  sessionId := some record.sessionId
  waitSeconds := some record.waitSeconds
  activeSeconds := some record.activeSeconds
  statusCode := record.statusCode.map Int.ofNat
  requestBytes := some record.requestBytes
  responseBytes := some record.responseBytes

/-- The rows of a batch, in its order. -/
def insertRequests (rows : List RequestLogRow) (records : List RequestRecord) :
    List RequestLogRow :=
  records.foldl
    (fun rows record => rows ++ [record.toRow (Rows.nextNumber RequestLogRow.id rows)]) rows

/-- The row that `reconcile_servers` inserts for a server without one. -/
def newServerRecord (name : String) (now : Time) : ServerRecord where
  name := name
  powerState := some .unknown
  owned := false
  shutdownOverride := none
  cycleId := none
  updatedAt := some now

/-- `reconcile_servers` inside its transaction, for one name. -/
def reconcileServer (now : Time) (table : List ServerRecord) (name : String) :
    List ServerRecord :=
  match Rows.row ServerRecord.name name table with
  | none => table ++ [newServerRecord name now]
  | some _ => table

/-- The values of a `set_server_runtime`. -/
def RowUpdate.isEmpty (u : RowUpdate) : Bool :=
  u.powerState.isNone && u.owned.isNone && u.shutdownOverride.isNone && u.cycleId.isNone

/-- The row after a `set_server_runtime`. -/
def ServerRecord.set (u : RowUpdate) (now : Time) (row : ServerRecord) : ServerRecord :=
  { row with toServerRow := u.apply row.toServerRow, updatedAt := some now }

namespace Store

/-- `Store.__init__` and `open`, over the tables the file has. -/
def opened (tables : Tables ServerRecord EndpointRecord) : Store where
  tables := tables
  degraded := false
  droppedWrites := 0
  droppedRequests := 0
  lines := []

/-- A file without any row. -/
def emptyTables : Tables ServerRecord EndpointRecord where
  requests := []
  powerEvents := []
  sessions := []
  serverRuntime := []
  endpointRuntime := []

variable (S : Store)

/-- `_note_write_failure`. -/
def noteWriteFailure : Store :=
  { S with
    droppedWrites := S.droppedWrites + 1
    degraded := true
    lines := if S.degraded then S.lines else S.lines ++ [.degraded] }

/-- `_note_write_success`. -/
def noteWriteSuccess : Store :=
  { S with
    degraded := false
    lines := if S.degraded then S.lines ++ [.recovered] else S.lines }

/-- A transaction that would leave `tables`, and how it ends. -/
def transaction (tables : Tables ServerRecord EndpointRecord) : FlushOutcome → Store
  | .write none => noteWriteSuccess { S with tables := tables }
  | .write (some e) => if e.dbFailure then S.noteWriteFailure else S
  | .cancelled => S

/-- `reconcile_servers`: the store; see `reconciled` for the rows it returns. -/
def reconcileServers (names : List String) (now : Time) : FlushOutcome → Store :=
  S.transaction
    { S.tables with serverRuntime := names.foldl (reconcileServer now) S.tables.serverRuntime }

/-- The rows `reconcile_servers` returns; `none` when it raises. -/
def reconciled (names : List String) (now : Time) :
    FlushOutcome → Option (List (String × ServerRow))
  | .write none =>
      let table := names.foldl (reconcileServer now) S.tables.serverRuntime
      some (names.map fun name =>
        (name, ((Rows.row ServerRecord.name name table).map ServerRecord.toServerRow).getD {}))
  | .write (some e) =>
      -- the store is the mirror: every server starts unowned
      if e.dbFailure then some (names.map fun name => (name, {})) else none
  | .cancelled => none

/-- `set_server_runtime`. Without any value there is no transaction. -/
def setServerRuntime (name : String) (u : RowUpdate) (now : Time) (outcome : FlushOutcome) :
    Store :=
  if u.isEmpty then S
  else S.transaction
    { S.tables with
      serverRuntime := Rows.update ServerRecord.name name (ServerRecord.set u now)
        S.tables.serverRuntime } outcome

/-- `set_endpoint_runtime`. -/
def setEndpointRuntime (row : EndpointRecord) : FlushOutcome → Store :=
  S.transaction
    { S.tables with
      endpointRuntime := Rows.upsert EndpointRecord.name row.name (fun _ => row) row
        S.tables.endpointRuntime }

/-- `log_power_event`. -/
def logPowerEvent (record : PowerRecord) (now : Time) : FlushOutcome → Store :=
  S.transaction
    { S.tables with
      powerEvents := S.tables.powerEvents ++
        [record.toRow (Rows.nextNumber PowerEventRow.id S.tables.powerEvents) now] }

/-- `bulk_log_requests`. A batch that the store drops is counted. -/
def bulkLogRequests (records : List RequestRecord) (outcome : FlushOutcome) : Store :=
  if records = [] then S
  else
    let S' := S.transaction
      { S.tables with requests := insertRequests S.tables.requests records } outcome
    match outcome with
    | .write (some e) =>
        if e.dbFailure then { S' with droppedRequests := S'.droppedRequests + records.length }
        else S'
    | _ => S'

/-- `upsert_session`. -/
def upsertSession (key : SessionKey) (now : Time) : FlushOutcome → Store :=
  S.transaction
    { S.tables with
      sessions := Rows.upsert SessionRow.key key (SessionRow.touched now)
        (SessionRow.new key now) S.tables.sessions }

/-- `prune`. A transaction that is cancelled raises what is no `DBAPIError`. -/
def prune (now : Time) (retentionDays : Int) (tx : Transaction) : Store :=
  match transact (now - retentionDays * 86400) tx S.tables with
  | .ok (tables, _) => noteWriteSuccess { S with tables := tables }
  | .error e => if e.dbFailure then S.noteWriteFailure else S

/-- The deletions and the results of `prune` are those of `Relay.Store.Retention`. -/
theorem prune_eq (now : Time) (retentionDays : Int) (tx : Transaction) :
    (S.prune now retentionDays tx).tables =
      ((RetentionStore.mk S.tables S.degraded
      S.droppedWrites).prune now retentionDays tx).1.tables ∧
    (S.prune now retentionDays tx).droppedWrites = ((RetentionStore.mk S.tables S.degraded
      S.droppedWrites).prune now retentionDays tx).1.droppedWrites ∧
    (S.prune now retentionDays tx).degraded = ((RetentionStore.mk S.tables S.degraded
      S.droppedWrites).prune now retentionDays tx).1.degraded := by
  unfold prune RetentionStore.prune
  cases transact (now - retentionDays * 86400) tx S.tables with
  | ok pruned => exact ⟨rfl, rfl, rfl⟩
  | error e =>
      dsimp only
      split <;> exact ⟨rfl, rfl, rfl⟩

/-! ### Reads -/

/-- `LIMIT`, which a negative number lifts. -/
def limited {α : Type} (number : α → Nat) (limit : Int) (rows : List α) : List α :=
  Rows.latest number (if limit < 0 then rows.length else limit.toNat) rows

/-- `recent_power_events`. -/
def recentPowerEvents (limit : Int) : List PowerEventRow :=
  limited PowerEventRow.id limit S.tables.powerEvents

/-- `get_requests`. -/
def getRequests (limit : Int) : List RequestLogRow :=
  limited RequestLogRow.id limit S.tables.requests

/-! ### Runs -/

/-- A call of the store, with its reading of the wall clock and the end of its transaction. -/
inductive Op
  | reconcileServers (names : List String) (now : Time) (outcome : FlushOutcome)
  | setServerRuntime (name : String) (u : RowUpdate) (now : Time) (outcome : FlushOutcome)
  | setEndpointRuntime (row : EndpointRecord) (outcome : FlushOutcome)
  | logPowerEvent (record : PowerRecord) (now : Time) (outcome : FlushOutcome)
  | bulkLogRequests (records : List RequestRecord) (outcome : FlushOutcome)
  | upsertSession (key : SessionKey) (now : Time) (outcome : FlushOutcome)
  | prune (now : Time) (retentionDays : Int) (tx : Transaction)
  /-- The process ends, and another one opens the file. -/
  | restart

/-- The store after a call. -/
def call (S : Store) : Op → Store
  | .reconcileServers names now outcome => S.reconcileServers names now outcome
  | .setServerRuntime name u now outcome => S.setServerRuntime name u now outcome
  | .setEndpointRuntime row outcome => S.setEndpointRuntime row outcome
  | .logPowerEvent record now outcome => S.logPowerEvent record now outcome
  | .bulkLogRequests records outcome => S.bulkLogRequests records outcome
  | .upsertSession key now outcome => S.upsertSession key now outcome
  | .prune now retentionDays tx => S.prune now retentionDays tx
  | .restart => .opened S.tables

end Store

end Relay
