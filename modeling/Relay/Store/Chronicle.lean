import Mathlib.Data.List.Destutter
import Relay.Library.Runs
import Relay.Store.Database

/-!
# Relay.Store.Chronicle

**What the tables have to say.** A `Chronicle` writes down, next to a store, what its committed
transactions have written and its prunes have not deleted: the requests and power events in their
order, for each session the times at which it was touched, for each server the updates of its row;
and how the transactions of this process ended. `Rendered` says that the tables are a rendering of
it, whatever happened in between: restarts, failed and cancelled transactions, prunes that delete
the newest rows as well as the oldest.

From this follows what the readers of the tables get: the last rows that are left, in the order in
which they were written (`recent_rows`), exact session rows (`session_rows`), and what a restart
restores (`restored_rows`). `mode_lines` is about the degraded mode: the store logs a line when
the end of a transaction differs from that of the one before, and at no other time.
-/

namespace Relay

open Runs

/-- What committed transactions have written and no prune has deleted. -/
structure Chronicle where
  requests : List RequestRecord
  powerEvents : List (Time × PowerRecord)
  visits : SessionKey → List Time
  /-- `none` when the server has no row. -/
  updates : String → Option (List RowUpdate)
  /-- How the transactions of this process ended: `some n` is an environmental failure that cost
  `n` requests. -/
  ends : List (Option Nat)

/-- The end of a transaction that writes `n` requests, where the store takes note of it. -/
def FlushOutcome.ends (n : Nat) : FlushOutcome → List (Option Nat)
  | .write none => [none]
  | .write (some e) => if e.dbFailure then [some n] else []
  | .cancelled => []

/-- The end of the transaction of a call, where it has one. -/
def Store.Op.ends (S : Store) : Store.Op → List (Option Nat)
  | .reconcileServers _ _ outcome => outcome.ends 0
  | .setServerRuntime _ u _ outcome => if u.isEmpty then [] else outcome.ends 0
  | .setEndpointRuntime _ outcome => outcome.ends 0
  | .logPowerEvent _ _ outcome => outcome.ends 0
  | .bulkLogRequests records outcome => if records = [] then [] else outcome.ends records.length
  | .upsertSession _ _ outcome => outcome.ends 0
  | .prune now retentionDays tx =>
      match transact (now - retentionDays * 86400) tx S.tables with
      | .ok _ => [none]
      | .error e => if e.dbFailure then [some 0] else []
  | .restart => []

namespace Chronicle

def empty : Chronicle where
  requests := []
  powerEvents := []
  visits := fun _ => []
  updates := fun _ => none
  ends := []

variable (c : Chronicle)

/-- A prune has deleted what is older than the cutoff; a session is as old as its last visit. -/
def pruned (cutoff : Time) : Chronicle :=
  { c with
    requests := c.requests.filter (fun record => !decide (record.ts < cutoff))
    powerEvents := c.powerEvents.filter (fun event => !decide (event.1 < cutoff))
    visits := fun key => if isBefore cutoff (c.visits key).getLast? then [] else c.visits key }

/-- The servers of a reconciliation have rows. -/
def reconciled (names : List String) : Chronicle :=
  { c with updates := fun name => if name ∈ names then some ((c.updates name).getD [])
    else c.updates name }

/-- The updates of a server that has a row. -/
def updated (name : String) (u : RowUpdate) : Chronicle :=
  { c with updates := Function.update c.updates name ((c.updates name).map (· ++ [u])) }

/-- A session is touched. -/
def visited (key : SessionKey) (now : Time) : Chronicle :=
  { c with visits := Function.update c.visits key (c.visits key ++ [now]) }

/-- What a call on a store has written. -/
def written (S : Store) : Store.Op → Chronicle
  | .reconcileServers names _ (.write none) => c.reconciled names
  | .setServerRuntime name u _ (.write none) => if u.isEmpty then c else c.updated name u
  | .logPowerEvent record now (.write none) =>
      { c with powerEvents := c.powerEvents ++ [(now, record)] }
  | .bulkLogRequests records (.write none) => { c with requests := c.requests ++ records }
  | .upsertSession key now (.write none) => c.visited key now
  | .prune now retentionDays tx =>
      match transact (now - retentionDays * 86400) tx S.tables with
      | .ok _ => c.pruned (now - retentionDays * 86400)
      | .error _ => c
  | .restart => { c with ends := [] }
  | _ => c

/-- The chronicle after a call on a store. -/
def note (S : Store) (op : Store.Op) : Chronicle :=
  { c.written S op with ends := (c.written S op).ends ++ op.ends S }

end Chronicle

/-- A store and its chronicle. -/
structure Chronicled where
  store : Store
  chronicle : Chronicle

namespace Chronicled

/-- The store has opened a new file. -/
def init : Chronicled := ⟨.opened Store.emptyTables, .empty⟩

/-- A call of the store. -/
def step (x : Chronicled) (op : Store.Op) : Option Chronicled :=
  some ⟨x.store.call op, x.chronicle.note x.store op⟩

/-- Calls of a store that has opened a new file. -/
def after (ops : List Store.Op) : Chronicled :=
  ops.foldl (fun x op => ⟨x.store.call op, x.chronicle.note x.store op⟩) init

theorem exec_eq (ops : List Store.Op) : exec step init ops = some (after ops) := by
  have hexec : ∀ x, exec step x ops =
      some (ops.foldl (fun x op => ⟨x.store.call op, x.chronicle.note x.store op⟩) x) := by
    induction ops with
    | nil => exact fun x => rfl
    | cons op ops ih => exact fun x => ih _
  exact hexec init

end Chronicled

/-- The row of a session that was visited at these times. -/
def summary (key : SessionKey) (visits : List Time) : Option SessionRow :=
  visits.head?.map fun first =>
    { client := key.1
      sessionId := key.2.1
      endpoint := key.2.2
      firstSeen := some first
      lastSeen := visits.getLast?
      requestCount := some visits.length }

/-- The row of a server after updates of its first row. -/
def afterUpdates (us : List RowUpdate) : ServerRow := us.foldl (fun row u => u.apply row) {}

/-- A row without its number. -/
def RequestLogRow.unnumbered (row : RequestLogRow) : RequestLogRow := { row with id := 0 }

def PowerEventRow.unnumbered (row : PowerEventRow) : PowerEventRow := { row with id := 0 }

/-- The tables are a rendering of the chronicle. -/
structure Rendered (c : Chronicle) (tables : Tables ServerRecord EndpointRecord) : Prop where
  requests : tables.requests.map RequestLogRow.unnumbered =
    c.requests.map (fun record => record.toRow 0)
  requests_numbered : Rows.Numbered RequestLogRow.id tables.requests
  powerEvents : tables.powerEvents.map PowerEventRow.unnumbered =
    c.powerEvents.map (fun event => event.2.toRow 0 event.1)
  powerEvents_numbered : Rows.Numbered PowerEventRow.id tables.powerEvents
  sessions : ∀ key, Rows.row SessionRow.key key tables.sessions = summary key (c.visits key)
  sessions_nodup : (tables.sessions.map SessionRow.key).Nodup
  servers : ∀ name, (Rows.row ServerRecord.name name tables.serverRuntime).map
    ServerRecord.toServerRow = (c.updates name).map afterUpdates

namespace Rendered

variable {c : Chronicle} {tables : Tables ServerRecord EndpointRecord}

theorem empty : Rendered .empty Store.emptyTables where
  requests := rfl
  requests_numbered := List.Pairwise.nil
  powerEvents := rfl
  powerEvents_numbered := List.Pairwise.nil
  sessions := fun _ => rfl
  sessions_nodup := List.nodup_nil
  servers := fun _ => rfl

/-- How transactions ended is not in the tables. -/
theorem ends (h : Rendered c tables) (ends : List (Option Nat)) :
    Rendered { c with ends := ends } tables :=
  { h with }

/-! ### Requests and power events -/

theorem insertRequests_numbered {rows : List RequestLogRow}
    (h : Rows.Numbered RequestLogRow.id rows) (records : List RequestRecord) :
    Rows.Numbered RequestLogRow.id (insertRequests rows records) := by
  induction records generalizing rows with
  | nil => exact h
  | cons record records ih => exact ih (h.snoc rfl)

theorem insertRequests_map (rows : List RequestLogRow) (records : List RequestRecord) :
    (insertRequests rows records).map RequestLogRow.unnumbered =
      rows.map RequestLogRow.unnumbered ++ records.map (fun record => record.toRow 0) := by
  induction records generalizing rows with
  | nil => simp [insertRequests]
  | cons record records ih =>
      have hrest := ih (rows ++ [record.toRow (Rows.nextNumber RequestLogRow.id rows)])
      rw [List.map_append] at hrest
      refine hrest.trans ?_
      rw [List.append_assoc]
      rfl

theorem bulkLogRequests (h : Rendered c tables) (records : List RequestRecord) :
    Rendered { c with requests := c.requests ++ records }
      { tables with requests := insertRequests tables.requests records } :=
  { h with
    requests := by
      rw [insertRequests_map, h.requests, List.map_append]
    requests_numbered := insertRequests_numbered h.requests_numbered records }

theorem logPowerEvent (h : Rendered c tables) (record : PowerRecord) (now : Time) :
    Rendered { c with powerEvents := c.powerEvents ++ [(now, record)] }
      { tables with
        powerEvents := tables.powerEvents ++
          [record.toRow (Rows.nextNumber PowerEventRow.id tables.powerEvents) now] } :=
  { h with
    powerEvents := by
      rw [List.map_append, h.powerEvents, List.map_append]
      rfl
    powerEvents_numbered := h.powerEvents_numbered.snoc rfl }

/-! ### Sessions -/

theorem summary_snoc (key : SessionKey) (visits : List Time) (now : Time) :
    summary key (visits ++ [now]) =
      some (((summary key visits).map (SessionRow.touched now)).getD (SessionRow.new key now)) := by
  cases visits with
  | nil => rfl
  | cons first visits =>
      have hlast : (first :: (visits ++ [now])).getLast? = some now := by
        rw [← List.cons_append, List.getLast?_concat]
      simp [summary, SessionRow.touched, hlast]

theorem upsertSession (h : Rendered c tables) (key : SessionKey) (now : Time) :
    Rendered (c.visited key now)
      { tables with
        sessions := Rows.upsert SessionRow.key key (SessionRow.touched now)
          (SessionRow.new key now) tables.sessions } := by
  have hnew : SessionRow.key (SessionRow.new key now) = key := rfl
  have htouched : ∀ row, SessionRow.key (SessionRow.touched now row) = SessionRow.key row :=
    fun _ => rfl
  refine { h with
    sessions := ?_
    sessions_nodup := Rows.nodup_upsert htouched hnew h.sessions_nodup }
  intro key'
  unfold Chronicle.visited
  dsimp only
  rw [Rows.row_upsert htouched hnew, h.sessions, h.sessions]
  by_cases hkey : key' = key
  · rw [if_pos hkey, hkey, Function.update_self, summary_snoc]
  · rw [if_neg hkey, Function.update_of_ne hkey]

/-! ### Servers -/

theorem afterUpdates_snoc (us : List RowUpdate) (u : RowUpdate) :
    afterUpdates (us ++ [u]) = u.apply (afterUpdates us) := by
  simp [afterUpdates]

theorem setServerRuntime (h : Rendered c tables) (name : String) (u : RowUpdate) (now : Time) :
    Rendered (c.updated name u)
      { tables with
        serverRuntime := Rows.update ServerRecord.name name (ServerRecord.set u now)
          tables.serverRuntime } := by
  refine { h with servers := fun name' => ?_ }
  unfold Chronicle.updated
  have hset : ∀ row, ServerRecord.name (ServerRecord.set u now row) = ServerRecord.name row :=
    fun _ => rfl
  dsimp only
  rw [Rows.row_update hset]
  by_cases hname : name' = name
  · have hrow := congrArg (Option.map u.apply) (h.servers name)
    rw [if_pos hname, hname, Function.update_self, Option.map_map, Option.map_map]
    rw [Option.map_map, Option.map_map] at hrow
    refine hrow.trans (congrArg (fun f => Option.map f (c.updates name)) (funext fun us => ?_))
    exact (afterUpdates_snoc us u).symm
  · rw [if_neg hname, Function.update_of_ne hname, h.servers]

/-- The rows of a reconciliation: those there were, and new ones. -/
theorem row_reconcileServers (names : List String) (now : Time) (table : List ServerRecord)
    (name : String) :
    (Rows.row ServerRecord.name name (names.foldl (reconcileServer now) table)).map
        ServerRecord.toServerRow =
      if name ∈ names then
        some (((Rows.row ServerRecord.name name table).map ServerRecord.toServerRow).getD {})
      else (Rows.row ServerRecord.name name table).map ServerRecord.toServerRow := by
  induction names generalizing table with
  | nil => rfl
  | cons first names ih =>
      rw [List.foldl_cons, ih]
      cases hfirst : Rows.row ServerRecord.name first table with
      | some row =>
          have hsame : reconcileServer now table first = table := by
            unfold reconcileServer
            rw [hfirst]
          rw [hsame]
          by_cases hname : name = first
          · simp [hname, hfirst]
          · simp [hname]
      | none =>
          have hnew : reconcileServer now table first = table ++ [newServerRecord first now] := by
            unfold reconcileServer
            rw [hfirst]
          rw [hnew, Rows.row_append_new (Rows.row_eq_none.mp hfirst) rfl]
          by_cases hname : name = first
          · simp only [hname, if_true, hfirst, List.mem_cons_self]
            split <;> rfl
          · simp [hname]

theorem reconcileServers (h : Rendered c tables) (names : List String) (now : Time) :
    Rendered (c.reconciled names)
      { tables with
        serverRuntime := names.foldl (reconcileServer now) tables.serverRuntime } := by
  refine { h with servers := fun name => ?_ }
  unfold Chronicle.reconciled
  dsimp only
  rw [row_reconcileServers, h.servers]
  split
  · cases c.updates name <;> rfl
  · rfl

/-! ### Prunes -/

/-- A filter by a column that the number does not touch. -/
theorem map_filter_eq {α β γ : Type} {rows : List α} {records : List β} {f : α → γ} {g : β → γ}
    {p : α → Bool} {q : β → Bool} (r : γ → Bool) (hp : ∀ a, r (f a) = p a)
    (hq : ∀ b, r (g b) = q b) (h : rows.map f = records.map g) :
    (rows.filter p).map f = (records.filter q).map g := by
  have hpf : p = r ∘ f := funext fun a => (hp a).symm
  have hqg : q = r ∘ g := funext fun b => (hq b).symm
  rw [hpf, hqg, ← List.filter_map, ← List.filter_map, h]

theorem retained (h : Rendered c tables) (cutoff : Time) :
    Rendered (c.pruned cutoff) (tables.retained cutoff) where
  requests := map_filter_eq (fun row => !isBefore cutoff row.ts) (fun _ => rfl) (fun _ => rfl)
    h.requests
  requests_numbered := h.requests_numbered.filter _
  powerEvents := map_filter_eq (fun row => !isBefore cutoff row.ts) (fun _ => rfl) (fun _ => rfl)
    h.powerEvents
  powerEvents_numbered := h.powerEvents_numbered.filter _
  sessions := by
    intro key
    have hrow : Rows.row SessionRow.key key (tables.retained cutoff).sessions = _ :=
      Rows.row_filter _ h.sessions_nodup
    rw [hrow, h.sessions]
    change _ = summary key (if isBefore cutoff (c.visits key).getLast? then [] else c.visits key)
    cases hvisits : c.visits key with
    | nil => rfl
    | cons first visits =>
        have hsummary : (summary key (first :: visits)).map SessionRow.lastSeen =
            some (first :: visits).getLast? := rfl
        cases hbefore : isBefore cutoff (first :: visits).getLast? with
        | true => simp [summary, hbefore]
        | false => simp [summary, hbefore]
  sessions_nodup := h.sessions_nodup.sublist (List.filter_sublist.map _)
  servers := h.servers

/-! ### Runs -/

variable {S : Store}

/-- A transaction leaves what it wrote, or nothing. -/
theorem transaction {c' : Chronicle} {tables : Tables ServerRecord EndpointRecord}
    (h : Rendered c S.tables) (h' : Rendered c' tables) (outcome : FlushOutcome) :
    Rendered (if outcome = .write none then c' else c) (S.transaction tables outcome).tables := by
  match outcome with
  | .write none => exact h'
  | .cancelled => exact h
  | .write (some e) =>
      have htables : (S.transaction tables (.write (some e))).tables = S.tables := by
        show (if e.dbFailure then S.noteWriteFailure else S).tables = S.tables
        split <;> rfl
      rw [htables]
      exact h

/-- A transaction of a prune that commits has deleted the stale rows. -/
theorem tables_of_transact {cutoff : Time} {tx : Transaction}
    {pruned : Tables ServerRecord EndpointRecord × Deleted}
    (h : transact cutoff tx tables = .ok pruned) : pruned.1 = tables.retained cutoff := by
  unfold transact at h
  rw [deleteStale_eq] at h
  cases hbegins : tx.begins with
  | some e => simp [hbegins] at h
  | none =>
      cases hfirst : Batch.firstFailure tx.statement 0 (tables.statements cutoff) with
      | some e => simp [hbegins, hfirst] at h
      | none =>
          cases hcommits : tx.commits with
          | some e => simp [hbegins, hfirst, hcommits] at h
          | none =>
              simp only [hbegins, hfirst, hcommits] at h
              exact congrArg Prod.fst (Except.ok.inj h).symm

theorem prune (h : Rendered c S.tables) (now : Time) (retentionDays : Int) (tx : Transaction) :
    Rendered (c.written S (.prune now retentionDays tx)) (S.prune now retentionDays tx).tables := by
  unfold Chronicle.written Store.prune
  dsimp only
  cases htransact : transact (now - retentionDays * 86400) tx S.tables with
  | error e =>
      dsimp only
      split <;> exact h
  | ok pruned =>
      have hretained := h.retained (now - retentionDays * 86400)
      rw [← tables_of_transact htransact] at hretained
      exact hretained

/-- A batch that the store drops is counted, beside its transaction. -/
theorem tables_bulkLogRequests {records : List RequestRecord} (hnil : records ≠ [])
    (outcome : FlushOutcome) :
    (S.bulkLogRequests records outcome).tables =
      (S.transaction { S.tables with requests := insertRequests S.tables.requests records }
        outcome).tables := by
  unfold Store.bulkLogRequests
  rw [if_neg hnil]
  rcases outcome with (_ | e) | _
  · rfl
  · dsimp only
    split <;> rfl
  · rfl

/-- What a call writes, and what its transaction leaves in the tables. -/
theorem call (h : Rendered c S.tables) (op : Store.Op) :
    Rendered (c.written S op) (S.call op).tables := by
  cases op with
  | reconcileServers names now outcome =>
      have hcall := h.transaction (h.reconcileServers names now) outcome
      rcases outcome with (_ | e) | _ <;> exact hcall
  | setServerRuntime name u now outcome =>
      have hcall := h.transaction (h.setServerRuntime name u now) outcome
      unfold Store.call Store.setServerRuntime
      cases hu : u.isEmpty with
      | true =>
          rcases outcome with (_ | e) | _ <;> simpa [Chronicle.written, hu] using h
      | false =>
          rcases outcome with (_ | e) | _ <;> simpa [Chronicle.written, hu] using hcall
  | setEndpointRuntime row outcome =>
      have hrow : Rendered c { S.tables with
          endpointRuntime := Rows.upsert EndpointRecord.name row.name (fun _ => row) row
            S.tables.endpointRuntime } := { h with }
      have hcall := h.transaction hrow outcome
      rwa [ite_self] at hcall
  | logPowerEvent record now outcome =>
      have hcall := h.transaction (h.logPowerEvent record now) outcome
      rcases outcome with (_ | e) | _ <;> exact hcall
  | bulkLogRequests records outcome =>
      have hcall := h.transaction (h.bulkLogRequests records) outcome
      show Rendered _ (S.bulkLogRequests records outcome).tables
      by_cases hnil : records = []
      · rcases outcome with (_ | e) | _ <;>
          simpa [Chronicle.written, Store.bulkLogRequests, hnil] using h
      · rw [tables_bulkLogRequests hnil]
        rcases outcome with (_ | e) | _ <;> exact hcall
  | upsertSession key now outcome =>
      have hcall := h.transaction (h.upsertSession key now) outcome
      rcases outcome with (_ | e) | _ <;> exact hcall
  | prune now retentionDays tx => exact h.prune now retentionDays tx
  | restart => exact h.ends []

/-- **Run lemma.** Whatever a store is called for, its tables are a rendering of its chronicle. -/
theorem of_run {ops : List Store.Op} {x : Chronicled}
    (h : exec Chronicled.step Chronicled.init ops = some x) :
    Rendered x.chronicle x.store.tables := by
  refine (run_any_of_exec h).invariant (I := fun x => Rendered x.chronicle x.store.tables) ?_ empty
  intro y op z hy hstep
  obtain rfl := Option.some.inj hstep.1
  exact (hy.call op).ends _

end Rendered

/-! ### What the readers of the tables get -/

/-- The last entries, all of them for a negative limit. -/
def lastOnes {α : Type} (limit : Int) (l : List α) : List α :=
  l.rtake (if limit < 0 then l.length else limit.toNat)

theorem map_lastOnes {α β : Type} (f : α → β) (limit : Int) (l : List α) :
    (lastOnes limit l).map f = lastOnes limit (l.map f) := by
  simp [lastOnes, List.rtake, List.map_drop]

theorem limited_eq {α : Type} {number : α → Nat} {rows : List α} (h : Rows.Numbered number rows)
    (limit : Int) : Store.limited number limit rows = lastOnes limit rows :=
  Rows.latest_eq_rtake h _

/-- **History is read in the order it was written.** The rows that `get_requests` and
`recent_power_events` return are the last ones written and not pruned, in their order, although
the ids by which they are selected are given again after a prune. -/
theorem recent_rows {ops : List Store.Op} {x : Chronicled}
    (h : exec Chronicled.step Chronicled.init ops = some x) (limit : Int) :
    (x.store.getRequests limit).map RequestLogRow.unnumbered =
        (lastOnes limit x.chronicle.requests).map (fun record => record.toRow 0) ∧
      (x.store.recentPowerEvents limit).map PowerEventRow.unnumbered =
        (lastOnes limit x.chronicle.powerEvents).map (fun event => event.2.toRow 0 event.1) := by
  have hrendered := Rendered.of_run h
  constructor
  · unfold Store.getRequests
    rw [limited_eq hrendered.requests_numbered, map_lastOnes, map_lastOnes, hrendered.requests]
  · unfold Store.recentPowerEvents
    rw [limited_eq hrendered.powerEvents_numbered, map_lastOnes, map_lastOnes,
      hrendered.powerEvents]

/-- A request at a time. -/
def requestTaken (ts : Time) : RequestRecord where
  ts := ts
  server := "gpu"
  endpoint := "chat"
  client := "10.0.0.7"
  sessionId := "s1"
  waitSeconds := 0
  activeSeconds := 1
  statusCode := some 200
  requestBytes := 2
  responseBytes := 3

/-- The key of a session. -/
def oneSession : SessionKey := ("10.0.0.7", "s1", "chat")

/-- The newest request is pruned, since its clock was behind; a write fails; the proxy is
restarted. -/
def prunedNewest : List Store.Op :=
  [.reconcileServers ["gpu"] 9000000 (.write none),
    .bulkLogRequests [requestTaken 9000000, requestTaken 10] (.write none),
    .upsertSession oneSession 9000000 (.write none),
    .setServerRuntime "gpu" { owned := some true } 9000000 (.write none),
    .prune 9000000 90 (RetentionStore.committing none),
    .upsertSession oneSession 9000001 (.write (some (.dbapiError (some .operationalError)))),
    .bulkLogRequests [requestTaken 9000001] (.write (some (.dbapiError (some .operationalError)))),
    .upsertSession oneSession 9000002 (.write none),
    .restart,
    .bulkLogRequests [requestTaken 9000003] (.write none)]

theorem recent_rows_prunedNewest :
    ((Chronicled.after prunedNewest).store.getRequests (-1)).map RequestLogRow.unnumbered =
      [(requestTaken 9000000).toRow 0, (requestTaken 9000003).toRow 0] := by
  rw [(recent_rows (Chronicled.exec_eq prunedNewest) (-1)).1]
  decide +kernel

/-- **Session rows are exact.** The table has one row for each session that was touched since it
was last pruned, with its first and its last visit and their number. -/
theorem session_rows {ops : List Store.Op} {x : Chronicled}
    (h : exec Chronicled.step Chronicled.init ops = some x) :
    (x.store.tables.sessions.map SessionRow.key).Nodup ∧
      ∀ row, row ∈ x.store.tables.sessions ↔
        summary row.key (x.chronicle.visits row.key) = some row := by
  have hrendered := Rendered.of_run h
  refine ⟨hrendered.sessions_nodup, fun row => ?_⟩
  rw [← hrendered.sessions, Rows.row_eq_some_iff hrendered.sessions_nodup]
  exact (and_iff_left rfl).symm

theorem session_rows_prunedNewest :
    { client := "10.0.0.7", sessionId := "s1", endpoint := "chat", firstSeen := some 9000000,
      lastSeen := some 9000002, requestCount := some 2 } ∈
      (Chronicled.after prunedNewest).store.tables.sessions := by
  refine ((session_rows (Chronicled.exec_eq prunedNewest)).2 _).mpr ?_
  decide +kernel

/-- The last value that updates gave to a column. -/
def lastWritten {α : Type} (column : RowUpdate → Option α) (initial : α)
    (us : List RowUpdate) : α :=
  (us.filterMap column).getLast?.getD initial

theorem lastWritten_snoc {α : Type} (column : RowUpdate → Option α) (initial : α)
    (us : List RowUpdate) (u : RowUpdate) :
    lastWritten column initial (us ++ [u]) =
      (column u).getD (lastWritten column initial us) := by
  unfold lastWritten
  rw [List.filterMap_append]
  cases hu : column u with
  | none => simp [hu]
  | some a => simp [hu]

theorem afterUpdates_eq (us : List RowUpdate) :
    afterUpdates us =
      { powerState := some (lastWritten RowUpdate.powerState .unknown us)
        owned := lastWritten RowUpdate.owned false us
        shutdownOverride := lastWritten RowUpdate.shutdownOverride none us
        cycleId := lastWritten RowUpdate.cycleId none us } := by
  induction us using List.reverseRecOn with
  | nil => rfl
  | append_singleton us u ih =>
      rw [Rendered.afterUpdates_snoc, ih]
      simp only [lastWritten_snoc, RowUpdate.apply]
      cases u.powerState <;> rfl

/-- **Restored state.** What a reconciliation returns for a server is, column by column, the last
value that a committed transaction wrote for it, also in an earlier process; a server without a
row is off the books. Whatever becomes of the reconciliation, a server that it returns as owned
was last written as owned. -/
theorem restored_rows {ops : List Store.Op} {x : Chronicled}
    (h : exec Chronicled.step Chronicled.init ops = some x) (names : List String) (now : Time) :
    let history := fun name => (x.chronicle.updates name).getD []
    x.store.reconciled names now (.write none) = some (names.map fun name =>
      (name,
        { powerState := some (lastWritten RowUpdate.powerState .unknown (history name))
          owned := lastWritten RowUpdate.owned false (history name)
          shutdownOverride := lastWritten RowUpdate.shutdownOverride none (history name)
          cycleId := lastWritten RowUpdate.cycleId none (history name) })) ∧
    ∀ outcome rows, x.store.reconciled names now outcome = some rows →
      ∀ row ∈ rows, row.2.owned = true →
        lastWritten RowUpdate.owned false (history row.1) = true := by
  intro history
  have hcommitted : x.store.reconciled names now (.write none) = some (names.map fun name =>
      (name, afterUpdates (history name))) := by
    refine congrArg some (List.map_congr_left fun name hname => Prod.ext rfl ?_)
    dsimp only
    rw [Rendered.row_reconcileServers, if_pos hname, (Rendered.of_run h).servers]
    show ((x.chronicle.updates name).map afterUpdates).getD {} = _
    cases hupdates : x.chronicle.updates name <;> simp [history, hupdates, afterUpdates]
  refine ⟨by simpa only [afterUpdates_eq] using hcommitted, ?_⟩
  intro outcome rows hrows row hrow howned
  rcases outcome with (_ | e) | _
  · rw [hcommitted] at hrows
    obtain rfl := Option.some.inj hrows
    obtain ⟨name, -, rfl⟩ := List.mem_map.mp hrow
    rwa [afterUpdates_eq] at howned
  · -- an environmental failure returns no owned server
    obtain ⟨-, hnames⟩ := Option.ite_none_right_eq_some.mp hrows
    obtain rfl := Option.some.inj hnames
    obtain ⟨name, -, rfl⟩ := List.mem_map.mp hrow
    exact absurd howned Bool.false_ne_true
  · exact absurd hrows (by simp [Store.reconciled])

theorem restored_rows_prunedNewest :
    (Chronicled.after prunedNewest).store.reconciled ["gpu", "nas"] 9000004 (.write none) =
      some [("gpu", { owned := true }), ("nas", {})] := by
  rw [(restored_rows (Chronicled.exec_eq prunedNewest) ["gpu", "nas"] 9000004).1]
  decide +kernel

/-! ### The degraded mode -/

/-- An entry that differs from the one before is a new one of the destuttered list. -/
theorem destutter_snoc {α : Type} [DecidableEq α] (l : List α) (a b : α) :
    (a :: (l ++ [b])).destutter (· ≠ ·) =
      if l.getLast?.getD a = b then (a :: l).destutter (· ≠ ·)
      else (a :: l).destutter (· ≠ ·) ++ [b] := by
  induction l generalizing a with
  | nil =>
      by_cases hab : a = b <;> simp [hab, List.destutter_cons']
  | cons c l ih =>
      have hlast : (c :: l).getLast?.getD a = l.getLast?.getD c := by
        rw [List.getLast?_cons, Option.getD_some]
      have hrest := ih c
      rw [List.destutter_cons', List.destutter_cons'] at hrest
      rw [List.destutter_cons', List.destutter_cons', List.cons_append, List.destutter'_cons,
        List.destutter'_cons, hlast]
      by_cases hac : a = c
      · rw [if_neg (not_not.mpr hac), if_neg (not_not.mpr hac), hac]
        exact hrest
      · rw [if_pos hac, if_pos hac, hrest]
        split <;> rfl

/-- What the store remembers of the ends of its transactions. -/
structure Reported (ends : List (Option Nat)) (S : Store) : Prop where
  degraded : S.degraded = ((ends.map Option.isSome).getLast?.getD false)
  lines : false :: S.lines.map (· == .degraded) =
    (false :: ends.map Option.isSome).destutter (· ≠ ·)
  droppedWrites : S.droppedWrites = ends.countP Option.isSome
  droppedRequests : S.droppedRequests = (ends.filterMap id).sum

namespace Reported

variable {ends : List (Option Nat)} {S : Store}

theorem noteWriteSuccess (h : Reported ends S) (tables : Tables ServerRecord EndpointRecord) :
    Reported (ends ++ [none]) (Store.noteWriteSuccess { S with tables := tables }) where
  degraded := by simp [Store.noteWriteSuccess]
  lines := by
    rw [List.map_append, List.map_singleton, destutter_snoc, ← h.degraded, ← h.lines]
    cases hdegraded : S.degraded <;> simp [Store.noteWriteSuccess]
  droppedWrites := by simpa [Store.noteWriteSuccess] using h.droppedWrites
  droppedRequests := by simpa [Store.noteWriteSuccess] using h.droppedRequests

theorem noteWriteFailure (h : Reported ends S) (n : Nat) :
    Reported (ends ++ [some n])
      { S.noteWriteFailure with droppedRequests := S.noteWriteFailure.droppedRequests + n } where
  degraded := by simp [Store.noteWriteFailure]
  lines := by
    rw [List.map_append, List.map_singleton, destutter_snoc, ← h.degraded, ← h.lines]
    cases hdegraded : S.degraded <;> simp [Store.noteWriteFailure, hdegraded]
  droppedWrites := by simpa [Store.noteWriteFailure] using h.droppedWrites
  droppedRequests := by simpa [Store.noteWriteFailure] using h.droppedRequests

theorem transaction (h : Reported ends S) (tables : Tables ServerRecord EndpointRecord)
    (outcome : FlushOutcome) :
    Reported (ends ++ outcome.ends 0) (S.transaction tables outcome) := by
  rcases outcome with (_ | e) | _
  · exact h.noteWriteSuccess tables
  · show Reported (ends ++ if e.dbFailure then [some 0] else [])
      (if e.dbFailure then S.noteWriteFailure else S)
    split
    · exact h.noteWriteFailure 0
    · rwa [List.append_nil]
  · show Reported (ends ++ []) S
    rwa [List.append_nil]

/-- How a call ends is remembered. -/
theorem call (h : Reported ends S) {op : Store.Op} (hop : op ≠ .restart) :
    Reported (ends ++ op.ends S) (S.call op) := by
  cases op with
  | reconcileServers names now outcome => exact h.transaction _ outcome
  | setServerRuntime name u now outcome =>
      show Reported (ends ++ if u.isEmpty then [] else outcome.ends 0)
        (S.setServerRuntime name u now outcome)
      unfold Store.setServerRuntime
      split
      · rwa [List.append_nil]
      · exact h.transaction _ outcome
  | setEndpointRuntime row outcome => exact h.transaction _ outcome
  | logPowerEvent record now outcome => exact h.transaction _ outcome
  | bulkLogRequests records outcome =>
      show Reported (ends ++ if records = [] then [] else outcome.ends records.length)
        (S.bulkLogRequests records outcome)
      unfold Store.bulkLogRequests
      by_cases hnil : records = []
      · rwa [if_pos hnil, if_pos hnil, List.append_nil]
      · rw [if_neg hnil, if_neg hnil]
        rcases outcome with (_ | e) | _
        · exact h.noteWriteSuccess _
        · cases he : e.dbFailure with
          | true => simpa [FlushOutcome.ends, Store.transaction, he] using
              h.noteWriteFailure records.length
          | false => simpa [FlushOutcome.ends, Store.transaction, he] using h
        · simpa [FlushOutcome.ends, Store.transaction] using h
  | upsertSession key now outcome => exact h.transaction _ outcome
  | prune now retentionDays tx =>
      show Reported (ends ++ Store.Op.ends S (.prune now retentionDays tx))
        (S.prune now retentionDays tx)
      unfold Store.Op.ends Store.prune
      dsimp only
      cases transact (now - retentionDays * 86400) tx S.tables with
      | ok pruned => exact h.noteWriteSuccess pruned.1
      | error e =>
          dsimp only
          split
          · exact h.noteWriteFailure 0
          · rwa [List.append_nil]
  | restart => exact absurd rfl hop

end Reported

/-- What is written leaves the ends alone. -/
theorem ends_written (c : Chronicle) (S : Store) {op : Store.Op} (hop : op ≠ .restart) :
    (c.written S op).ends = c.ends := by
  cases op with
  | setServerRuntime name u now outcome =>
      rcases outcome with (_ | e) | _ <;> simp only [Chronicle.written]
      split <;> rfl
  | prune now retentionDays tx =>
      simp only [Chronicle.written]
      split <;> rfl
  | restart => exact absurd rfl hop
  | reconcileServers names now outcome => rcases outcome with (_ | e) | _ <;> rfl
  | setEndpointRuntime row outcome => rfl
  | logPowerEvent record now outcome => rcases outcome with (_ | e) | _ <;> rfl
  | bulkLogRequests records outcome => rcases outcome with (_ | e) | _ <;> rfl
  | upsertSession key now outcome => rcases outcome with (_ | e) | _ <;> rfl

/-- **One line for each change of mode.** In every run, the store is degraded exactly when the
last transaction that ended was an environmental failure, and its lines are the changes of mode in
their order, so that they alternate, `degraded` first; each failure is counted once, with the
requests of its batch. -/
theorem mode_lines {ops : List Store.Op} {x : Chronicled}
    (h : exec Chronicled.step Chronicled.init ops = some x) :
    x.store.degraded = ((x.chronicle.ends.map Option.isSome).getLast?.getD false) ∧
      false :: x.store.lines.map (· == .degraded) =
        (false :: x.chronicle.ends.map Option.isSome).destutter (· ≠ ·) ∧
      x.store.droppedWrites = x.chronicle.ends.countP Option.isSome ∧
      x.store.droppedRequests = (x.chronicle.ends.filterMap id).sum := by
  have hreported : Reported x.chronicle.ends x.store := by
    refine (run_any_of_exec h).invariant
      (I := fun x => Reported x.chronicle.ends x.store) ?_ ⟨rfl, rfl, rfl, rfl⟩
    intro y op z hy hstep
    obtain rfl := Option.some.inj hstep.1
    by_cases hop : op = .restart
    · subst hop
      exact ⟨rfl, rfl, rfl, rfl⟩
    · show Reported ((y.chronicle.written y.store op).ends ++ op.ends y.store) (y.store.call op)
      rw [ends_written _ _ hop]
      exact hy.call hop
  exact ⟨hreported.degraded, hreported.lines, hreported.droppedWrites,
    hreported.droppedRequests⟩

theorem mode_lines_prunedNewest :
    (Chronicled.after (prunedNewest.take 8)).store.degraded = false ∧
      (Chronicled.after (prunedNewest.take 8)).store.droppedWrites = 2 ∧
      (Chronicled.after (prunedNewest.take 8)).store.droppedRequests = 1 := by
  obtain ⟨hdegraded, -, hwrites, hrequests⟩ := mode_lines (Chronicled.exec_eq (prunedNewest.take 8))
  rw [hdegraded, hwrites, hrequests]
  decide +kernel

end Relay
