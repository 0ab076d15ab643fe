import Relay.Library.OrdDict
import Relay.Server.Basic

/-!
# Relay.Server.Degraded

**Memory first, database second.** The store (`relay/store.py`) drops a write that fails for
an environmental reason, and raises what looks like a bug of the code. An operation on the
power, the ownership or the readiness of a server changes memory before its first write, so
that it makes no difference for memory what becomes of the writes (`memory_first`).

An operation runs to its end here: through what the backend or the probe answers, and then
from one write to the next, each with the outcome it is given. The calls of a server are those
of `ServerRuntime`; `check_readiness` of an endpoint runs `note_service_ready` of its server
inside.
-/

namespace Relay

/-! ### What a write of the store comes to -/

/-- The exceptions of `sqlite3`, the classes below `Error`. -/
inductive Sqlite3Error
  | interfaceError
  | databaseError
  | dataError
  | operationalError
  | internalError
  | integrityError
  | programmingError
  | notSupportedError
  deriving DecidableEq, Repr

/-- The classes below `DatabaseError`, itself included. -/
def Sqlite3Error.isDatabaseError : Sqlite3Error → Bool
  | .interfaceError => false
  | _ => true

/-- What a write raises: a `DBAPIError`, with the exception of `sqlite3` it wraps if it is one,
or anything else. -/
inductive WriteError
  | dbapiError (orig : Option Sqlite3Error)
  | other
  deriving DecidableEq, Repr

/-- `_db_failure`. -/
def WriteError.dbFailure : WriteError → Bool
  | .dbapiError (some orig) =>
      orig.isDatabaseError &&
        !(orig == .programmingError || orig == .integrityError || orig == .notSupportedError)
  | _ => false

/-- What becomes of a write; `none` is a success. -/
abbrev WriteOutcome := Option WriteError

/-- The write raises an error that the store passes on. -/
def WriteOutcome.isRaised (outcome : WriteOutcome) : Bool :=
  outcome.any (fun e => !e.dbFailure)

/-! ### The server, its endpoints and the store -/

/-- What `check_readiness` reads and sets of an `EndpointRuntime`; `ready` is the one of its
queue. -/
structure Readiness where
  healthyStatuses : List Nat
  ready : Bool := false
  readySince : Option Time := none
  lastCheckAt : Option Time := none
  deriving DecidableEq, Repr

/-- `EndpointRuntime` of the store. -/
structure EndpointRow where
  ready : Bool
  readySince : Option Time
  lastCheckAt : Option Time
  deriving DecidableEq, Repr

/-- A call of the power backend, or a probe of an endpoint. -/
inductive BackendCall
  | powerOn
  | powerOff
  | powerState
  | probe (i : Nat)
  deriving DecidableEq, Repr

/-- A write of the store. -/
inductive Write
  | server (call : StoreCall)
  | setEndpointRuntime (i : Nat) (row : EndpointRow)
  deriving DecidableEq, Repr

/-- A server with its endpoints, and the store. The tables of the server are in the server;
`backendCalls` is a history variable. -/
structure Proxy where
  server : ServerRuntime
  endpoints : List Readiness
  endpointRows : OrdDict Nat EndpointRow
  degraded : Bool
  droppedWrites : Nat
  backendCalls : List BackendCall

namespace Proxy

variable (P : Proxy)

/-- `_note_write_failure`. -/
def noteWriteFailure : Proxy := { P with droppedWrites := P.droppedWrites + 1, degraded := true }

/-- `_note_write_success`. -/
def noteWriteSuccess : Proxy := { P with degraded := false }

/-- A write that succeeds. -/
def performed : Write → Proxy
  | .server call => { P with server := P.server.perform call }
  | .setEndpointRuntime i row => { P with endpointRows := P.endpointRows.insert i row }

/-- `set_server_runtime`, `log_power_event` and `set_endpoint_runtime`. -/
def write (w : Write) : WriteOutcome → Proxy
  | none => (P.performed w).noteWriteSuccess
  | some e => if e.dbFailure then P.noteWriteFailure else P

/-! ### Operations -/

/-- An operation, with what the backend and the probe answer. -/
inductive Operation
  | powerOn (reason : PowerReason) (initiatedBy : Initiator) (accepted : Bool)
  | powerOff (reason : PowerReason) (initiatedBy : Initiator) (accepted : Bool)
  | onRoutedTraffic
  | setShutdownOverride (enabled : Bool)
  | noteServiceReady
  | powerSyncTick (state : PowerState)
  /-- The status of the response; `none` is an exception. -/
  | checkReadiness (i : Nat) (status : Option Nat)
  deriving DecidableEq, Repr

/-- Where an operation is suspended. -/
inductive Task
  | server (phase : CallPhase)
  /-- `check_readiness` in `note_service_ready`, and in its own write. -/
  | noting (i : Nat) (phase : CallPhase)
  | storing (i : Nat) (row : EndpointRow)
  | ended (raised : Bool)
  deriving DecidableEq, Repr

/-- A call of the server, from the await at `result.2`; it has called the backend. -/
def answered (call : BackendCall) (result : ServerRuntime.Step) (outcome : Outcome) :
    Proxy × Task :=
  let result := result.1.run result.2 false outcome
  ({ P with server := result.1, backendCalls := P.backendCalls ++ [call] }, .server result.2)

/-- The await of `check_readiness` that writes its own row, with what its probe has found. -/
def storingReadiness (i : Nat) (ok : Bool) : Task :=
  match P.endpoints[i]? with
  | none => .ended false
  | some E => .storing i ⟨ok, E.readySince, E.lastCheckAt⟩

/-- `check_readiness` is in `note_service_ready`, or behind it: its probe was answered. -/
def notingReady (i : Nat) (result : ServerRuntime.Step) : Proxy × Task :=
  let P' := { P with server := result.1 }
  match result.2 with
  | .ended => (P', P'.storingReadiness i true)
  | phase => (P', .noting i phase)

/-- `check_readiness` up to its first write. -/
def checkReadiness (i : Nat) (status : Option Nat) (wall : Time) : Proxy × Task :=
  let P := { P with backendCalls := P.backendCalls ++ [.probe i] }
  match P.endpoints[i]? with
  | none => (P, .ended false)
  | some E =>
      let ok := status.any (fun code => E.healthyStatuses.contains code)
      let E := { E with lastCheckAt := some wall }
      if ok = E.ready then ({ P with endpoints := P.endpoints.set i E }, .ended false)
      else if ok then
        let E := { E with ready := true, readySince := some wall }
        let P := { P with endpoints := P.endpoints.set i E }
        P.notingReady i P.server.noteServiceReady
      else
        let P := { P with endpoints := P.endpoints.set i { E with ready := false } }
        (P, P.storingReadiness i ok)

/-- An operation up to its first write, at `now` of the monotonic and `wall` of the wall
clock. -/
def begin (op : Operation) (active : Bool) (now wall : Time) : Proxy × Task :=
  match op with
  | .powerOn reason initiatedBy accepted =>
      P.answered .powerOn (P.server.powerOn reason initiatedBy) { accepted := accepted }
  | .powerOff reason initiatedBy accepted =>
      P.answered .powerOff (P.server.powerOff active now reason initiatedBy none)
        { accepted := accepted }
  | .onRoutedTraffic =>
      let result := P.server.onRoutedTraffic now
      ({ P with server := result.1 }, .server result.2)
  | .setShutdownOverride enabled =>
      let result := P.server.setShutdownOverride enabled
      ({ P with server := result.1 }, .server result.2)
  | .noteServiceReady =>
      let result := P.server.noteServiceReady
      ({ P with server := result.1 }, .server result.2)
  | .powerSyncTick state => P.answered .powerState (P.server, .polling) { state := state }
  | .checkReadiness i status => P.checkReadiness i status wall

/-- The write a call of the server is at. -/
def writeOf : CallPhase → Option Write
  | .storing call _ _ _ => some (.server call)
  | _ => none

/-- The write an operation is at. -/
def Task.write? : Task → Option Write
  | .server phase | .noting _ phase => writeOf phase
  | .storing i row => some (.setEndpointRuntime i row)
  | .ended _ => none

/-- An operation after its write, which has raised or returned. -/
def resumed (raised : Bool) : Task → Proxy × Task
  | .server phase =>
      let result := P.server.run phase false { raised := raised }
      ({ P with server := result.1 }, if raised then .ended true else .server result.2)
  | .noting i phase =>
      let result := P.server.run phase false { raised := raised }
      if raised then ({ P with server := result.1 }, .ended true) else P.notingReady i result
  | .storing _ _ => (P, .ended raised)
  | .ended raised => (P, .ended raised)

/-- An operation on its way, and the writes it has made. -/
structure Progress where
  proxy : Proxy
  task : Task
  writes : List (Write × WriteOutcome)

/-- An operation makes its next write, if it has one. -/
def Progress.next (p : Progress) (outcome : WriteOutcome) : Progress :=
  match p.task.write? with
  | none => p
  | some w =>
      let after := (p.proxy.write w outcome).resumed outcome.isRaised p.task
      { proxy := after.1, task := after.2, writes := p.writes ++ [(w, outcome)] }

/-- The operation has come to its end. -/
def Progress.isEnded (p : Progress) : Bool := p.task.write?.isNone

/-- It has ended with an exception. -/
def Progress.isRaised (p : Progress) : Bool := decide (p.task = .ended true)

/-- An operation with its circumstances. -/
structure Invocation where
  op : Operation
  active : Bool
  now : Time
  wall : Time

/-- An operation runs to its end; its `i`-th write comes to `outcomes i`. No operation makes
more than three. -/
def perform (x : Invocation) (outcomes : Nat → WriteOutcome) : Progress :=
  let begun := P.begin x.op x.active x.now x.wall
  [outcomes 0, outcomes 1, outcomes 2].foldl Progress.next
    { proxy := begun.1, task := begun.2, writes := [] }

/-- Operations one after the other, each with what becomes of its writes. An exception ends its
operation only. -/
def performAll : Proxy → List (Invocation × (Nat → WriteOutcome)) → Proxy
  | P, [] => P
  | P, x :: xs => performAll (P.perform x.1 x.2).proxy xs

/-! ### Memory -/

/-- Two proxies differ in what the database has and in what the store says of itself, and in
nothing else. -/
structure SameMemory (P Q : Proxy) : Prop where
  server : ∃ row events, Q.server = { P.server with row := row, events := events }
  endpoints : Q.endpoints = P.endpoints
  backendCalls : Q.backendCalls = P.backendCalls

variable {P}

theorem SameMemory.refl (P : Proxy) : SameMemory P P := ⟨⟨_, _, rfl⟩, rfl, rfl⟩

theorem SameMemory.trans {Q R : Proxy} (h : SameMemory P Q) (h' : SameMemory Q R) :
    SameMemory P R := by
  obtain ⟨row, events, hserver⟩ := h.server
  obtain ⟨row', events', hserver'⟩ := h'.server
  exact ⟨⟨row', events', by rw [hserver', hserver]⟩, h'.endpoints.trans h.endpoints,
    h'.backendCalls.trans h.backendCalls⟩

theorem SameMemory.symm {Q : Proxy} (h : SameMemory P Q) : SameMemory Q P := by
  obtain ⟨row, events, hserver⟩ := h.server
  exact ⟨⟨P.server.row, P.server.events, by rw [hserver]⟩, h.endpoints.symm,
    h.backendCalls.symm⟩

/-- A write leaves memory alone, whatever becomes of it. -/
theorem write_sameMemory (w : Write) (outcome : WriteOutcome) :
    SameMemory P (P.write w outcome) := by
  cases outcome with
  | none =>
      cases w with
      | server call => cases call <;> exact ⟨⟨_, _, rfl⟩, rfl, rfl⟩
      | setEndpointRuntime i row => exact ⟨⟨P.server.row, P.server.events, rfl⟩, rfl, rfl⟩
  | some e =>
      show SameMemory P (if e.dbFailure then P.noteWriteFailure else P)
      split
      · exact ⟨⟨P.server.row, P.server.events, rfl⟩, rfl, rfl⟩
      · exact .refl P

/-! ### What follows the first write -/

/-- A call of the server that is at its writes, or behind them. -/
def AtWrites : CallPhase → Prop
  | .storing _ _ _ tick => tick = none
  | phase => phase = .ended

/-- The writes of a call that are left. -/
def writesLeft : CallPhase → Nat
  | .storing _ rest _ _ => rest.length + 1
  | _ => 0

/-- An operation behind its changes of memory. -/
def Task.AtWrites : Task → Prop
  | .server phase => Proxy.AtWrites phase
  | .noting _ phase => Proxy.AtWrites phase ∧ phase ≠ .ended
  | .storing _ _ | .ended _ => True

/-- The writes an operation makes at most from now on. -/
def Task.writesLeft : Task → Nat
  | .server phase => Proxy.writesLeft phase
  | .noting _ phase => Proxy.writesLeft phase + 1
  | .storing _ _ => 1
  | .ended _ => 0

/-- From write to write a call of the server changes nothing. -/
theorem run_atWrites (S : ServerRuntime) {phase : CallPhase} (h : AtWrites phase)
    (raised : Bool) :
    (S.run phase false { raised := raised }).1 = S ∧
      AtWrites (S.run phase false { raised := raised }).2 ∧
      writesLeft (S.run phase false { raised := raised }).2 ≤ writesLeft phase - 1 := by
  cases raised with
  | true => exact ⟨rfl, rfl, Nat.zero_le _⟩
  | false =>
      cases phase with
      | storing call rest committed tick =>
          obtain rfl : tick = none := h
          cases rest with
          | nil => exact ⟨rfl, rfl, Nat.zero_le _⟩
          | cons next rest => exact ⟨rfl, rfl, le_rfl⟩
      | ended => exact ⟨rfl, rfl, Nat.zero_le _⟩
      | _ => exact absurd h (by simp [AtWrites])

theorem storingReadiness_cases (P : Proxy) (i : Nat) (ok : Bool) :
    P.storingReadiness i ok = .ended false ∨ ∃ row, P.storingReadiness i ok = .storing i row := by
  unfold storingReadiness
  cases P.endpoints[i]? with
  | none => exact Or.inl rfl
  | some E => exact Or.inr ⟨_, rfl⟩

/-- `check_readiness` goes on after `note_service_ready`, or with it. -/
theorem notingReady_spec (P : Proxy) (i : Nat) {result : ServerRuntime.Step}
    (h : AtWrites result.2) :
    (P.notingReady i result).1 = { P with server := result.1 } ∧
      (P.notingReady i result).2.AtWrites ∧
      (P.notingReady i result).2.writesLeft ≤ writesLeft result.2 + 1 ∧
      (P.notingReady i result).2 ≠ .ended true := by
  obtain ⟨S, phase⟩ := result
  unfold notingReady
  cases phase with
  | ended =>
      dsimp only
      rcases storingReadiness_cases { P with server := S } i true with hend | ⟨row, hrow⟩
      · rw [hend]
        exact ⟨rfl, trivial, Nat.zero_le _, by simp⟩
      · rw [hrow]
        exact ⟨rfl, trivial, le_rfl, by simp⟩
  | _ => exact ⟨rfl, ⟨h, by simp⟩, le_rfl, by simp⟩

/-- An operation goes on after a write: memory stays, and an exception ends it. -/
theorem resumed_spec (P : Proxy) {task : Task} (h : task.AtWrites) (hwrite : task.write? ≠ none)
    (raised : Bool) :
    (P.resumed raised task).1 = P ∧ (P.resumed raised task).2.AtWrites ∧
      (P.resumed raised task).2.writesLeft ≤ task.writesLeft - 1 ∧
      ((P.resumed raised task).2 = .ended true ↔ raised = true) := by
  cases task with
  | server phase =>
      obtain ⟨hserver, hnext, hleft⟩ := run_atWrites P.server h raised
      unfold resumed
      dsimp only
      rw [hserver]
      cases raised with
      | true => exact ⟨rfl, trivial, Nat.zero_le _, by simp⟩
      | false => exact ⟨rfl, hnext, hleft, by simp⟩
  | noting i phase =>
      obtain ⟨hserver, hnext, hleft⟩ := run_atWrites P.server h.1 raised
      obtain ⟨hproxy, hwrites, hnoted, hne⟩ := notingReady_spec P i hnext
      unfold resumed
      dsimp only
      cases raised with
      | true =>
          rw [if_pos rfl, hserver]
          exact ⟨rfl, trivial, Nat.zero_le _, by simp⟩
      | false =>
          rw [if_neg Bool.false_ne_true]
          have hpos : 0 < writesLeft phase := by
            cases phase with
            | storing call rest committed tick => exact Nat.succ_pos _
            | ended => exact absurd rfl h.2
            | _ => exact absurd h.1 (by simp [AtWrites])
          refine ⟨by rw [hproxy, hserver], hwrites, ?_, by simp [hne]⟩
          show _ ≤ writesLeft phase + 1 - 1
          omega
  | storing i row =>
      exact ⟨rfl, trivial, le_rfl, by simp [resumed]⟩
  | ended raised => exact absurd rfl hwrite

/-! ### Up to the first write -/

theorem answered_atWrites {call : BackendCall} {result : ServerRuntime.Step} {outcome : Outcome}
    (h : AtWrites (result.1.run result.2 false outcome).2)
    (hleft : writesLeft (result.1.run result.2 false outcome).2 ≤ 3) :
    (P.answered call result outcome).2.AtWrites ∧
      (P.answered call result outcome).2.writesLeft ≤ 3 ∧
      (P.answered call result outcome).2 ≠ .ended true :=
  ⟨h, hleft, by simp [answered]⟩

theorem noteServiceReady_atWrites (S : ServerRuntime) :
    AtWrites S.noteServiceReady.2 ∧ writesLeft S.noteServiceReady.2 ≤ 2 := by
  unfold ServerRuntime.noteServiceReady
  split
  · exact ⟨rfl, Nat.zero_le _⟩
  · exact ⟨rfl, le_rfl⟩

theorem onRoutedTraffic_atWrites (S : ServerRuntime) (now : Time) :
    AtWrites (S.onRoutedTraffic now).2 ∧ writesLeft (S.onRoutedTraffic now).2 ≤ 2 := by
  unfold ServerRuntime.onRoutedTraffic
  dsimp only
  split
  · exact ⟨rfl, le_rfl⟩
  · exact ⟨rfl, Nat.zero_le _⟩

theorem polled_atWrites (S : ServerRuntime) (state : PowerState) :
    AtWrites (S.polled state).2 ∧ writesLeft (S.polled state).2 ≤ 2 := by
  unfold ServerRuntime.polled
  split
  · exact ⟨rfl, Nat.zero_le _⟩
  · exact ⟨rfl, le_rfl⟩

theorem checkReadiness_atWrites (i : Nat) (status : Option Nat) (wall : Time) :
    (P.checkReadiness i status wall).2.AtWrites ∧
      (P.checkReadiness i status wall).2.writesLeft ≤ 3 ∧
      (P.checkReadiness i status wall).2 ≠ .ended true := by
  unfold checkReadiness
  dsimp only
  cases P.endpoints[i]? with
  | none => exact ⟨trivial, Nat.zero_le _, by simp⟩
  | some E =>
      dsimp only
      split
      · exact ⟨trivial, Nat.zero_le _, by simp⟩
      · split
        · obtain ⟨hwrites, hleft⟩ := noteServiceReady_atWrites P.server
          obtain ⟨-, hat, hmost, hne⟩ := notingReady_spec _ i hwrites
          exact ⟨hat, hmost.trans (Nat.succ_le_succ hleft), hne⟩
        · rcases storingReadiness_cases _ i _ with hend | ⟨row, hrow⟩
          · rw [hend]
            exact ⟨trivial, Nat.zero_le _, by simp⟩
          · rw [hrow]
            exact ⟨trivial, Nat.le_of_ble_eq_true rfl, by simp⟩

/-- An operation comes to its first write with at most three to make. -/
theorem begin_atWrites (x : Invocation) :
    (P.begin x.op x.active x.now x.wall).2.AtWrites ∧
      (P.begin x.op x.active x.now x.wall).2.writesLeft ≤ 3 ∧
      (P.begin x.op x.active x.now x.wall).2 ≠ .ended true := by
  unfold begin
  cases x.op with
  | powerOn reason initiatedBy accepted =>
      cases accepted with
      | true => exact answered_atWrites rfl (Nat.le_of_ble_eq_true rfl)
      | false => exact answered_atWrites rfl (Nat.le_of_ble_eq_true rfl)
  | powerOff reason initiatedBy accepted =>
      cases accepted with
      | true => exact answered_atWrites rfl (Nat.le_of_ble_eq_true rfl)
      | false => exact answered_atWrites rfl (Nat.le_of_ble_eq_true rfl)
  | onRoutedTraffic =>
      obtain ⟨hwrites, hleft⟩ := onRoutedTraffic_atWrites P.server x.now
      exact ⟨hwrites, hleft.trans (by decide), by simp⟩
  | setShutdownOverride enabled => exact ⟨rfl, Nat.le_of_ble_eq_true rfl, by simp⟩
  | noteServiceReady =>
      obtain ⟨hwrites, hleft⟩ := noteServiceReady_atWrites P.server
      exact ⟨hwrites, hleft.trans (by decide), by simp⟩
  | powerSyncTick state =>
      obtain ⟨hwrites, hleft⟩ := polled_atWrites P.server state
      exact answered_atWrites hwrites (hleft.trans (by decide))
  | checkReadiness i status => exact checkReadiness_atWrites i status x.wall

/-! ### One operation -/

/-- An operation at its writes: memory is as it was at the first of them. -/
structure Progress.Sound (before : Proxy) (p : Progress) : Prop where
  atWrites : p.task.AtWrites
  memory : SameMemory before p.proxy
  raised : p.isRaised = true ↔ ∃ w ∈ p.writes, w.2.isRaised = true

theorem Task.writesLeft_eq_zero_iff {task : Task} (h : task.AtWrites) :
    task.writesLeft = 0 ↔ task.write? = none := by
  have hphase : ∀ {phase : CallPhase}, Proxy.AtWrites phase →
      (Proxy.writesLeft phase = 0 ↔ writeOf phase = none) := by
    intro phase hat
    cases phase with
    | storing call rest committed tick => simp [Proxy.writesLeft, writeOf]
    | _ => simp [Proxy.writesLeft, writeOf]
  cases task with
  | server phase => exact hphase h
  | noting i phase =>
      refine ⟨fun hzero => absurd hzero (Nat.succ_ne_zero _), fun hnone => ?_⟩
      cases phase with
      | storing call rest committed tick => exact absurd hnone (by simp [write?, writeOf])
      | ended => exact absurd rfl h.2
      | _ => exact absurd h.1 (by simp [Proxy.AtWrites])
  | storing i row => simp [writesLeft, write?]
  | ended raised => simp [writesLeft, write?]

/-- One write. -/
theorem Progress.Sound.next {before : Proxy} {p : Progress} (h : p.Sound before)
    (outcome : WriteOutcome) :
    (p.next outcome).Sound before ∧ (p.next outcome).task.writesLeft ≤ p.task.writesLeft - 1 := by
  unfold Progress.next
  cases hw : p.task.write? with
  | none =>
      have hzero := (Task.writesLeft_eq_zero_iff h.atWrites).mpr hw
      exact ⟨h, by simp [hzero]⟩
  | some w =>
      have hgoing : ¬ ∃ w ∈ p.writes, w.2.isRaised = true := by
        rw [← h.raised]
        intro hraised
        rw [of_decide_eq_true hraised] at hw
        exact absurd hw (by simp [Task.write?])
      obtain ⟨hproxy, hat, hleft, hended⟩ := resumed_spec (p.proxy.write w outcome) h.atWrites
        (by simp [hw]) outcome.isRaised
      refine ⟨⟨hat, ?_, ?_⟩, hleft⟩
      · dsimp only
        rw [hproxy]
        exact h.memory.trans (write_sameMemory w outcome)
      · rw [Progress.isRaised, decide_eq_true_iff]
        dsimp only
        rw [hended]
        constructor
        · exact fun hraised => ⟨_, List.mem_append_right _ List.mem_cons_self, hraised⟩
        · rintro ⟨w', hw', hraised⟩
          rcases List.mem_append.mp hw' with hold | hnew
          · exact absurd ⟨w', hold, hraised⟩ hgoing
          · rw [List.mem_singleton.mp hnew] at hraised
            exact hraised

/-- Any number of writes. -/
theorem Progress.Sound.foldl {before : Proxy} {p : Progress} (h : p.Sound before)
    (outcomes : List WriteOutcome) :
    (outcomes.foldl Progress.next p).Sound before ∧
      (outcomes.foldl Progress.next p).task.writesLeft ≤ p.task.writesLeft - outcomes.length := by
  induction outcomes generalizing p with
  | nil => exact ⟨h, le_rfl⟩
  | cons outcome outcomes ih =>
      obtain ⟨hnext, hleft⟩ := h.next outcome
      obtain ⟨hlast, hless⟩ := ih hnext
      refine ⟨hlast, hless.trans ?_⟩
      rw [List.length_cons]
      omega

/-- An operation ends, with memory as it was at its first write, and raises if and only if one
of its writes raised. -/
theorem perform_spec (P : Proxy) (x : Invocation) (outcomes : Nat → WriteOutcome) :
    (P.perform x outcomes).isEnded = true ∧
      (P.perform x outcomes).Sound (P.begin x.op x.active x.now x.wall).1 := by
  obtain ⟨hat, hleft, hne⟩ := begin_atWrites (P := P) x
  have hbegun : Progress.Sound (P.begin x.op x.active x.now x.wall).1
      ⟨(P.begin x.op x.active x.now x.wall).1, (P.begin x.op x.active x.now x.wall).2, []⟩ :=
    ⟨hat, .refl _, by simp [Progress.isRaised, hne]⟩
  obtain ⟨hsound, hless⟩ := hbegun.foldl [outcomes 0, outcomes 1, outcomes 2]
  have hzero : (P.perform x outcomes).task.writesLeft = 0 :=
    Nat.le_zero.mp (hless.trans (Nat.sub_le_of_le_add hleft))
  exact ⟨Option.isNone_iff_eq_none.mpr ((Task.writesLeft_eq_zero_iff hsound.atWrites).mp hzero),
    hsound⟩

/-! ### Operations in a row -/

/-- A call of the server does not read the tables. -/
structure Untabled (f : ServerRuntime → ServerRuntime) : Prop where
  eq : ∀ S row events, ∃ row' events',
    f { S with row := row, events := events } = { f S with row := row', events := events' }

theorem untabled_setState (state : PowerState) : Untabled (fun S => S.setState state) where
  eq := fun S row events => by
    unfold ServerRuntime.setState
    dsimp only
    split
    · exact ⟨_, _, rfl⟩
    · exact ⟨_, _, rfl⟩

theorem untabled_noteServiceReady : Untabled (fun S => S.noteServiceReady.1) where
  eq := fun S row events => by
    unfold ServerRuntime.noteServiceReady
    dsimp only
    split
    · exact ⟨_, _, rfl⟩
    · exact (untabled_setState .on).eq S row events

theorem untabled_onRoutedTraffic (now : Time) : Untabled (fun S => (S.onRoutedTraffic now).1) where
  eq := fun S row events => by
    unfold ServerRuntime.onRoutedTraffic
    dsimp only
    split
    · exact ⟨_, _, rfl⟩
    · exact ⟨_, _, rfl⟩

theorem untabled_polled (state : PowerState) : Untabled (fun S => (S.polled state).1) where
  eq := fun S row events => by
    unfold ServerRuntime.polled
    dsimp only
    split
    · exact ⟨_, _, rfl⟩
    · obtain ⟨row', events', hset⟩ := (untabled_setState state).eq S row events
      exact ⟨row', events', by dsimp only at hset ⊢; rw [hset]⟩

theorem SameMemory.map {Q : Proxy} (h : SameMemory P Q) {f : ServerRuntime → ServerRuntime}
    (hf : Untabled f) :
    SameMemory { P with server := f P.server } { Q with server := f Q.server } := by
  obtain ⟨row, events, hserver⟩ := h.server
  refine ⟨?_, h.endpoints, h.backendCalls⟩
  obtain ⟨row', events', hf'⟩ := hf.eq P.server row events
  exact ⟨row', events', by dsimp only; rw [hserver, hf']⟩

theorem SameMemory.called {Q : Proxy} (h : SameMemory P Q) (call : BackendCall) :
    SameMemory { P with backendCalls := P.backendCalls ++ [call] }
      { Q with backendCalls := Q.backendCalls ++ [call] } :=
  ⟨h.server, h.endpoints, by dsimp only; rw [h.backendCalls]⟩

theorem SameMemory.setEndpoint {Q : Proxy} (h : SameMemory P Q) (i : Nat) (E : Readiness) :
    SameMemory { P with endpoints := P.endpoints.set i E }
      { Q with endpoints := Q.endpoints.set i E } :=
  ⟨h.server, by dsimp only; rw [h.endpoints], h.backendCalls⟩

theorem SameMemory.notingReady {Q : Proxy} (h : SameMemory P Q) (i : Nat) :
    SameMemory (P.notingReady i P.server.noteServiceReady).1
      (Q.notingReady i Q.server.noteServiceReady).1 := by
  rw [(notingReady_spec P i (noteServiceReady_atWrites P.server).1).1,
    (notingReady_spec Q i (noteServiceReady_atWrites Q.server).1).1]
  exact h.map untabled_noteServiceReady

theorem checkReadiness_sameMemory {Q : Proxy} (h : SameMemory P Q) (i : Nat)
    (status : Option Nat) (wall : Time) :
    SameMemory (P.checkReadiness i status wall).1 (Q.checkReadiness i status wall).1 := by
  have hcalled := h.called (.probe i)
  have hendpoint : Q.endpoints[i]? = P.endpoints[i]? := by rw [h.endpoints]
  unfold checkReadiness
  dsimp only
  rw [hendpoint]
  cases P.endpoints[i]? with
  | none => exact hcalled
  | some E =>
      dsimp only
      split
      · exact hcalled.setEndpoint i _
      · split
        · exact (hcalled.setEndpoint i _).notingReady i
        · exact hcalled.setEndpoint i _

/-- Up to its first write an operation does the same to the same memory. -/
theorem begin_sameMemory {Q : Proxy} (h : SameMemory P Q) (x : Invocation) :
    SameMemory (P.begin x.op x.active x.now x.wall).1 (Q.begin x.op x.active x.now x.wall).1 := by
  unfold begin
  cases x.op with
  | powerOn reason initiatedBy accepted =>
      refine (h.called .powerOn).map (f := fun S => ((S.powerOn reason initiatedBy).1.run
        (.poweringOn reason initiatedBy) false { accepted := accepted }).1) ⟨fun S row events => ?_⟩
      cases accepted <;> exact ⟨_, _, rfl⟩
  | powerOff reason initiatedBy accepted =>
      refine (h.called .powerOff).map (f := fun S =>
        ((S.powerOff x.active x.now reason initiatedBy none).1.run
          (.poweringOff reason initiatedBy none) false { accepted := accepted }).1)
        ⟨fun S row events => ?_⟩
      cases accepted <;> exact ⟨_, _, rfl⟩
  | onRoutedTraffic => exact h.map (untabled_onRoutedTraffic x.now)
  | setShutdownOverride enabled =>
      exact h.map (f := fun S => (S.setShutdownOverride enabled).1)
        ⟨fun S row events => ⟨_, _, rfl⟩⟩
  | noteServiceReady => exact h.map untabled_noteServiceReady
  | powerSyncTick state => exact (h.called .powerState).map (untabled_polled state)
  | checkReadiness i status => exact checkReadiness_sameMemory h i status x.wall

/-- The same operations take the same memory to the same memory, whatever becomes of their
writes. -/
theorem performAll_sameMemory {Q : Proxy} (h : SameMemory P Q)
    (xs : List (Invocation × (Nat → WriteOutcome) × (Nat → WriteOutcome))) :
    SameMemory (P.performAll (xs.map fun x => (x.1, x.2.1)))
      (Q.performAll (xs.map fun x => (x.1, x.2.2))) := by
  induction xs generalizing P Q with
  | nil => exact h
  | cons x xs ih =>
      refine ih (((perform_spec P x.1 x.2.1).2.memory.symm.trans
        (begin_sameMemory h x.1)).trans (perform_spec Q x.1 x.2.2).2.memory)

/-- **Memory first.** From any state, whatever the backend or the probe answers and whatever
becomes of the writes:

* an operation ends, with memory, calls of the backend included, as if each write had
  succeeded, and it raises if and only if a write it made raised an error that is no
  environmental failure;
* so do operations in a row: two runs of them that differ only in what becomes of their writes
  go through the same memory. -/
theorem memory_first :
    (∀ (P : Proxy) (x : Invocation) (outcomes : Nat → WriteOutcome),
      (P.perform x outcomes).isEnded = true ∧
        SameMemory (P.perform x fun _ => none).proxy (P.perform x outcomes).proxy ∧
        ((P.perform x outcomes).isRaised = true ↔
          ∃ w ∈ (P.perform x outcomes).writes, ∃ e, w.2 = some e ∧ e.dbFailure = false)) ∧
      ∀ (P : Proxy) (xs : List (Invocation × (Nat → WriteOutcome) × (Nat → WriteOutcome))),
        SameMemory (P.performAll (xs.map fun x => (x.1, x.2.1)))
          (P.performAll (xs.map fun x => (x.1, x.2.2))) := by
  refine ⟨fun P x outcomes => ?_, fun P xs => performAll_sameMemory (.refl P) xs⟩
  obtain ⟨hended, hsound⟩ := perform_spec P x outcomes
  obtain ⟨-, hclean⟩ := perform_spec P x fun _ => none
  refine ⟨hended, hclean.memory.symm.trans hsound.memory, hsound.raised.trans ?_⟩
  have houtcome : ∀ outcome : WriteOutcome,
      outcome.isRaised = true ↔ ∃ e, outcome = some e ∧ e.dbFailure = false := by
    intro outcome
    cases outcome with
    | none => simp [WriteOutcome.isRaised]
    | some e => simp [WriteOutcome.isRaised]
  exact exists_congr fun w => and_congr_right fun _ => houtcome w.2

end Proxy

end Relay
