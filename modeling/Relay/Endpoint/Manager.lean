import Relay.Clients.StatusPoller
import Relay.Queue.Operations

/-!
# Relay.Endpoint.Manager

`_queue_manager_tick` (`relay/endpoints.py`) as a coroutine, up to and including its call of
`queue.tick`: it groups the sessions of known clients by client machine, polls the machines
that are due, one lookup, status map or set of pending lists after the other, merges what they
answer, and then ticks the queue with the clock reading it made at its very start. The
readiness probe and the promotion that follow are steps of their own.

A manager writes its own queue and the pollers, which all endpoints share. A phase names the
await the manager is suspended at.
-/

namespace Relay

/-- An entry of `bases`: the sessions of a client on one machine. -/
structure Machine where
  client : String
  base : String
  sessions : List SessionRef
  deriving DecidableEq, Repr

/-- A session object of one of several endpoints. -/
abbrev WatchedSession := Nat × SessionRef

/-- The poll of a machine, stamped at `startedAt`. `watched` is a history variable: the sessions
of the machine that were tracked, on any endpoint, when the poll started. -/
structure Poll where
  machine : Machine
  startedAt : Time
  watched : List WatchedSession
  deriving DecidableEq, Repr

/-- A pass of the manager that started at `now`, with the machines it has not come to. -/
structure Pass where
  now : Time
  machines : List Machine
  deriving DecidableEq, Repr

/-- `by_dir`. -/
abbrev Directories := OrdDict String (List SessionRef)

/-- Where a manager is suspended. -/
inductive ManagerPhase
  | asleep
  /-- `fetch_session_info` of `s`; `rest` remains of the machine's sessions. -/
  | lookingUp (pass : Pass) (poll : Poll) (byDir : Directories) (s : SessionRef)
      (rest : List SessionRef)
  /-- `fetch_statuses` of a directory; `rest` remains of `by_dir`. -/
  | fetchingStatuses (pass : Pass) (poll : Poll) (directory : String) (sessions : List SessionRef)
      (rest : List (String × List SessionRef))
  /-- `fetch_pending`, after the status map. `receivedAt`, when that arrived, is a history
  variable. -/
  | fetchingPending (pass : Pass) (poll : Poll) (directory : String) (sessions : List SessionRef)
      (rest : List (String × List SessionRef)) (data : Option StatusMap) (receivedAt : Time)
  /-- All machines are polled; `queue.tick` follows at once. -/
  | surrendering (pass : Pass)

/-- The poll a manager is in. -/
def ManagerPhase.poll? : ManagerPhase → Option Poll
  | .lookingUp _ poll _ _ _ | .fetchingStatuses _ poll _ _ _
  | .fetchingPending _ poll _ _ _ _ _ => some poll
  | _ => none

/-- The pass a manager is in. -/
def ManagerPhase.pass? : ManagerPhase → Option Pass
  | .lookingUp pass _ _ _ _ | .fetchingStatuses pass _ _ _ _
  | .fetchingPending pass _ _ _ _ _ _ | .surrendering pass => some pass
  | .asleep => none

/-- What a manager learns where it is suspended: the answer it has awaited, and the clock
readings it makes until it is suspended again. -/
structure Answer where
  info : HttpAnswer SessionInfo := none
  statuses : HttpAnswer StatusMap := none
  pending : List (HttpAnswer (List (Option String))) := []
  /-- The start of the pass, the arrival of the answer, and `reported`. -/
  now : Time
  /-- The stamp of a poll that starts. -/
  stampAt : Time
  /-- The promotions that follow the surrender of a key's spot. -/
  promoteAt : Key → Time

/-- The machine a session is polled on, if its client is polled. -/
def machineOf (pollers : OrdDict String Poller) (x : Session) : Option (String × String) :=
  if x.client = "unknown" then none
  else (pollers.get? x.client).map (fun P => (x.client, P.baseUrl x.clientIp))

/-- What a manager writes: its queue, and the pollers by client. `finished`, the polls that
have come to their end, is a history variable. -/
structure Desk where
  queue : EndpointQueue
  pollers : OrdDict String Poller
  finished : List Poll

namespace Desk

variable (D : Desk)

/-- The poller of a machine. Its client has one, or the machine would not be polled. -/
def pollerOf (m : Machine) : Poller :=
  (D.pollers.get? m.client).getD ⟨false, 0, [], 0, 0, .empty, .empty, .empty⟩

/-- A change of the poller of a machine. -/
def setPoller (m : Machine) (P : Poller) : Desk := { D with pollers := D.pollers.insert m.client P }

/-! ### The machines of a pass -/

/-- A session goes to the machine it is polled on. -/
def addToBases (bases : OrdDict (String × String) (List SessionRef)) (s : SessionRef) :
    OrdDict (String × String) (List SessionRef) :=
  match machineOf D.pollers (D.queue.objs s) with
  | none => bases
  | some key => bases.insert key ((bases.get? key).getD [] ++ [s])

/-- `bases`: the sessions of the table by client machine. -/
def bases : OrdDict (String × String) (List SessionRef) :=
  D.queue.sessions.values.foldl D.addToBases .empty

/-- The machines of a pass that starts now. -/
def machines : List Machine :=
  D.bases.entries.map (fun p => { client := p.1.1, base := p.1.2, sessions := p.2 })

/-! ### The poll of a machine -/

/-- The recomputation of `shared_spot_key` for a session of the machine. -/
def share (m : Machine) (s : SessionRef) : Desk :=
  let P := D.pollerOf m
  let x := D.queue.objs s
  { D with
    queue := D.queue.setSharedSpotKey s
      (if P.parentChain then
        D.queue.resolveSharedSpot m.base x.sessionId P.sessionParent x.client P.childrenDepth
      else none) }

/-- `by_dir.setdefault(directory, []).append(session)`. -/
def addTo (byDir : Directories) (directory : String) (s : SessionRef) : Directories :=
  byDir.insert directory ((byDir.get? directory).getD [] ++ [s])

/-- The loop over the sessions of a machine, as far as their directories are cached. What
remains of the sessions begins with the one that has to be looked up. -/
def lookUps (m : Machine) : Desk → Directories → List SessionRef →
    Desk × Directories × List SessionRef
  | D, byDir, [] => (D, byDir, [])
  | D, byDir, s :: rest =>
      match (D.pollerOf m).sessionDir.get? (m.base, (D.queue.objs s).sessionId) with
      | none => (D, byDir, s :: rest)
      | some directory => lookUps m (D.share m s) (addTo byDir directory s) rest

/-- The loop body for a session that has been looked up; a failed lookup skips the session. -/
def lookedUp (m : Machine) (byDir : Directories) (s : SessionRef)
    (info : Option (String × Option String)) : Desk × Directories :=
  match info with
  | none => (D, byDir)
  | some info =>
      let learnt := D.setPoller m ((D.pollerOf m).learn m.base (D.queue.objs s).sessionId info)
      (learnt.share m s, addTo byDir info.1 s)

/-- The end of a poll: the caches forget the sessions that are gone. -/
def endPoll (poll : Poll) : Desk :=
  let m := poll.machine
  let live := m.sessions.map (fun s => (D.queue.objs s).sessionId)
  { D.setPoller m ((D.pollerOf m).prune m.base live) with finished := D.finished ++ [poll] }

/-- The await a poll is at after its lookups, as far as they go without one. -/
def awaited (pass : Pass) (poll : Poll) (byDir : Directories) (remaining : List SessionRef) :
    Option ManagerPhase :=
  match remaining with
  | s :: rest => some (.lookingUp pass poll byDir s rest)
  | [] =>
      match byDir.entries with
      | [] => none
      | (directory, sessions) :: rest =>
          some (.fetchingStatuses pass poll directory sessions rest)

/-- The loop over the machines. `tracked` gives the sessions of a machine that are tracked on
any endpoint. -/
def pollMachines (now : Time) (answer : Answer) (tracked : Machine → List WatchedSession) :
    Desk → List Machine → Desk × ManagerPhase
  | D, [] => (D, .surrendering ⟨now, []⟩)
  | D, m :: rest =>
      if (D.pollerOf m).due m.base now then
        let D := D.setPoller m ((D.pollerOf m).stamp m.base answer.stampAt)
        let poll : Poll := { machine := m, startedAt := answer.stampAt, watched := tracked m }
        let looked := lookUps m D .empty m.sessions
        match awaited ⟨now, rest⟩ poll looked.2.1 looked.2.2 with
        | some phase => (looked.1, phase)
        | none => pollMachines now answer tracked (looked.1.endPoll poll) rest
      else pollMachines now answer tracked D rest

/-- The start of a pass. -/
def start (answer : Answer) (tracked : Machine → List WatchedSession) : Desk × ManagerPhase :=
  pollMachines answer.now answer tracked D D.machines

/-- The manager runs from the await it is suspended at to the next one, or to the call of
`queue.tick`; `none` when there is nothing to resume. -/
def resume (answer : Answer) (tracked : Machine → List WatchedSession) :
    ManagerPhase → Option (Desk × ManagerPhase)
  | .lookingUp pass poll byDir s rest =>
      let m := poll.machine
      let found := D.lookedUp m byDir s (fetchSessionInfo answer.info)
      let looked := lookUps m found.1 found.2 rest
      some (match awaited pass poll looked.2.1 looked.2.2 with
        | some phase => (looked.1, phase)
        | none => pollMachines pass.now answer tracked (looked.1.endPoll poll) pass.machines)
  | .fetchingStatuses pass poll directory sessions rest =>
      some (D, .fetchingPending pass poll directory sessions rest (fetchStatuses answer.statuses)
        answer.now)
  | .fetchingPending pass poll _ sessions rest data _ =>
      let pending := fetchPending (D.pollerOf poll.machine).pendingKinds answer.pending
      let D := { D with queue := D.queue.mergeReports sessions data pending answer.now }
      some (match rest with
        | (directory, sessions) :: rest =>
            (D, .fetchingStatuses pass poll directory sessions rest)
        | [] => pollMachines pass.now answer tracked (D.endPoll poll) pass.machines)
  | .asleep | .surrendering _ => none

/-- What a manager has written when it has merged the answers of a directory, if it was to. -/
def merged (answer : Answer) : ManagerPhase → Desk
  | .fetchingPending _ poll _ sessions _ data _ =>
      let pending := fetchPending (D.pollerOf poll.machine).pendingKinds answer.pending
      { D with queue := D.queue.mergeReports sessions data pending answer.now }
  | _ => D

/-! ### The sessions of a machine -/

theorem getD_foldl_addToBases (values : List SessionRef)
    (bases : OrdDict (String × String) (List SessionRef)) (k : String × String) :
    ((values.foldl D.addToBases bases).get? k).getD [] = (bases.get? k).getD [] ++
      values.filter (fun s => decide (machineOf D.pollers (D.queue.objs s) = some k)) := by
  induction values generalizing bases with
  | nil => simp
  | cons s rest ih =>
      rw [List.foldl_cons, ih, List.filter_cons]
      unfold addToBases
      cases hkey : machineOf D.pollers (D.queue.objs s) with
      | none => simp
      | some key =>
          by_cases hk : k = key
          · subst hk
            simp
          · simp [OrdDict.get?_insert_of_ne _ _ hk, Ne.symm hk]

/-- The sessions of a machine of the pass are those of the table that are polled on it. -/
theorem sessions_of_machines {m : Machine} (h : m ∈ D.machines) :
    m.sessions = D.queue.sessions.values.filter (fun s =>
      decide (machineOf D.pollers (D.queue.objs s) = some (m.client, m.base))) := by
  obtain ⟨p, hp, rfl⟩ := List.mem_map.mp h
  have hget : D.bases.get? p.1 = some p.2 := OrdDict.get?_eq_some_iff.mpr hp
  have hfold := D.getD_foldl_addToBases D.queue.sessions.values .empty p.1
  rw [show D.queue.sessions.values.foldl D.addToBases .empty = D.bases from rfl, hget] at hfold
  exact hfold

/-! ### What a manager writes between its awaits

Apart from the caches, lookups write shared spots and the last await of a directory writes
reports; nothing else of the queue changes before `queue.tick`. -/

section Rules

variable {D} {I : EndpointQueue → Prop} {now : Time} {answer : Answer}
  {tracked : Machine → List WatchedSession}

theorem share_queue (hshare : ∀ q s key, I q → I (q.setSharedSpotKey s key)) (h : I D.queue)
    (m : Machine) (s : SessionRef) : I (D.share m s).queue :=
  hshare _ _ _ h

theorem lookUps_queue (hshare : ∀ q s key, I q → I (q.setSharedSpotKey s key)) (m : Machine)
    (byDir : Directories) (sessions : List SessionRef) (h : I D.queue) :
    I (lookUps m D byDir sessions).1.queue := by
  induction sessions generalizing D byDir with
  | nil => exact h
  | cons s rest ih =>
      unfold lookUps
      split
      · exact h
      · exact ih _ (share_queue hshare h m s)

theorem lookedUp_queue (hshare : ∀ q s key, I q → I (q.setSharedSpotKey s key)) (h : I D.queue)
    (m : Machine) (byDir : Directories) (s : SessionRef) (info : Option (String × Option String)) :
    I (D.lookedUp m byDir s info).1.queue := by
  cases info with
  | none => exact h
  | some info => exact hshare _ _ _ h

theorem pollMachines_queue (hshare : ∀ q s key, I q → I (q.setSharedSpotKey s key))
    (machines : List Machine) (h : I D.queue) :
    I (pollMachines now answer tracked D machines).1.queue := by
  induction machines generalizing D with
  | nil => exact h
  | cons m rest ih =>
      unfold pollMachines
      split
      · dsimp only
        have hlooked : I (lookUps m
            (D.setPoller m ((D.pollerOf m).stamp m.base answer.stampAt)) .empty
            m.sessions).1.queue := lookUps_queue hshare m _ _ h
        split
        · exact hlooked
        · exact ih hlooked
      · exact ih h

theorem start_queue (hshare : ∀ q s key, I q → I (q.setSharedSpotKey s key)) (h : I D.queue) :
    I (D.start answer tracked).1.queue :=
  pollMachines_queue hshare _ h

/-- After the merge, what sharing spots keeps. -/
theorem resume_queue (hshare : ∀ q s key, I q → I (q.setSharedSpotKey s key))
    {phase : ManagerPhase} {result : Desk × ManagerPhase} (h : I (D.merged answer phase).queue)
    (hresume : D.resume answer tracked phase = some result) : I result.1.queue := by
  cases phase with
  | lookingUp pass poll byDir s rest =>
      obtain rfl := Option.some.inj hresume
      have hlooked := lookUps_queue hshare poll.machine
        (D.lookedUp poll.machine byDir s (fetchSessionInfo answer.info)).2 rest
        (lookedUp_queue hshare h poll.machine byDir s (fetchSessionInfo answer.info))
      split
      · exact hlooked
      · exact pollMachines_queue hshare _ hlooked
  | fetchingStatuses pass poll directory sessions rest =>
      obtain rfl := Option.some.inj hresume
      exact h
  | fetchingPending pass poll directory sessions rest data receivedAt =>
      obtain rfl := Option.some.inj hresume
      split
      · exact h
      · exact pollMachines_queue hshare _ h
  | asleep => exact absurd hresume (by simp [resume])
  | surrendering pass => exact absurd hresume (by simp [resume])

/-- What reporting a status keeps, the merge keeps. -/
theorem merged_queue (hreport : ∀ q s data pending reported, I q →
      I { q with objs := q.objs.modify s (Session.report data pending reported) })
    (h : I D.queue) (phase : ManagerPhase) : I (D.merged answer phase).queue := by
  cases phase with
  | fetchingPending pass poll directory sessions rest data receivedAt =>
      exact EndpointQueue.mergeReports_induction (fun q s _ hq => hreport q s _ _ _ hq) h
  | _ => exact h

end Rules

/-! ### The phase a manager comes to -/

section Phases

variable {D} {now : Time} {answer : Answer} {tracked : Machine → List WatchedSession}

theorem awaited_pass {pass : Pass} {poll : Poll} {byDir : Directories}
    {remaining : List SessionRef} {phase : ManagerPhase}
    (h : awaited pass poll byDir remaining = some phase) : phase.pass? = some pass := by
  unfold awaited at h
  split at h
  · obtain rfl := Option.some.inj h
    rfl
  · split at h
    · exact absurd h (by simp)
    · obtain rfl := Option.some.inj h
      rfl

theorem pollMachines_pass (machines : List Machine) :
    ∃ pass, (pollMachines now answer tracked D machines).2.pass? = some pass ∧ pass.now = now := by
  induction machines generalizing D with
  | nil => exact ⟨_, rfl, rfl⟩
  | cons m rest ih =>
      unfold pollMachines
      split
      · dsimp only
        split
        · rename_i phase hphase
          exact ⟨_, awaited_pass hphase, rfl⟩
        · exact ih
      · exact ih

theorem start_pass (answer : Answer) (tracked : Machine → List WatchedSession) :
    ∃ pass, (D.start answer tracked).2.pass? = some pass ∧ pass.now = answer.now :=
  pollMachines_pass _

/-- The reading a pass was started with is kept to its end. -/
theorem resume_pass {phase : ManagerPhase} {result : Desk × ManagerPhase}
    (h : D.resume answer tracked phase = some result) :
    ∃ pass pass', phase.pass? = some pass ∧ result.2.pass? = some pass' ∧
      pass'.now = pass.now := by
  cases phase with
  | lookingUp pass poll byDir s rest =>
      obtain rfl := Option.some.inj h
      split
      · rename_i phase hphase
        exact ⟨pass, pass, rfl, awaited_pass hphase, rfl⟩
      · obtain ⟨pass', hpass', hnow⟩ := pollMachines_pass pass.machines
        exact ⟨pass, pass', rfl, hpass', hnow⟩
  | fetchingStatuses pass poll directory sessions rest =>
      obtain rfl := Option.some.inj h
      exact ⟨pass, pass, rfl, rfl, rfl⟩
  | fetchingPending pass poll directory sessions rest data receivedAt =>
      obtain rfl := Option.some.inj h
      split
      · exact ⟨pass, pass, rfl, rfl, rfl⟩
      · obtain ⟨pass', hpass', hnow⟩ := pollMachines_pass pass.machines
        exact ⟨pass, pass', rfl, hpass', hnow⟩
  | asleep => exact absurd h (by simp [resume])
  | surrendering pass => exact absurd h (by simp [resume])

end Phases

end Desk

end Relay
