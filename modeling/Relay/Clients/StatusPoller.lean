import Relay.Clients.SharedSpot

/-!
# Relay.Clients.StatusPoller

`StatusPoller` (`relay/clients.py`): the caches of one known client and what its answers are
read as, with the part of `_queue_manager_tick` (`relay/endpoints.py`) that merges the two
answers of a directory, the status map and the pending lists, into the sessions.

The merge has a law of its own (`lawfulStatus`): a waiting session stays waiting until pending
lists arrive that do not name it, and an entry that says nothing keeps the last status.
`report_lawful_iff` says exactly which answers make it follow the law.
-/

namespace Relay

/-! ### Answers of a client -/

/-- The answer to a GET: `none` when it raises, else the status code and the body, read as what
the caller looks for; a body that is something else is `none`. -/
abbrev HttpAnswer (β : Type) := Option (Nat × Option β)

/-- The body of a 200. -/
def HttpAnswer.body {β : Type} : HttpAnswer β → Option β
  | some (200, body) => body
  | _ => none

/-- An entry of a status map: an object, with its type if that is a string and the text of its
attempt, or anything else. -/
inductive StatusEntry
  | object (type : Option String) (attempt : Option String)
  | other
  deriving DecidableEq, Repr

/-- The answer of `/session/status`: the sessions of a directory. -/
abbrev StatusMap := OrdDict String StatusEntry

/-- The sessions that wait for a human, with what they wait for. -/
abbrev PendingMap := OrdDict String String

/-- The body of `/session/{id}`: its directory and its parent, if they are strings. -/
structure SessionInfo where
  directory : Option String
  parentId : Option String
  deriving DecidableEq, Repr

/-- `fetch_session_info`: the working directory, and the parent of a sub-agent. -/
def fetchSessionInfo (answer : HttpAnswer SessionInfo) : Option (String × Option String) :=
  match answer.body with
  | none => none
  | some info =>
      match info.directory with
      | none => none
      | some directory =>
          if directory = "" then none
          else some (directory, info.parentId.filter (fun parent => decide (parent ≠ "")))

/-- `fetch_statuses`. -/
def fetchStatuses (answer : HttpAnswer StatusMap) : Option StatusMap := answer.body

/-- The items of one pending list: the `sessionID` of those that have one. -/
def addPending (kind : String) (pending : PendingMap) (items : List (Option String)) :
    PendingMap :=
  items.foldl (fun pending item =>
    match item with
    | some sessionId => pending.insert sessionId kind
    | none => pending) pending

/-- The loop of `fetch_pending` over the endpoints that remain, each with what it stands for;
an endpoint without an answer is one that raises. -/
def pendingLoop : List String → List (HttpAnswer (List (Option String))) → PendingMap →
    Option PendingMap
  | [], _, pending => some pending
  | _ :: _, [], _ => none
  | kind :: kinds, answer :: answers, pending =>
      match answer.body with
      | none => none
      | some items => pendingLoop kinds answers (addPending kind pending items)

/-- `fetch_pending`. -/
def fetchPending (kinds : List String) (answers : List (HttpAnswer (List (Option String)))) :
    Option PendingMap :=
  pendingLoop kinds answers .empty

/-! ### The poller of a client -/

/-- `StatusPoller`, with the settings of its provider. `parentChain` is
`children_kind == "parent-chain"`. -/
structure Poller where
  parentChain : Bool
  childrenDepth : Int
  pendingKinds : List String
  port : Nat
  pollInterval : Time
  lastPoll : OrdDict String Time := .empty
  sessionDir : OrdDict (String × String) String := .empty
  sessionParent : ParentCache := .empty

namespace Poller

variable (P : Poller)

/-- `base_url`. -/
def baseUrl (clientIp : String) : String := "http://" ++ clientIp ++ ":" ++ toString P.port

/-- `due`. -/
def due (base : String) (now : Time) : Bool :=
  decide (P.pollInterval ≤ now - (P.lastPoll.get? base).getD 0)

/-- The stamp of a poll. -/
def stamp (base : String) (now : Time) : Poller := { P with lastPoll := P.lastPoll.insert base now }

/-- `forget`. -/
def forget (base sessionId : String) : Poller :=
  { P with
    sessionDir := P.sessionDir.erase (base, sessionId)
    sessionParent := P.sessionParent.erase (base, sessionId) }

/-- What a session lookup teaches. -/
def learn (base sessionId : String) (info : String × Option String) : Poller :=
  { P with
    sessionDir := P.sessionDir.insert (base, sessionId) info.1
    sessionParent := P.sessionParent.insert (base, sessionId) info.2 }

/-- The cache entries of sessions of the machine that are not in `live` are forgotten. -/
def prune (base : String) (live : List String) : Poller :=
  (P.sessionDir.keys.filter (fun k => decide (k.1 = base ∧ k.2 ∉ live))).foldl
    (fun P k => P.forget k.1 k.2) P

end Poller

/-! ### The merge of two answers -/

/-- The types a status entry may have; every other one is ignored. -/
def statusOfType (type : Option String) : Option Status :=
  if type = some "busy" then some .busy
  else if type = some "idle" then some .idle
  else if type = some "retry" then some .retry
  else none

/-- What the two answers say of a session: its status, and the detail. -/
def reportOf (data : Option StatusMap) (pending : Option PendingMap) (sessionId : String) :
    Option (Status × String) :=
  match pending.bind (fun p => p.get? sessionId) with
  | some reason => some (.waiting, reason)
  | none =>
      match data with
      | none => none
      | some map =>
          match map.get? sessionId with
          | some (.object type attempt) =>
              (statusOfType type).map (fun status =>
                (status, if status = .retry then "attempt " ++ attempt.getD "?" else ""))
          -- what is no object counts as absent, and absence is the idle report
          | some .other | none => some (.idle, "absent from status map (idle)")

/-- The merge of the two answers into one session of the directory. -/
def Session.report (data : Option StatusMap) (pending : Option PendingMap) (reported : Time)
    (x : Session) : Session :=
  match reportOf data pending x.sessionId with
  | none => x
  | some (status, detail) =>
      { x with
        clientStatus := some status
        clientStatusDetail := detail
        clientStatusAt := reported }

/-- The merge for the sessions of a directory. -/
def EndpointQueue.mergeReports (q : EndpointQueue) (sessions : List SessionRef)
    (data : Option StatusMap) (pending : Option PendingMap) (reported : Time) : EndpointQueue :=
  if data.isSome || pending.isSome then
    sessions.foldl (fun q s =>
      { q with objs := q.objs.modify s (Session.report data pending reported) }) q
  else q

/-! ### What the merge writes -/

namespace Session

variable {data : Option StatusMap} {pending : Option PendingMap} {reported : Time} {x : Session}

theorem report_of_none (h : reportOf data pending x.sessionId = none) :
    x.report data pending reported = x := by
  rw [report, h]

theorem report_of_some {status : Status} {detail : String}
    (h : reportOf data pending x.sessionId = some (status, detail)) :
    x.report data pending reported = { x with
      clientStatus := some status
      clientStatusDetail := detail
      clientStatusAt := reported } := by
  rw [report, h]

/-- A second merge of the same answers changes nothing. -/
theorem report_report (data : Option StatusMap) (pending : Option PendingMap) (reported : Time)
    (x : Session) :
    (x.report data pending reported).report data pending reported =
      x.report data pending reported := by
  rcases Option.eq_none_or_eq_some (reportOf data pending x.sessionId) with h | ⟨r, h⟩
  · rw [report_of_none h, report_of_none h]
  · obtain ⟨status, detail⟩ := r
    rw [report_of_some h]
    exact report_of_some h

/-- Without any answer there is no report. -/
theorem report_none_none (reported : Time) (x : Session) : x.report none none reported = x := rfl

/-- The merge writes nothing but the client's report. -/
theorem exists_report_eq (data : Option StatusMap) (pending : Option PendingMap)
    (reported : Time) (x : Session) :
    ∃ status detail at', x.report data pending reported = { x with
      clientStatus := status
      clientStatusDetail := detail
      clientStatusAt := at' } := by
  rcases Option.eq_none_or_eq_some (reportOf data pending x.sessionId) with h | ⟨r, h⟩
  · exact ⟨_, _, _, report_of_none h⟩
  · obtain ⟨status, detail⟩ := r
    exact ⟨_, _, _, report_of_some h⟩

/-- A part of a session that is no report is the same after the merge. -/
theorem report_proj {β : Type*} (π : Session → β)
    (hπ : ∀ (x : Session) status detail at', π { x with
      clientStatus := status
      clientStatusDetail := detail
      clientStatusAt := at' } = π x) (data : Option StatusMap) (pending : Option PendingMap)
    (reported : Time) (x : Session) : π (x.report data pending reported) = π x := by
  obtain ⟨status, detail, at', h⟩ := exists_report_eq data pending reported x
  rw [h, hπ]

theorem cosmetic_report (data : Option StatusMap) (pending : Option PendingMap)
    (reported : Time) : Cosmetic (report data pending reported) where
  key := report_proj key (fun _ _ _ _ => rfl) data pending reported
  inflight := report_proj inflight (fun _ _ _ _ => rfl) data pending reported
  waiting := report_proj waiting (fun _ _ _ _ => rfl) data pending reported
  spotHeld := report_proj spotHeld (fun _ _ _ _ => rfl) data pending reported

end Session

namespace EndpointQueue

variable {data : Option StatusMap} {pending : Option PendingMap} {reported : Time}

/-- The merge is a change of session objects, one after the other. -/
theorem mergeReports_induction {I : EndpointQueue → Prop} {sessions : List SessionRef}
    (hstep : ∀ q, ∀ s ∈ sessions, I q →
      I { q with objs := q.objs.modify s (Session.report data pending reported) })
    {q : EndpointQueue} (h : I q) : I (q.mergeReports sessions data pending reported) := by
  unfold mergeReports
  split
  · induction sessions generalizing q with
    | nil => exact h
    | cons s rest ih =>
        exact ih (fun q s' hs' => hstep q s' (List.mem_cons_of_mem _ hs'))
          (hstep q s List.mem_cons_self h)
  · exact h

theorem mergeReports_eq (q : EndpointQueue) (sessions : List SessionRef) :
    q.mergeReports sessions data pending reported =
      { q with objs := (q.mergeReports sessions data pending reported).objs } :=
  mergeReports_induction (I := fun q' => q' = { q with objs := q'.objs })
    (fun q' s _ h => by rw [h]) rfl

theorem mergeReports_next (q : EndpointQueue) (sessions : List SessionRef) :
    (q.mergeReports sessions data pending reported).objs.next = q.objs.next :=
  mergeReports_induction (I := fun q' => q'.objs.next = q.objs.next) (fun _ _ _ h => h) rfl

/-- Every session of the directory is merged, and no other one. -/
theorem mergeReports_objs (q : EndpointQueue) (sessions : List SessionRef) (s : SessionRef) :
    (q.mergeReports sessions data pending reported).objs s =
      if s ∈ sessions then (q.objs s).report data pending reported else q.objs s := by
  unfold mergeReports
  split
  · induction sessions generalizing q with
    | nil => rfl
    | cons s' rest ih =>
        rw [List.foldl_cons, ih]
        dsimp only
        by_cases hs : s = s'
        · subst hs
          rw [Heap.modify_self]
          simp [Session.report_report]
        · rw [Heap.modify_of_ne _ _ hs]
          simp [hs]
  · rename_i hnone
    -- without an answer the merge of a session does nothing either
    have hdata : data = none := by
      cases data with
      | none => rfl
      | some map => exact absurd rfl hnone
    have hpending : pending = none := by
      cases pending with
      | none => rfl
      | some p => exact absurd (by simp) hnone
    rw [hdata, hpending, Session.report_none_none, ite_self]

end EndpointQueue

/-! ### The law of the merge -/

/-- What an entry says. -/
def StatusEntry.status? : StatusEntry → Option Status
  | .object type _ => statusOfType type
  | .other => none

/-- The client status a poll should leave: a session that waits for a human is waiting, and
stays so until it is known that it no longer does; absence from a fresh map means idle; what
says nothing changes nothing. -/
def lawfulStatus (data : Option StatusMap) (pending : Option PendingMap) (sessionId : String)
    (status : Option Status) : Option Status :=
  if (pending.bind (fun p => p.get? sessionId)).isSome then some .waiting
  else if status = some .waiting ∧ pending = none then status
  else
    match data with
    | none => status
    | some map =>
        match map.get? sessionId with
        | none => some .idle
        | some entry => entry.status?.or status

theorem statusOfType_ne_waiting (type : Option String) : statusOfType type ≠ some .waiting := by
  unfold statusOfType
  split
  · simp
  · split
    · simp
    · split <;> simp

namespace Session

/-- A status map may be read for the session: while it waits, and it is not known for what,
the map says nothing of it; and an entry that is no object finds it idle. -/
def MayRead (data : Option StatusMap) (pending : Option PendingMap) (x : Session) : Prop :=
  ∀ map, data = some map → pending.bind (fun p => p.get? x.sessionId) = none →
    (x.clientStatus = some .waiting → pending = none →
      ∃ type attempt, map.get? x.sessionId = some (.object type attempt) ∧
        statusOfType type = none) ∧
    (map.get? x.sessionId = some .other → x.clientStatus = some .idle)

theorem clientStatus_report (data : Option StatusMap) (pending : Option PendingMap)
    (reported : Time) (x : Session) :
    (x.report data pending reported).clientStatus =
      ((reportOf data pending x.sessionId).map Prod.fst).or x.clientStatus := by
  rcases Option.eq_none_or_eq_some (reportOf data pending x.sessionId) with h | ⟨r, h⟩
  · rw [report_of_none h, h]
    rfl
  · obtain ⟨status, detail⟩ := r
    rw [report_of_some h, h]
    rfl

/-- The merge follows the law exactly when the map may be read. -/
theorem report_lawful_iff (data : Option StatusMap) (pending : Option PendingMap)
    (reported : Time) (x : Session) :
    (x.report data pending reported).clientStatus =
      lawfulStatus data pending x.sessionId x.clientStatus ↔ x.MayRead data pending := by
  rw [clientStatus_report]
  unfold MayRead lawfulStatus reportOf
  cases hpending : pending.bind (fun p => p.get? x.sessionId) with
  | some reason =>
      -- the session waits for a human, whatever the map says
      simp
  | none =>
      cases data with
      | none => simp
      | some map =>
          simp only [Option.some.injEq, forall_eq', forall_true_left, Option.isSome_none,
            Bool.false_eq_true, if_false]
          by_cases hwait : x.clientStatus = some .waiting ∧ pending = none
          · -- nothing but an object of an unknown type leaves a waiting session alone
            rw [if_pos hwait]
            rcases Option.eq_none_or_eq_some (map.get? x.sessionId) with hentry | ⟨entry, hentry⟩
            · simp [hentry, hwait]
            · cases entry with
              | other => simp [hentry, hwait]
              | object type attempt =>
                  rcases Option.eq_none_or_eq_some (statusOfType type) with
                    htype | ⟨status, htype⟩
                  · simp [hentry, hwait, htype]
                  · have hne : status ≠ .waiting := by
                      rintro rfl
                      exact statusOfType_ne_waiting type htype
                    simp [hentry, hwait, htype, hne]
          · rw [if_neg hwait]
            have hread : x.clientStatus = some .waiting → pending = none →
                ∃ type attempt, map.get? x.sessionId = some (.object type attempt) ∧
                  statusOfType type = none :=
              fun hstatus hnone => absurd ⟨hstatus, hnone⟩ hwait
            rcases Option.eq_none_or_eq_some (map.get? x.sessionId) with hentry | ⟨entry, hentry⟩
            · rw [hentry] at hread ⊢
              exact iff_of_true rfl ⟨hread, fun h => absurd h (by simp)⟩
            · rw [hentry] at hread ⊢
              cases entry with
              | other =>
                  -- an entry that is no object says nothing, and is read as absence
                  exact ⟨fun hidle => ⟨hread, fun _ => hidle.symm⟩, fun h => (h.2 rfl).symm⟩
              | object type attempt =>
                  refine iff_of_true ?_ ⟨hread, fun h => absurd h (by simp)⟩
                  simp [StatusEntry.status?, Option.map_map, Function.comp_def]

end Session

end Relay
