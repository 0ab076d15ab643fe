import Relay.Library.Drain
import Relay.Queue.Session

/-!
# Relay.Queue.Basic

`EndpointQueue` (`relay/queue.py`) with its methods, each under the source's
name. A method that reads `time.monotonic()` takes the reading as an argument.

Two parts of the state are not in the source. The heaps `objs` and `entries`
hold the `Session` and `QueueEntry` objects the program refers to, also after the
session table has dropped its reference; and `log` is a history variable that
records what happens to each entry. No operation reads `log`.
-/

namespace Relay

open Session (ReleaseReason)

/-- What happens to a queue entry. -/
inductive QueueEvent
  | enqueued (e : EntryRef)
  | promoted (e : EntryRef)
  | abandoned (e : EntryRef)
  | released (e : EntryRef)
  deriving DecidableEq, Repr

/-- The entries a history leaves in flight: promoted and not yet released. -/
def runningOf (log : List QueueEvent) : List EntryRef :=
  log.foldl (fun running event =>
    match event with
    | .promoted e => running ++ [e]
    | .released e => running.erase e
    | .enqueued _ | .abandoned _ => running) []

/-- `EndpointQueue`. -/
structure EndpointQueue where
  cfg : QueueConfig
  inflightTotal : Int
  sessions : OrdDict Key SessionRef
  spots : OrdDict Key Time
  queue : List EntryRef
  ready : Bool
  objs : Heap Session
  entries : Heap QueueEntry
  log : List QueueEvent

namespace EndpointQueue

/-- `EndpointQueue.__init__`. -/
def init (cfg : QueueConfig) : EndpointQueue where
  cfg := cfg
  inflightTotal := 0
  sessions := .empty
  spots := .empty
  queue := []
  ready := false
  objs := .empty
  entries := .empty
  log := []

variable (q : EndpointQueue)

/-- The entries in flight. -/
def running : List EntryRef := runningOf q.log

/-- The session object an entry points at. -/
def sessionOf (e : EntryRef) : SessionRef := (q.entries e).session

/-! ### Session handling -/

/-- `get_or_create_session`: the reference of the session object, and the queue. -/
def getOrCreateSession (r : Requester) (now : Time) : SessionRef × EndpointQueue :=
  match q.sessions.get? r.key with
  | none =>
      (q.objs.next,
        { q with
          objs := q.objs.alloc (Session.new r now)
          sessions := q.sessions.insert r.key q.objs.next })
  | some s => (s, { q with objs := q.objs.modify s (Session.revive r now) })

/-! ### Promotion -/

/-- `_spot_key`: the spot a session runs on, its own or the shared one. -/
def spotKey (x : Session) : Option Key :=
  if x.key ∈ q.spots then some x.key
  else x.sharedSpotKey.filter (fun k => decide (k ∈ q.spots))

/-- `_eligible`. -/
def eligible (e : EntryRef) : Bool :=
  if q.cfg.atomicRequests && decide (0 < q.inflightTotal) then false
  else
    let session := q.objs (q.sessionOf e)
    if (q.spotKey session).isSome then
      if q.cfg.maxInflightPerSession < 0 then true
      else decide (session.inflight < q.cfg.maxInflightPerSession)
    else decide (q.spots.size < q.cfg.maxSpots)

/-- A session takes a spot of its own. -/
def acquireSpot (s : SessionRef) (now : Time) : EndpointQueue :=
  { q with
    spots := q.spots.insert (q.objs s).key now
    objs := q.objs.modify s (fun x => { x with spotHeld := true, spotAcquiredAt := now }) }

/-- The first half of a promotion: the entry leaves the waiting queue and counts
as in flight. -/
def startEntry (e : EntryRef) : EndpointQueue :=
  { q with
    queue := q.queue.erase e
    entries := q.entries.modify e (fun x => { x with done := true, go := true })
    objs := q.objs.modify (q.sessionOf e) (fun x =>
      { x with waiting := x.waiting - 1, inflight := x.inflight + 1, idleSince := none })
    inflightTotal := q.inflightTotal + 1
    log := q.log ++ [.promoted e] }

/-- The body of the loop in `_try_promote`, for the entry `e` it selected. -/
def promote (now : Time) (e : EntryRef) : EndpointQueue :=
  let s := q.sessionOf e
  let started := q.startEntry e
  -- a sub-agent running on a shared spot acquires none of its own
  let placed :=
    if (started.spotKey (started.objs s)).isNone then started.acquireSpot s now else started
  { placed with
    objs := placed.objs.modify s (fun x =>
      { x with status := .busy, statusDetail := "in-flight request" }) }

/-- One iteration of the loop in `_try_promote`: the first entry of the FIFO that
may run, and the queue after its promotion. -/
def promoteNext (now : Time) (q : EndpointQueue) : Option (EntryRef × EndpointQueue) :=
  (q.queue.find? q.eligible).map (fun e => (e, q.promote now e))

/-- `_try_promote`. The loop removes an entry in each iteration, so the length of
the queue bounds it. -/
def tryPromote (now : Time) : EndpointQueue :=
  if q.ready then Drain.drain (promoteNext now) q.queue.length q else q

/-- The promotions `_try_promote` makes, each with the state it is made in. -/
def promotions (now : Time) : List (EndpointQueue × EntryRef) :=
  if q.ready then Drain.picks (promoteNext now) q.queue.length q else []

/-! ### Queue handling -/

/-- `QueueEntry(...)`: a fresh entry object for a session. -/
def newEntry (s : SessionRef) (path : String) (now : Time) : EntryRef × EndpointQueue :=
  (q.entries.next,
    { q with entries := q.entries.alloc { session := s, path := path, enqueuedAt := now } })

/-- `enqueue` up to its promotion loop. -/
def append (e : EntryRef) : EndpointQueue :=
  { q with
    objs := q.objs.modify (q.sessionOf e) (fun x =>
      { x with waiting := x.waiting + 1, lastPath := (q.entries e).path })
    queue := q.queue ++ [e]
    log := q.log ++ [.enqueued e] }

/-- `enqueue`. -/
def enqueue (e : EntryRef) (now : Time) : EndpointQueue := (q.append e).tryPromote now

/-- `abandon`, which is `_remove_waiting`. -/
def abandon (e : EntryRef) : EndpointQueue :=
  if (q.entries e).done then q
  else
    { q with
      queue := q.queue.erase e
      objs := q.objs.modify (q.sessionOf e) (fun x =>
        { x with waiting := max 0 (x.waiting - 1) })
      log := q.log ++ [.abandoned e] }

/-- `release` up to its promotion loop. -/
def finish (e : EntryRef) (now : Time) : EndpointQueue :=
  let s := q.sessionOf e
  let running := decide (0 < (q.objs s).inflight)
  { q with
    objs := q.objs.modify s (fun x =>
      { x with
        inflight := if running then x.inflight - 1 else x.inflight
        lastRequestAt := now })
    inflightTotal := if running then max 0 (q.inflightTotal - 1) else q.inflightTotal
    log := q.log ++ [.released e] }

/-- `release`: the first reading stamps `last_request_at`, the second is that of
`_try_promote`. -/
def release (e : EntryRef) (now promoteAt : Time) : EndpointQueue :=
  (q.finish e now).tryPromote promoteAt

/-! ### Surrender of spots -/

/-- `_release_spot` up to its promotion loop: the spot is given up, and a session
that has no request left is forgotten. -/
def freeSpot (s : SessionRef) (key : Key) : EndpointQueue :=
  let objs := q.objs.modify s (fun x => { x with spotHeld := false, idleSince := none })
  { q with
    spots := q.spots.erase key
    objs := objs
    sessions :=
      if (objs s).waiting = 0 ∧ (objs s).inflight = 0 then q.sessions.erase key else q.sessions }

/-- `_release_spot`. -/
def releaseSpot (s : SessionRef) (key : Key) (now : Time) : EndpointQueue :=
  (q.freeSpot s key).tryPromote now

/-- `release_session`: whether a spot was released, and the queue. -/
def releaseSession (client sessionId : String) (now : Time) : Bool × EndpointQueue :=
  match q.sessions.get? (client, sessionId) with
  | none => (false, q)
  | some s =>
      if (q.objs s).spotHeld then (true, q.releaseSpot s (client, sessionId) now)
      else (false, q)

/-- The status part of `tick` for one session. -/
def recomputeAt (s : SessionRef) (now : Time) : EndpointQueue :=
  { q with objs := q.objs.modify s (Session.recompute q.cfg now) }

/-- Whether a `tick` that visits `s` now surrenders its spot. -/
def surrenders (s : SessionRef) (now : Time) : Bool :=
  let x := (q.objs s).recompute q.cfg now
  x.spotHeld && x.due q.cfg now

/-- The loop body of `tick` for the session `s` stored under `key`; `promoteAt` is
the clock reading of `_try_promote` when the spot is surrendered. -/
def visit (now promoteAt : Time) (key : Key) (s : SessionRef) :
    EndpointQueue × Option (Key × ReleaseReason) :=
  let q' := q.recomputeAt s now
  let x := q'.objs s
  if x.spotHeld then
    if x.due q.cfg now then
      (q'.releaseSpot s key promoteAt, some (key, x.releaseReason q.cfg now))
    else (q', none)
  else if x.waiting = 0 ∧ x.inflight = 0 then
    -- no spot, nothing waiting: the session is gone
    ({ q' with sessions := q'.sessions.erase key }, none)
  else (q', none)

/-- The loop of `tick` over the sessions that remain of its snapshot. -/
def tickLoop (now : Time) (promoteAt : Key → Time) :
    EndpointQueue → List (Key × SessionRef) → EndpointQueue × List (Key × ReleaseReason)
  | q, [] => (q, [])
  | q, (key, s) :: rest =>
      let visited := q.visit now (promoteAt key) key s
      let (q', released) := tickLoop now promoteAt visited.1 rest
      (q', visited.2.toList ++ released)

/-- `tick`. Each session is visited once, so `promoteAt` gives the clock reading of
the promotion loop that follows the surrender of a key's spot. -/
def tick (now : Time) (promoteAt : Key → Time) : EndpointQueue × List (Key × ReleaseReason) :=
  tickLoop now promoteAt q q.sessions.entries

/-- The states in which the loop of `tick` visits the sessions of its snapshot. -/
def visitsOf (now : Time) (promoteAt : Key → Time) :
    EndpointQueue → List (Key × SessionRef) → List (EndpointQueue × Key × SessionRef)
  | _, [] => []
  | q, (key, s) :: rest =>
      (q, key, s) :: visitsOf now promoteAt (q.visit now (promoteAt key) key s).1 rest

/-- The visits of a `tick`. -/
def visits (now : Time) (promoteAt : Key → Time) : List (EndpointQueue × Key × SessionRef) :=
  visitsOf now promoteAt q q.sessions.entries

/-- `has_activity`. -/
def hasActivity : Bool := !q.queue.isEmpty || q.spots.size != 0

/-! ### Writes of the status poller -/

/-- The poller writes `client_status`, `client_status_detail` and
`client_status_at` of a session. -/
def setClientStatus (s : SessionRef) (status : Option Status) (detail : String) (at' : Time) :
    EndpointQueue :=
  { q with
    objs := q.objs.modify s (fun x =>
      { x with
        clientStatus := status
        clientStatusDetail := detail
        clientStatusAt := at' }) }

/-- The poller writes `shared_spot_key` of a session. -/
def setSharedSpotKey (s : SessionRef) (key : Option Key) : EndpointQueue :=
  { q with objs := q.objs.modify s (fun x => { x with sharedSpotKey := key }) }

end EndpointQueue

end Relay
