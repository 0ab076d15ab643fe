import Mathlib.Algebra.Order.Field.Rat
import Mathlib.Data.Rat.Defs
import Relay.Library.Heap
import Relay.Library.OrdDict

/-!
# Relay.Queue.Session

The records of the spot queue (`relay/queue.py`): sessions, queue entries, the
constants of an `EndpointQueue`, and the functions that read one session without
touching the queue: its effective status and the deadline at which its spot is
given up.

Sessions and entries are shared by reference in the source (a queue entry points
at its `Session`, the session table points at the same object), so both live in a
`Heap` and are named by references. Clock readings are exact rationals.
-/

namespace Relay

/-- A monotonic clock reading, in seconds. -/
abbrev Time := ℚ

/-- A session key `(client, session_id)`. -/
abbrev Key := String × String

/-- A reference to a `Session` object. -/
abbrev SessionRef := Nat

/-- A reference to a `QueueEntry` object. -/
abbrev EntryRef := Nat

/-- `STATUS_UNREACHABLE_GRACE` (`relay/clients.py`). -/
def statusUnreachableGrace : Time := 30

/-- The values of `status` and `client_status`. -/
inductive Status
  | busy
  | retry
  | idle
  | waiting
  deriving DecidableEq, Repr, Inhabited

/-- What an admission knows about its client: the arguments of
`get_or_create_session`. -/
structure Requester where
  client : String
  sessionId : String
  api : String
  clientIp : String
  userAgent : String
  deriving DecidableEq, Repr, Inhabited

/-- The key of the session a request belongs to. -/
def Requester.key (r : Requester) : Key := (r.client, r.sessionId)

/-- `Session`. -/
structure Session where
  key : Key
  client : String
  sessionId : String
  api : String
  clientIp : String
  userAgent : String
  createdAt : Time
  lastRequestAt : Time
  lastPath : String := ""
  status : Status := .busy
  statusDetail : String := ""
  inflight : Int := 0
  waiting : Int := 0
  spotHeld : Bool := false
  spotAcquiredAt : Time := 0
  sharedSpotKey : Option Key := none
  idleSince : Option Time := none
  clientStatus : Option Status := none
  clientStatusDetail : String := ""
  clientStatusAt : Time := 0
  deriving Inhabited

/-- `QueueEntry`. The request body and the `Request` object are not read by the
queue; whether the client hung up is an input of `wait_for_slot`. -/
structure QueueEntry where
  session : SessionRef
  path : String
  enqueuedAt : Time
  go : Bool := false
  done : Bool := false
  deriving Inhabited

/-- The constructor arguments of an `EndpointQueue`. `self.max_spots = max(1, …)`
makes the number of spots positive, which the structure keeps as a field. -/
structure QueueConfig where
  maxSpots : Nat
  maxInflightPerSession : Int
  busyWindow : Time
  sessionExpiry : Time
  atomicRequests : Bool
  immediateIdleRelease : Bool
  maxSpots_pos : 1 ≤ maxSpots

/-- `EndpointQueue.__init__`, the constants. -/
def QueueConfig.ofArgs (maxSpots maxInflightPerSession : Int) (busyWindow sessionExpiry : Time)
    (atomicRequests immediateIdleRelease : Bool) : QueueConfig where
  maxSpots := (max 1 maxSpots).toNat
  maxInflightPerSession := maxInflightPerSession
  busyWindow := busyWindow
  sessionExpiry := sessionExpiry
  atomicRequests := atomicRequests
  immediateIdleRelease := immediateIdleRelease
  maxSpots_pos := by omega

namespace Session

/-- The object `get_or_create_session` builds for a key it does not know. -/
def new (r : Requester) (now : Time) : Session where
  key := r.key
  client := r.client
  sessionId := r.sessionId
  api := r.api
  clientIp := r.clientIp
  userAgent := r.userAgent
  createdAt := now
  lastRequestAt := now

/-- What `get_or_create_session` does to a session it knows: the idle countdown
restarts, everything else about the spot stays. -/
def revive (r : Requester) (now : Time) (x : Session) : Session :=
  { x with api := r.api, clientIp := r.clientIp, lastRequestAt := now, idleSince := none }

/-- `_current_status`. -/
def currentStatus (cfg : QueueConfig) (now : Time) (x : Session) : Status × String :=
  if 0 < x.inflight then (.busy, "in-flight request")
  else if x.client ≠ "unknown" then
    match x.clientStatus with
    | some st =>
        if now - x.clientStatusAt < statusUnreachableGrace then (st, x.clientStatusDetail)
        else (.idle, "")
    | none => (.idle, "")
  else if now - x.lastRequestAt < cfg.busyWindow then (.busy, "")
  else (.idle, "")

/-- `_fresh_client_report`. -/
def freshClientReport (now : Time) (x : Session) : Bool :=
  x.clientStatus.isSome && decide (0 < x.clientStatusAt) &&
    decide (now - x.clientStatusAt < statusUnreachableGrace)

/-- `_release_deadline`: the clock reading at which the spot is surrendered. -/
def releaseDeadline (cfg : QueueConfig) (now : Time) (x : Session) : Option Time :=
  if 0 < x.inflight then none
  else if x.client ≠ "unknown" then
    match x.idleSince with
    | none => none
    | some since =>
        match x.status with
        | .waiting =>
            -- blocked on user input: released at once on a fresh report
            if x.freshClientReport now then some since else some (since + cfg.sessionExpiry)
        | .idle =>
            if cfg.immediateIdleRelease && x.clientStatus == some .idle
                && x.freshClientReport now && decide (x.lastRequestAt < x.clientStatusAt) then
              some since
            else some (since + cfg.sessionExpiry)
        | _ => none
  else some (x.lastRequestAt + max cfg.busyWindow cfg.sessionExpiry)

/-- The texts `_release_reason` returns, with the values they show. -/
inductive ReleaseReason
  | waitingForInput (detail : String)
  | reportsIdle
  | idleFor (expiry : Time)
  deriving DecidableEq, Repr

/-- `_release_reason`. -/
def releaseReason (cfg : QueueConfig) (now : Time) (x : Session) : ReleaseReason :=
  if x.status = .waiting ∧ x.freshClientReport now then .waitingForInput x.clientStatusDetail
  else if x.clientStatus = some .idle ∧ x.freshClientReport now then .reportsIdle
  else .idleFor cfg.sessionExpiry

/-- The status part of one `tick` visit: the recomputed status and the start of
the idle stretch. -/
def recompute (cfg : QueueConfig) (now : Time) (x : Session) : Session :=
  let status := (x.currentStatus cfg now).1
  { x with
    status := status
    statusDetail := (x.currentStatus cfg now).2
    idleSince := if status = .idle ∨ status = .waiting then x.idleSince.or (some now) else none }

/-- `deadline is not None and now >= deadline`. -/
def due (cfg : QueueConfig) (now : Time) (x : Session) : Bool :=
  match x.releaseDeadline cfg now with
  | some deadline => decide (deadline ≤ now)
  | none => false

/-- A session with a request in flight has no release deadline. -/
theorem due_eq_false_of_inflight {cfg : QueueConfig} {now : Time} {x : Session}
    (h : 0 < x.inflight) : x.due cfg now = false := by
  simp [due, releaseDeadline, h]

/-! ### Updates that leave the accounting alone

The status display, the client report, the shared spot and the request metadata
are written by operations that leave the key, the counters and the spot of a
session as they are. -/

/-- `f` changes neither the key, the counters nor the spot of a session. -/
structure Cosmetic (f : Session → Session) : Prop where
  key : ∀ x, (f x).key = x.key
  inflight : ∀ x, (f x).inflight = x.inflight
  waiting : ∀ x, (f x).waiting = x.waiting
  spotHeld : ∀ x, (f x).spotHeld = x.spotHeld

theorem cosmetic_revive (r : Requester) (now : Time) : Cosmetic (revive r now) :=
  ⟨fun _ => rfl, fun _ => rfl, fun _ => rfl, fun _ => rfl⟩

theorem cosmetic_recompute (cfg : QueueConfig) (now : Time) : Cosmetic (recompute cfg now) :=
  ⟨fun _ => rfl, fun _ => rfl, fun _ => rfl, fun _ => rfl⟩

end Session

end Relay
