import Relay.Queue.Operations

/-!
# Relay.Endpoint.Basic

`EndpointRuntime` (`relay/endpoints.py`): the admission of HTTP requests and of
WebSocket connections as coroutines that run from one await to the next.

An endpoint keeps a list of tasks, one for each admission, and a task is in a `Phase`
that names the await it is suspended at. `resume` runs one task to its next await, on an
`Input` that gives the results of what it awaited and its clock readings. Everything else
that happens between two awaits (ticks of the queue manager, readiness probes, the
status poller, manual releases) is an operation on the queue.
-/

namespace Relay

/-! ### Queue operations of a WebSocket -/

namespace EndpointQueue

variable (q : EndpointQueue)

/-- `_hold_ws_spot` counts the connection as in flight. Unlike `_try_promote` it leaves
`inflight_total` alone. -/
def countWs (s : SessionRef) : EndpointQueue :=
  { q with objs := q.objs.modify s (fun x => { x with inflight := x.inflight + 1 }) }

/-- One pass of the loop of `_hold_ws_spot`: the queue in which the connection holds a
spot. The first two tests of the source, own spot and shared spot, are `_spot_key`. -/
def holdWsSpot (s : SessionRef) (now : Time) : Option EndpointQueue :=
  if (q.spotKey (q.objs s)).isSome then some (q.countWs s)
  else if q.spots.size < q.cfg.maxSpots then some ((q.acquireSpot s now).countWs s)
  else none

/-- `_release_ws_spot` up to its promotion loop. -/
def endWs (s : SessionRef) : EndpointQueue :=
  { q with
    objs := q.objs.modify s (fun x =>
      { x with inflight := if 0 < x.inflight then x.inflight - 1 else x.inflight }) }

/-- The connection's session gives up its spot. -/
def dropSpot (s : SessionRef) : EndpointQueue :=
  { q with
    spots := q.spots.erase (q.objs s).key
    objs := q.objs.modify s (fun x => { x with spotHeld := false }) }

/-- `_release_ws_spot`. -/
def releaseWsSpot (s : SessionRef) (now : Time) : EndpointQueue :=
  let ended := q.endWs s
  if (ended.objs s).key ∈ ended.spots then (ended.dropSpot s).tryPromote now else ended

end EndpointQueue

/-! ### Admissions -/

/-- `wait_policy`. -/
inductive WaitPolicy
  | wait
  | error
  deriving DecidableEq, Repr

/-- `routing`. -/
inductive Routing
  | queued
  | concurrent
  | passthrough
  deriving DecidableEq, Repr

/-- The settings of an endpoint that its admissions read. A `queue_timeout` of zero
means that requests are held without limit. -/
structure EndpointConfig where
  waitPolicy : WaitPolicy
  routing : Routing
  queueTimeout : Time
  queue : QueueConfig

/-- An endpoint that queues its requests and holds them without limit. -/
def EndpointConfig.queued (queue : QueueConfig) : EndpointConfig where
  waitPolicy := .wait
  routing := .queued
  queueTimeout := 0
  queue := queue

/-- Which of `admit`, `admit_catch_all` and `admit_ws` is called; the catch-all endpoint
calls the last one with `passthrough`. -/
inductive RequestKind
  | http
  | catchAll
  | webSocket
  | catchAllWebSocket
  deriving DecidableEq, Repr

/-- The arguments of an admission. `raises` says that `resolve_session_id` raises on the body of
an HTTP request; there is no requester then, and `requester` is not looked at. -/
structure Request where
  kind : RequestKind
  requester : Requester
  path : String
  raises : Bool := false
  deriving DecidableEq, Repr

/-- A request of the unknown client's session `id`. -/
def Request.ofSession (kind : RequestKind) (id : String) : Request :=
  { kind := kind, requester := ⟨"unknown", id, "api", "10.0.0.1", "curl"⟩, path := "/x" }

/-- How an admission ends: with one of its own answers, with the target's response, with an
error, or with the WebSocket closed. -/
inductive Reply
  | notReady
  | disconnected
  | timedOut
  | forwarded
  | failed
  /-- An error of `resolve_session_id` in `admit_unqueued`: `active_forwards` counts the request
  already, and nothing takes it out again. -/
  | leaked
  | closed (code : Option Nat)
  deriving DecidableEq, Repr

/-- Where a task is suspended. -/
inductive Phase
  /-- The admission is about to start. -/
  | arrived
  /-- `check_readiness`, on an empty queue. -/
  | probing
  /-- `_ensure_wake` in `_admit_queued`. -/
  | waking
  /-- `store.upsert_session` in `_admit_queued`, with the session it found or made. -/
  | recording (s : SessionRef)
  /-- `is_disconnected` and `sleep` in `wait_for_slot`. -/
  | polling (e : EntryRef)
  | sleeping (e : EntryRef)
  /-- `_forward` of a queued request, until it calls its release. -/
  | forwarding (e : EntryRef)
  /-- `_ensure_wake` with `is_disconnected`, and `sleep`, in `wait_until_ready`. -/
  | readyPolling (deadline : Option Time)
  | readySleeping (deadline : Option Time)
  /-- `_forward` of a request that is not queued, until it calls its release. -/
  | forwardingUnqueued
  /-- Keep-alive and `sleep` in `_wait_ws_ready`. -/
  | wsReadyWaiting (deadline : Option Time)
  /-- Keep-alive and `sleep` in `_hold_ws_spot`. -/
  | spotWaiting (s : SessionRef) (deadline : Option Time)
  /-- `tunnel`, with and without a spot. -/
  | tunnel (s : SessionRef)
  | tunnelUnqueued
  | ended (reply : Reply)
  deriving DecidableEq, Repr

/-- Whether the phase is entered by a call of `_forward`. -/
def Phase.forwards : Phase → Bool
  | .forwarding _ | .forwardingUnqueued => true
  | _ => false

/-- An admission. `forwards` is a history variable: how often it called `_forward`. -/
structure Task where
  request : Request
  phase : Phase := .arrived
  forwards : Nat := 0
  deriving DecidableEq, Repr

/-- The task runs on to its next await. -/
def Task.moveTo (t : Task) (phase : Phase) : Task :=
  { t with phase := phase, forwards := t.forwards + (if phase.forwards then 1 else 0) }

/-- What a task learns when it is resumed: the outcome of what it awaited, and the clock
readings it makes, in order. -/
structure Input where
  /-- `_ensure_wake` finds the server off or unknown, and awaits the power-on. -/
  wakes : Bool := false
  /-- The client has hung up. -/
  disconnected : Bool := false
  /-- What was awaited raised: a store write, or the power-on. -/
  failed : Bool := false
  now : Time := 0
  stampAt : Time := 0
  promoteAt : Time := 0
  deriving Inhabited

/-- `EndpointRuntime`. -/
structure Endpoint where
  cfg : EndpointConfig
  queue : EndpointQueue
  activeForwards : Int
  tasks : List Task

namespace Endpoint

/-- `EndpointRuntime.__init__`. -/
def init (cfg : EndpointConfig) : Endpoint where
  cfg := cfg
  queue := .init cfg.queue
  activeForwards := 0
  tasks := []

variable (E : Endpoint)

/-- `deadline = now + timeout`, when there is a timeout. -/
def deadlineFrom (now : Time) : Option Time :=
  if 0 < E.cfg.queueTimeout then some (now + E.cfg.queueTimeout) else none

/-- `deadline is not None and time.monotonic() >= deadline`. -/
def expired (deadline : Option Time) (now : Time) : Bool :=
  match deadline with
  | some deadline => decide (deadline ≤ now)
  | none => false

/-- The endpoint after the step of a task, and the await the task is suspended at. -/
abbrev Step := Endpoint × Phase

/-- The task changes nothing but its own phase. -/
def stay (phase : Phase) : Step := (E, phase)

/-! ### Queued HTTP requests -/

/-- `_admit_queued` from the session to the store write. -/
def beginQueued (request : Request) (input : Input) : Step :=
  if request.raises then (E, .ended .failed)
  else
    let created := E.queue.getOrCreateSession request.requester input.now
    ({ E with queue := created.2 }, .recording created.1)

/-- The head of the loop in `wait_for_slot`, and the call of `_forward` after it. -/
def slotHead (e : EntryRef) : Step :=
  if (E.queue.entries e).go then (E, .forwarding e) else (E, .polling e)

/-- `_admit_queued` from the store write to the first await of `wait_for_slot`. -/
def joinQueue (s : SessionRef) (path : String) (input : Input) : Step :=
  let made := E.queue.newEntry s path input.now
  slotHead { E with queue := made.2.enqueue made.1 input.promoteAt } made.1

/-- `_admit_queued` when the hold ends without a slot: an entry that was promoted in the
meantime is released, another one is abandoned. -/
def leaveQueue (e : EntryRef) (reply : Reply) (input : Input) : Step :=
  ({ E with
      queue :=
        if (E.queue.entries e).done then E.queue.release e input.stampAt input.promoteAt
        else E.queue.abandon e },
    .ended reply)

/-- `wait_for_slot` after `is_disconnected`. -/
def slotPolled (e : EntryRef) (input : Input) : Step :=
  if input.disconnected then E.leaveQueue e .disconnected input
  else if expired (E.deadlineFrom (E.queue.entries e).enqueuedAt) input.now then
    E.leaveQueue e .timedOut input
  else (E, .sleeping e)

/-- The call of `release`. -/
def finishQueued (e : EntryRef) (input : Input) : Step :=
  ({ E with queue := E.queue.release e input.stampAt input.promoteAt }, .ended .forwarded)

/-! ### Requests that are not queued -/

/-- The request is counted, and forwarded when its session is known. -/
def forwardUnqueued (request : Request) : Step :=
  ({ E with activeForwards := E.activeForwards + 1 },
    if request.raises then .ended .leaked else .forwardingUnqueued)

/-- `_finish`, and the end of an unqueued tunnel. -/
def finishUnqueued (reply : Reply) : Step :=
  ({ E with activeForwards := max 0 (E.activeForwards - 1) }, .ended reply)

/-- The head of the loop in `wait_until_ready`. -/
def readyHead (request : Request) (deadline : Option Time) : Step :=
  if E.queue.ready then E.forwardUnqueued request else (E, .readyPolling deadline)

/-- `wait_until_ready` after `is_disconnected`. -/
def readyPolled (deadline : Option Time) (input : Input) : Step :=
  if input.disconnected then (E, .ended .disconnected)
  else if expired deadline input.now then (E, .ended .timedOut)
  else (E, .readySleeping deadline)

/-! ### WebSockets -/

/-- The head of the loop in `_hold_ws_spot`. -/
def spotHead (s : SessionRef) (deadline : Option Time) (input : Input) : Step :=
  match E.queue.holdWsSpot s input.promoteAt with
  | some queue => ({ E with queue := queue }, .tunnel s)
  | none =>
      if expired deadline input.promoteAt || input.disconnected then (E, .ended (.closed none))
      else (E, .spotWaiting s deadline)

/-- `admit_ws` once the endpoint is ready. -/
def connect (request : Request) (input : Input) : Step :=
  if E.cfg.routing = .queued ∧ request.kind = .webSocket then
    let created := E.queue.getOrCreateSession request.requester input.now
    spotHead { E with queue := created.2 } created.1 (E.deadlineFrom input.stampAt) input
  else ({ E with activeForwards := E.activeForwards + 1 }, .tunnelUnqueued)

/-- The head of the loop in `_wait_ws_ready`. -/
def wsReadyHead (request : Request) (deadline : Option Time) (input : Input) : Step :=
  if E.queue.ready then E.connect request input
  else if input.disconnected || expired deadline input.stampAt then (E, .ended (.closed none))
  else (E, .wsReadyWaiting deadline)

/-- The tunnel of a queued connection ends. -/
def disconnect (s : SessionRef) (input : Input) : Step :=
  ({ E with queue := E.queue.releaseWsSpot s input.promoteAt }, .ended (.closed none))

/-! ### The admission -/

/-- Whether an HTTP request goes through the queue. -/
def isQueued (request : Request) : Bool :=
  decide (E.cfg.routing = .queued ∧ request.kind = .http)

/-- The readiness gate, after the probe. -/
def gate (request : Request) (input : Input) : Step :=
  match request.kind with
  | .http | .catchAll =>
      if E.isQueued request then
        if E.queue.ready then E.beginQueued request input
        else
          match E.cfg.waitPolicy with
          | .error => (E, .ended .notReady)
          | .wait => if input.wakes then (E, .waking) else E.beginQueued request input
      else if E.queue.ready then E.forwardUnqueued request
      else
        match E.cfg.waitPolicy with
        | .error => (E, .ended .notReady)
        | .wait => E.readyHead request (E.deadlineFrom input.now)
  | .webSocket | .catchAllWebSocket =>
      if E.queue.ready then E.connect request input
      else
        match E.cfg.waitPolicy with
        | .error => (E, .ended (.closed (some 1013)))
        | .wait => E.wsReadyHead request (E.deadlineFrom input.now) input

/-- The start of an admission: a fresh probe on an empty queue, then the gate. -/
def start (request : Request) (input : Input) : Step :=
  if E.queue.queue.isEmpty then (E, .probing) else E.gate request input

/-- A task runs from the await it is suspended at to the next one; `none` when it is over. -/
def run (t : Task) (input : Input) : Option Step :=
  match t.phase with
  | .arrived => some (E.start t.request input)
  | .probing => some (if input.failed then (E, .ended .failed) else E.gate t.request input)
  | .waking => some (if input.failed then (E, .ended .failed) else E.beginQueued t.request input)
  | .recording s =>
      some (if input.failed then (E, .ended .failed) else E.joinQueue s t.request.path input)
  | .polling e => some (E.slotPolled e input)
  | .sleeping e => some (E.slotHead e)
  | .forwarding e => some (E.finishQueued e input)
  | .readyPolling deadline =>
      some (if input.failed then (E, .ended .failed) else E.readyPolled deadline input)
  | .readySleeping deadline => some (E.readyHead t.request deadline)
  | .forwardingUnqueued => some (E.finishUnqueued .forwarded)
  | .wsReadyWaiting deadline => some (E.wsReadyHead t.request deadline input)
  | .spotWaiting s deadline => some (E.spotHead s deadline input)
  | .tunnel s => some (E.disconnect s input)
  | .tunnelUnqueued => some (E.finishUnqueued (.closed none))
  | .ended _ => none

/-- Replaces the phase of a task. -/
def settle (i : Nat) (t : Task) (result : Step) : Endpoint :=
  { result.1 with tasks := E.tasks.set i (t.moveTo result.2) }

/-- What happens on an endpoint. -/
inductive Op
  /-- A routed request is handed to its admission. -/
  | arrive (request : Request)
  | resume (i : Nat) (input : Input)
  /-- An operation of the queue manager, the poller or the monitor. -/
  | manage (op : QueueOp)

/-- One step of an endpoint. -/
def step : Op → Option Endpoint
  | .arrive request => some { E with tasks := E.tasks ++ [{ request := request }] }
  | .resume i input =>
      match E.tasks[i]? with
      | none => none
      | some t => (E.run t input).map (E.settle i t)
  | .manage op =>
      if op.isManaged then (E.queue.step op).map (fun queue => { E with queue := queue })
      else none

/-- `EndpointRuntime.has_activity`. -/
def hasActivity : Bool := E.queue.hasActivity || decide (0 < E.activeForwards)

end Endpoint

end Relay
