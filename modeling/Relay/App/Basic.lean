import Relay.App.Console
import Relay.App.Unknown
import Relay.Config.Routing
import Relay.Server.System

/-!
# Relay.App.Basic

`RelayApp` with its handlers (`relay/main.py`), over all servers and endpoints: one life of the
process, from its startup on.

A handler is a coroutine that goes through the calls it awaits: `proxy` and `ws_proxy` await
`on_routed_traffic` of the server, then the admission at the endpoint; the handlers of the monitor
await a method of a server. So a request and what comes of it is a run of steps, between which
everything else happens. What the servers and endpoints do on their own are steps of `System`.

`trail` is a history variable: what the tracker of unknown clients was told. No step reads it.
-/

namespace Relay

open Runs Tally

/-! ### Settings -/

/-- What Python and its libraries add. -/
structure Platform where
  /-- `json.loads`. -/
  loads : List UInt8 → Except LoadsError Json
  /-- `str` of a list or a dictionary. -/
  repr : Json → String
  /-- `CronSchedule(schedule).last_fire_before`. -/
  lastFireBefore : String → Time → Time

namespace Topology

/-- A float that is a number. -/
def PyFloat.number? : PyFloat → Option Time
  | .finite value => some value
  | .inf | .negInf | .nan => none

/-- `wait_policy` of an endpoint as its admissions read it. -/
def WaitPolicy.setting : WaitPolicy → Relay.WaitPolicy
  | .wait => .wait
  | .error => .error

/-- `routing` of an endpoint as its admissions read it. -/
def Routing.setting : Routing → Relay.Routing
  | .queued => .queued
  | .concurrent => .concurrent
  | .passthrough => .passthrough

/-- The settings of an endpoint, when all its times are numbers. -/
def EndpointConfig.settings (config : EndpointConfig) : Option Relay.EndpointConfig := do
  let queueTimeout ← config.queueTimeout.number?
  let busyWindow ← config.session.busyWindow.number?
  let expiry ← config.session.expiry.number?
  return {
    waitPolicy := config.waitPolicy.setting
    routing := config.routing.setting
    queueTimeout := queueTimeout
    queue := .ofArgs config.concurrency config.session.perSessionRequests busyWindow expiry
      (decide (config.session.requestMode = .atomic)) config.session.immediateIdleRelease }

/-- The settings of a server, when its times are numbers. `POWER_ON_COOLDOWN` is no setting of
the configuration. -/
def ServerConfig.settings (platform : Platform) (config : ServerConfig) :
    Option Relay.ServerConfig := do
  let idleTimeout ← config.idleTimeout.number?
  return {
    idleTimeout := idleTimeout
    shutdownEnabled := config.shutdownEnabled
    adoptOnTraffic := config.adoptOnTraffic
    lastFireBefore := (config.schedule.filter (· ≠ "")).map platform.lastFireBefore
    powerOnCooldown := 30 }

end Topology

/-- Where an endpoint is: the position of its server, and its own among the server's. -/
structure Place where
  server : Nat
  endpoint : Nat
  deriving DecidableEq, Repr

/-- The place of an endpoint of the app. -/
def place (tables : Topology.RelayApp) (e : Topology.EndpointRuntime) : Place where
  server := tables.servers.keys.idxOf e.config.server
  endpoint := ((tables.servers.get? e.config.server).elim [] Topology.ServerRuntime.endpoints).idxOf
    e.config.name

/-! ### Requests -/

/-- An HTTP request or the upgrade of a WebSocket, as the handlers read it. `path` is the
parameter of the route, without its leading slash. -/
structure Inbound where
  method : String
  path : String
  headers : Fields
  query : Fields
  /-- `request.client.host`. -/
  clientHost : Option String

namespace Inbound

variable (request : Inbound)

/-- `full_path`. -/
def fullPath : String := "/" ++ request.path

/-- `client_ip`. -/
def clientIp : String := request.clientHost.getD "unknown"

/-- `websocket.headers.get("user-agent", "")`: the first header of the name. -/
def firstUserAgent : String :=
  ((request.headers.lowered.find? (fun field => field.1 = "user-agent")).map Prod.snd).getD ""

end Inbound

/-- What a handler is asked. `recordAt` is the reading of the clock in `record`. -/
inductive Asked
  | http (request : Inbound) (recordAt : Time)
  | webSocket (request : Inbound)
  | release (body : Option Json)
  | shutdown (body : Option Json)
  | power (body : Option Json)
  | timeout (body : Option Json)

/-- Where `proxy` and `ws_proxy` send a path. -/
inductive Target
  | blocked
  | noCatchAll
  | endpoint (e : Topology.EndpointRuntime) (passthrough : Bool)

/-- The routing of `proxy` and `ws_proxy`. -/
def target (tables : Topology.RelayApp) (fullPath : String) : Target :=
  match Topology.route fullPath tables.endpoints with
  | some e => .endpoint e false
  | none =>
      if tables.config.proxy.unknownPathPolicy ≠ .allow then .blocked
      else
        match tables.catchAll with
        | none => .noCatchAll
        | some e => .endpoint e true

/-- Who sends a request, as the admission at an endpoint resolves it. -/
def requester (platform : Platform) (tables : Topology.RelayApp) (e : Topology.EndpointRuntime)
    (kind : RequestKind) (inbound : Inbound) (body : List UInt8) : Except LoadsError Requester :=
  let genericHeaders := tables.config.proxy.sessionIdHeaders
  match kind with
  | .http | .catchAll =>
      (SessionRequest.resolveSessionId platform.loads
        ⟨inbound.headers, body, inbound.clientHost⟩ e.config.sessionIdBodyFields tables.providers
        genericHeaders).map fun resolved =>
          ⟨resolved.1, resolved.2, e.config.name, inbound.clientIp,
            userAgent inbound.headers.lowered⟩
  | .webSocket | .catchAllWebSocket =>
      let resolved := Upgrade.resolveSessionIdWs
        ⟨inbound.headers, inbound.query, inbound.clientHost⟩ tables.providers genericHeaders
      .ok ⟨resolved.1, resolved.2, e.config.name, inbound.clientIp, inbound.firstUserAgent⟩

/-- The arguments of an admission. -/
def admission (platform : Platform) (tables : Topology.RelayApp) (e : Topology.EndpointRuntime)
    (kind : RequestKind) (inbound : Inbound) (body : List UInt8) : Request :=
  match requester platform tables e kind inbound body with
  | .ok requester => { kind := kind, requester := requester, path := inbound.fullPath }
  | .error _ => { kind := kind, requester := default, path := inbound.fullPath, raises := true }

/-- The order of a monitor request to a server. -/
inductive Order
  | power (server : String) (on : Bool)
  | shutdown (enabled : Bool)
  deriving DecidableEq, Repr

/-- The method an order calls. -/
def Order.call : Order → Call
  | .power _ true => .powerOn
  | .power _ false => .powerOff
  | .shutdown enabled => .setShutdownOverride enabled

/-- The answer when the method has returned `ok`. -/
def Order.answer : Order → Bool → AppAnswer
  | .power server on, ok => .power ok server (if on then "on" else "off")
  | .shutdown enabled, _ => .shutdownEnabled enabled

/-- Where a handler is suspended. -/
inductive HandlerPhase
  /-- `on_routed_traffic` of the endpoint's server. -/
  | adopting (e : Topology.EndpointRuntime) (kind : RequestKind) (call : Nat)
  /-- `request.body()`. -/
  | reading (e : Topology.EndpointRuntime) (kind : RequestKind)
  /-- The admission, which is a task of the endpoint, and the body that was read for it. -/
  | admitted (e : Topology.EndpointRuntime) (task : Nat) (request : Request) (body : List UInt8)
  /-- A method of a server, and what it will return. -/
  | ordering (server call : Nat) (order : Order) (ok : Bool)
  | answered (answer : AppAnswer)

/-- A handler. -/
structure Handler where
  asked : Asked
  phase : HandlerPhase

/-- `RelayApp`. The servers are in the order of their table, each with its endpoints. -/
structure App where
  tables : Topology.RelayApp
  systems : List System
  unknown : UnknownTracker
  targetReadTimeout : Int
  readTimeouts : OrdDict String Int
  handlers : List Handler
  clock : Time
  trail : List (Event ClientKey UnknownRequest Time)

namespace App

/-- A server with its endpoints after `RelayApp.setup` and `restore`. -/
def startServer (platform : Platform) (tables : Topology.RelayApp) (rows : String → ServerRow)
    (degraded : Bool) (now : Time) (server : Topology.ServerRuntime) : Option System := do
  let config ← server.config.settings platform
  let endpoints ← server.endpoints.mapM fun name =>
    (tables.endpoints.get? name).bind fun e => e.config.settings
  return {
    server := (ServerRuntime.init config (rows server.config.name) now).restart degraded now
    endpoints := endpoints.map Endpoint.init }

/-- The app when its servers have been restored from the rows of the store. There is none for a
configuration with a time that is no number: `build` accepts `inf` and `nan`, but the clock of
`System` has no such values. -/
def start (platform : Platform) (tables : Topology.RelayApp) (rows : String → ServerRow)
    (degraded : Bool) (now : Time) : Option App := do
  let systems ← tables.servers.values.mapM (startServer platform tables rows degraded now)
  return {
    tables := tables
    systems := systems
    unknown := .init
    targetReadTimeout := tables.config.proxy.targetReadTimeout
    readTimeouts := tables.endpoints.keys.foldl
      (fun timeouts name => timeouts.insert name tables.config.proxy.targetReadTimeout) .empty
    handlers := []
    clock := now
    trail := [] }

variable (platform : Platform) (A : App)

/-- The endpoint at a place. -/
def endpointAt (p : Place) : Option Endpoint :=
  (A.systems[p.server]?).bind (·.endpoints[p.endpoint]?)

/-- A call of a server. -/
def callAt (server call : Nat) : Option CallPhase :=
  (A.systems[server]?).bind (·.server.calls[call]?)

/-! ### Handlers -/

/-- A handler starts, and is suspended. -/
def enter (asked : Asked) (phase : HandlerPhase) : App :=
  { A with handlers := A.handlers ++ [⟨asked, phase⟩] }

/-- A handler that was suspended is suspended again. -/
def settle (i : Nat) (handler : Handler) (phase : HandlerPhase) : App :=
  { A with handlers := A.handlers.set i { handler with phase := phase } }

/-- A step of a server, or of one of its endpoints. -/
def act (server : Nat) (op : System.Op) : Option App :=
  (stepAt System.step A.systems (server, op)).map fun systems => { A with systems := systems }

/-- A method of a server is called: the number of the call. -/
def callServer (server : Nat) (call : Call) : Option (Nat × App) :=
  (A.systems[server]?).bind fun S =>
    (A.act server (.server (.call call A.clock))).map fun A' => (S.server.calls.length, A')

/-- The call of `admit`, `admit_catch_all` or `admit_ws`, with the body of the request. A
WebSocket has none. -/
def admitRequest (e : Topology.EndpointRuntime) (kind : RequestKind) (inbound : Inbound)
    (body : List UInt8) : Option (HandlerPhase × App) :=
  let p := place A.tables e
  let request := admission platform A.tables e kind inbound body
  (A.endpointAt p).bind fun E =>
    (A.act p.server (.endpoint (p.endpoint, .arrive request))).map fun A' =>
      (.admitted e E.tasks.length request body, A')

/-- How a routed handler goes on when its call of `on_routed_traffic` is at an await, or over. -/
def routed (asked : Asked) (e : Topology.EndpointRuntime) (kind : RequestKind) (call : Nat) :
    Option (HandlerPhase × App) :=
  if A.callAt (place A.tables e).server call = some .ended then
    match asked with
    | .webSocket inbound => A.admitRequest platform e kind inbound []
    | _ => some (.reading e kind, A)
  else some (.adopting e kind call, A)

/-- `await endpoint.server.on_routed_traffic()`, and what follows up to the next await. -/
def routeTo (asked : Asked) (e : Topology.EndpointRuntime) (kind : RequestKind) : Option App :=
  (A.callServer (place A.tables e).server .onRoutedTraffic).bind fun called =>
    (called.2.routed platform asked e kind called.1).map fun result =>
      result.2.enter asked result.1

/-- The clock is read. -/
def at' (now : Time) : App := { A with clock := now }

/-- `unknown_tracker.record` in `proxy`. -/
def recordUnknown (inbound : Inbound) (recordAt : Time) (e : Topology.EndpointRuntime) : App :=
  let request : UnknownRequest :=
    { method := inbound.method
      path := inbound.fullPath
      targetUrl := e.server.serviceUrl ++ inbound.fullPath
      at' := recordAt }
  let ua := userAgent inbound.headers.lowered
  { A with
    unknown := A.unknown.record inbound.clientIp ua request
    trail := A.trail ++ [.seen (clientKey inbound.clientIp ua) request] }

/-- `proxy`. -/
def proxy (inbound : Inbound) (recordAt now : Time) : Option App :=
  let asked := Asked.http inbound recordAt
  match target A.tables inbound.fullPath with
  | .blocked => some ((A.at' now).enter asked (.answered (.policyError ("Unknown API path '" ++
      inbound.fullPath ++ "' is blocked (unknown_path_policy=block)"))))
  | .noCatchAll => some ((A.at' now).enter asked (.answered
      (.error 404 "Unknown path and no catch-all endpoint configured.")))
  | .endpoint e true =>
      ((A.recordUnknown inbound recordAt e).at' now).routeTo platform asked e .catchAll
  | .endpoint e false => (A.at' now).routeTo platform asked e .http

/-- `ws_proxy`. -/
def wsProxy (inbound : Inbound) (now : Time) : Option App :=
  let asked := Asked.webSocket inbound
  match target A.tables inbound.fullPath with
  | .blocked | .noCatchAll => some ((A.at' now).enter asked (.answered (.closed 1008)))
  | .endpoint e true => (A.at' now).routeTo platform asked e .catchAllWebSocket
  | .endpoint e false => (A.at' now).routeTo platform asked e .webSocket

/-- `release_session` of an endpoint would release a spot. -/
def holdsSpot (client sessionId : String) (e : Topology.EndpointRuntime) : Bool :=
  (A.endpointAt (place A.tables e)).any fun E => (E.queue.releaseSession client sessionId 0).1

/-- `monitor_release`: the first endpoint on which the session holds a spot releases it. -/
def monitorRelease (body : Option Json) (now : Time) : Option App :=
  let asked := Asked.release body
  match readRelease platform.repr body with
  | .error answer => some (A.enter asked (.answered answer))
  | .ok (client, sessionId) =>
      match A.tables.endpoints.values.find? (A.holdsSpot client sessionId) with
      | none => some (A.enter asked (.answered (.error 404
          ("Session '" ++ sessionId ++ "' (" ++ client ++ ") holds no spot."))))
      | some e =>
          let p := place A.tables e
          (A.act p.server
            (.endpoint (p.endpoint, .manage (.releaseSession client sessionId now)))).map fun A' =>
              A'.enter asked (.answered .released)

/-- How a handler with an order goes on when its call is at an await, or over. -/
def ordered (server call : Nat) (order : Order) (ok : Bool) : HandlerPhase :=
  if A.callAt server call = some .ended then .answered (order.answer ok)
  else .ordering server call order ok

/-- An order is given to a server. -/
def orderServer (asked : Asked) (name : String) (order : Order) : Option App :=
  let server := A.tables.servers.keys.idxOf name
  (A.callServer server order.call).map fun called =>
    called.2.enter asked (called.2.ordered server called.1 order false)

/-- `monitor_shutdown`. -/
def monitorShutdown (body : Option Json) : Option App :=
  match readShutdown platform.repr A.tables.servers body with
  | .error answer => some (A.enter (.shutdown body) (.answered answer))
  | .ok (server, enabled) => A.orderServer (.shutdown body) server (.shutdown enabled)

/-- `monitor_power`. -/
def monitorPower (body : Option Json) : Option App :=
  match readPower platform.repr A.tables.servers body with
  | .error answer => some (A.enter (.power body) (.answered answer))
  | .ok (server, on) => A.orderServer (.power body) server (.power server on)

/-- `set_read_timeout`. -/
def setReadTimeout (value : Int) : App :=
  { A with
    targetReadTimeout := value
    readTimeouts := A.tables.endpoints.keys.foldl (fun timeouts name => timeouts.insert name value)
      A.readTimeouts }

/-- `monitor_timeout`. -/
def monitorTimeout (body : Option Json) : App :=
  match readTimeout body with
  | .error answer => A.enter (.timeout body) (.answered answer)
  | .ok value => (A.setReadTimeout value).enter (.timeout body) (.answered (.readTimeout value))

/-- What a power action returns, when its call goes on from an await. -/
def returned (phase : Option CallPhase) (outcome : Outcome) (ok : Bool) : Bool :=
  match phase with
  | some (.poweringOn _ _) | some (.poweringOff _ _ _) => outcome.accepted
  | _ => ok

/-- A handler goes on with the outcome of what it awaits: that of the call of a server, or the
body, which is `none` when reading it raises. -/
def resume (i : Nat) (handler : Handler) (outcome : Outcome) (body : Option (List UInt8)) :
    Option App :=
  match handler.phase with
  | .adopting e kind call =>
      (A.act (place A.tables e).server (.server (.resume call outcome))).bind fun A' =>
        if outcome.raised then some (A'.settle i handler (.answered .raised))
        else
          (A'.routed platform handler.asked e kind call).map fun result =>
            result.2.settle i handler result.1
  | .reading e kind =>
      match handler.asked, body with
      | .http inbound _, some body =>
          (A.admitRequest platform e kind inbound body).map fun result =>
            result.2.settle i handler result.1
      | _, _ => some (A.settle i handler (.answered (.error 400 "Failed to read request body.")))
  | .ordering server call order ok =>
      (A.act server (.server (.resume call outcome))).map fun A' =>
        if outcome.raised then A'.settle i handler (.answered .raised)
        else
          A'.settle i handler
            (A'.ordered server call order (returned (A.callAt server call) outcome ok))
  | .admitted .. | .answered _ => none

/-! ### Steps -/

/-- The call belongs to a handler. -/
def isAwaited (server call : Nat) : Bool :=
  A.handlers.any fun handler =>
    match handler.phase with
    | .adopting e _ call' => decide ((place A.tables e).server = server ∧ call' = call)
    | .ordering server' call' _ _ => decide (server' = server ∧ call' = call)
    | _ => false

/-- The clock reading a step of a server makes, unless it belongs to a handler: the handlers
alone call `on_routed_traffic` and the methods with the defaults of the monitor. -/
def background? (server : Nat) : ServerRuntime.Op → Option Time
  | .call call now =>
      match call with
      | .onRoutedTraffic | .powerOn | .powerOff | .setShutdownOverride _ => none
      | _ => some now
  | .resume call outcome => if A.isAwaited server call then none else some outcome.now
  | .commit _ => some A.clock
  | .restart _ _ => none

/-- What happens to the app. -/
inductive Op
  /-- A request of a client or of the monitor. -/
  | http (request : Inbound) (recordAt now : Time)
  | webSocket (request : Inbound) (now : Time)
  | release (body : Option Json) (now : Time)
  | shutdown (body : Option Json) (now : Time)
  | power (body : Option Json) (now : Time)
  | timeout (body : Option Json)
  /-- A handler is resumed. -/
  | resume (i : Nat) (outcome : Outcome) (body : Option (List UInt8))
  /-- A step of a server or of an endpoint on its own. -/
  | server (n : Nat) (op : ServerRuntime.Op)
  | endpoint (p : Place) (op : Endpoint.Op)
  /-- The queue manager of the catch-all endpoint prunes, in a tick that began at `now`. -/
  | prune (now : Time)

/-- One step of the app; the monotonic clock does not go back. -/
def step (A : App) : Op → Option App
  | .http request recordAt now =>
      if A.clock ≤ recordAt ∧ recordAt ≤ now then A.proxy platform request recordAt now else none
  | .webSocket request now => if A.clock ≤ now then A.wsProxy platform request now else none
  | .release body now =>
      if A.clock ≤ now then (A.at' now).monitorRelease platform body now else none
  | .shutdown body now => if A.clock ≤ now then (A.at' now).monitorShutdown platform body else none
  | .power body now => if A.clock ≤ now then (A.at' now).monitorPower platform body else none
  | .timeout body => some (A.monitorTimeout body)
  | .resume i outcome body =>
      if A.clock ≤ outcome.now then
        (A.handlers[i]?).bind fun handler =>
          (A.at' outcome.now).resume platform i handler outcome body
      else none
  | .server n op =>
      (A.background? n op).bind fun now =>
        if A.clock ≤ now then (A.at' now).act n (.server op) else none
  | .endpoint p op =>
      match op with
      | .arrive _ => none
      | op => A.act p.server (.endpoint (p.endpoint, op))
  | .prune now =>
      if now ≤ A.clock then
        (A.tables.catchAll.bind fun e => e.config.session.expiry.number?).map fun expiry =>
          { A with
            unknown := A.unknown.prune now expiry
            trail := A.trail ++ [.swept now] }
      else none

/-! ### Calls and admissions -/

variable {platform} {A A' : App}

/-- A method that is called has the next number. -/
theorem callServer_eq_some {n c : Nat} {call : Call} (h : A.callServer n call = some (c, A')) :
    ∃ S, A.systems[n]? = some S ∧ c = S.server.calls.length ∧
      A.act n (.server (.call call A.clock)) = some A' := by
  obtain ⟨S, hS, hmap⟩ := Option.bind_eq_some_iff.mp h
  obtain ⟨A₁, hact, heq⟩ := Option.map_eq_some_iff.mp hmap
  obtain ⟨rfl, rfl⟩ := Prod.mk.inj heq
  exact ⟨S, hS, rfl, hact⟩

/-- An admission is the next task of its endpoint. -/
theorem admitRequest_eq_some {e : Topology.EndpointRuntime} {kind : RequestKind}
    {inbound : Inbound} {body : List UInt8} {phase : HandlerPhase}
    (h : A.admitRequest platform e kind inbound body = some (phase, A')) :
    ∃ E, A.endpointAt (place A.tables e) = some E ∧
      phase = .admitted e E.tasks.length (admission platform A.tables e kind inbound body) body ∧
      A.act (place A.tables e).server (.endpoint ((place A.tables e).endpoint,
        .arrive (admission platform A.tables e kind inbound body))) = some A' := by
  obtain ⟨E, hE, hmap⟩ := Option.bind_eq_some_iff.mp h
  obtain ⟨A₁, hact, heq⟩ := Option.map_eq_some_iff.mp hmap
  obtain ⟨rfl, rfl⟩ := Prod.mk.inj heq
  exact ⟨E, hE, rfl, hact⟩

/-! ### The list of handlers -/

variable {asked : Asked} {i : Nat} {handler : Handler} {α : Type}

/-- What is read off a request, when a handler starts. -/
theorem filterMap_asked_enter (f : Asked → Option α) (phase : HandlerPhase) :
    (A.enter asked phase).handlers.filterMap (fun handler => f handler.asked) =
      A.handlers.filterMap (fun handler => f handler.asked) ++ (f asked).toList := by
  unfold enter
  rw [List.filterMap_append]
  cases hasked : f asked <;> simp [hasked]

/-- A handler keeps what it was asked. -/
theorem filterMap_asked_settle (f : Asked → Option α) (hi : A.handlers[i]? = some handler)
    (phase : HandlerPhase) :
    (A.settle i handler phase).handlers.filterMap (fun handler => f handler.asked) =
      A.handlers.filterMap (fun handler => f handler.asked) := by
  have hset : A.handlers.set i handler = A.handlers := by
    obtain ⟨hlt, rfl⟩ := List.getElem?_eq_some_iff.mp hi
    exact List.set_getElem_self hlt
  calc (A.handlers.set i { handler with phase := phase }).filterMap
        (fun handler => f handler.asked)
      = ((A.handlers.set i { handler with phase := phase }).map Handler.asked).filterMap f := by
        rw [List.filterMap_map]
        rfl
    _ = ((A.handlers.set i handler).map Handler.asked).filterMap f := by
        rw [List.map_set, List.map_set]
    _ = A.handlers.filterMap (fun handler => f handler.asked) := by
        rw [hset, List.filterMap_map]
        rfl

/-- What is read off the phase of a handler, when one starts. -/
theorem bind_phase_enter (f : HandlerPhase → Option α) (phase : HandlerPhase) (j : Nat) :
    ((A.enter asked phase).handlers[j]?).bind (fun handler => f handler.phase) =
      if j = A.handlers.length then f phase
      else (A.handlers[j]?).bind fun handler => f handler.phase := by
  unfold enter
  by_cases hj : j = A.handlers.length
  · simp [hj]
  · rw [if_neg hj]
    rcases Nat.lt_or_gt_of_ne hj with hlt | hgt
    · rw [List.getElem?_append_left hlt]
    · rw [List.getElem?_eq_none (by simp; omega), List.getElem?_eq_none (by omega)]

/-- What is read off the phase of a handler, when one goes on. -/
theorem bind_phase_settle (f : HandlerPhase → Option α) (hi : A.handlers[i]? = some handler)
    (phase : HandlerPhase) (j : Nat) :
    ((A.settle i handler phase).handlers[j]?).bind (fun handler => f handler.phase) =
      if j = i then f phase else (A.handlers[j]?).bind fun handler => f handler.phase := by
  unfold settle
  by_cases hj : j = i
  · rw [if_pos hj, hj, List.getElem?_set_self (List.getElem?_eq_some_iff.mp hi).1,
      Option.bind_some]
  · rw [if_neg hj, List.getElem?_set_ne (Ne.symm hj)]

end App

end Relay
