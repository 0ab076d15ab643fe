import Relay.Clients.Identity
import Relay.Config.Fields
import Relay.Library.OrdDict

/-!
# Relay.Config.Build

**The topology a configuration describes** (`relay/config.py`, section builders, and
`relay/models.py`). A builder reads the fields of its section in the order of the source, so that
the first field at fault is the one the error names. The builders of servers, endpoints and clients
are loops that keep the names they have seen beside what they have built.
-/

namespace Relay.Topology

open Checks

/-! ### Enumerations -/

inductive UnknownPathPolicy
  | allow
  | block
  deriving DecidableEq, Repr

inductive WaitPolicy
  | wait
  | error
  deriving DecidableEq, Repr

inductive Routing
  | queued
  | concurrent
  | passthrough
  deriving DecidableEq, Repr

inductive RequestMode
  | parallel
  | atomic
  deriving DecidableEq, Repr

inductive ServerType
  | redfish
  | awsEc2
  | noop
  deriving DecidableEq, Repr

inductive OffAction
  | stop
  | terminate
  deriving DecidableEq, Repr

inductive ChildrenKind
  | none
  | parentChain
  deriving DecidableEq, Repr

inductive ReadinessMethod
  | get
  | post
  | put
  | delete
  | patch
  | head
  deriving DecidableEq, Repr

inductive NoopState
  | on
  | off
  deriving DecidableEq, Repr

/-- `UNKNOWN_PATH_POLICIES`. -/
def unknownPathPolicies : List (String × UnknownPathPolicy) :=
  [("allow", .allow), ("block", .block)]

/-- `WAIT_POLICIES`. -/
def waitPolicies : List (String × WaitPolicy) := [("wait", .wait), ("error", .error)]

/-- `ROUTINGS`. -/
def routings : List (String × Routing) :=
  [("queued", .queued), ("concurrent", .concurrent), ("passthrough", .passthrough)]

/-- `REQUEST_MODES`. -/
def requestModes : List (String × RequestMode) := [("parallel", .parallel), ("atomic", .atomic)]

/-- `SERVER_TYPES`. -/
def serverTypes : List (String × ServerType) :=
  [("redfish", .redfish), ("aws-ec2", .awsEc2), ("noop", .noop)]

/-- `OFF_ACTIONS`. -/
def offActions : List (String × OffAction) := [("stop", .stop), ("terminate", .terminate)]

/-- `STATUS_KINDS`. -/
def statusKinds : List (String × StatusKind) := [("opencode", .opencode), ("none", .none)]

/-- `CHILDREN_KINDS`. -/
def childrenKinds : List (String × ChildrenKind) :=
  [("none", .none), ("parent-chain", .parentChain)]

/-- `READINESS_METHODS`; all are in upper case, as `.upper()` would make them. -/
def readinessMethods : List (String × ReadinessMethod) :=
  [("GET", .get), ("POST", .post), ("PUT", .put), ("DELETE", .delete), ("PATCH", .patch),
    ("HEAD", .head)]

/-! ### Configurations -/

/-- `StoreConfig`. -/
structure StoreConfig where
  path : String
  retentionDays : Int
  deriving DecidableEq, Repr

/-- `ProxyConfig`. -/
structure ProxyConfig where
  host : String
  port : Int
  unknownPathPolicy : UnknownPathPolicy
  targetReadTimeout : Int
  sessionIdHeaders : List String
  shutdownTick : PyFloat
  store : StoreConfig
  deriving DecidableEq, Repr

/-- `ReadinessConfig`. -/
structure ReadinessConfig where
  path : String
  method : ReadinessMethod
  interval : PyFloat
  timeout : PyFloat
  healthyStatuses : List Int
  deriving DecidableEq, Repr

/-- `SessionConfig`. -/
structure SessionConfig where
  perSessionRequests : Int
  requestMode : RequestMode
  busyWindow : PyFloat
  expiry : PyFloat
  immediateIdleRelease : Bool
  deriving DecidableEq, Repr

/-- `EndpointConfig`. -/
structure EndpointConfig where
  name : String
  server : String
  pathPrefix : String
  catchAll : Bool
  readiness : ReadinessConfig
  waitPolicy : WaitPolicy
  routing : Routing
  concurrency : Int
  queueTimeout : PyFloat
  session : SessionConfig
  sessionIdBodyFields : List String
  deriving DecidableEq, Repr

/-- `PowerConfig`: `RedfishPowerConfig`, `NoopPowerConfig` or `AwsEc2PowerConfig`. -/
inductive PowerConfig
  | redfish (host user password : String) (baseUrl : Option String) (systemPath : String)
      (verifySsl : Bool)
  | noop (initialState : NoopState)
  | awsEc2 (region instanceId : String) (accessKey secretKey sessionToken profile : Option String)
      (offAction : OffAction)
  deriving DecidableEq, Repr

/-- `ServerConfig`. -/
structure ServerConfig where
  name : String
  type : ServerType
  power : PowerConfig
  serviceUrl : String
  idleTimeout : PyFloat
  shutdownEnabled : Bool
  adoptOnTraffic : Bool
  schedule : Option String
  deriving DecidableEq, Repr

/-- `MatchConfig`. -/
structure MatchConfig where
  uaPrefix : String
  sessionHeaders : List String
  gatedSessionHeaders : List String
  deriving DecidableEq, Repr

/-- `StatusConfig`. -/
structure StatusConfig where
  kind : StatusKind
  port : Int
  password : String
  pollInterval : PyFloat
  statusPath : String
  sessionPath : String
  pendingPaths : List String
  deriving DecidableEq, Repr

/-- `ChildrenConfig`. -/
structure ChildrenConfig where
  kind : ChildrenKind
  depth : Int
  deriving DecidableEq, Repr

/-- `ClientConfig`. -/
structure ClientConfig where
  name : String
  recognition : MatchConfig
  status : StatusConfig
  children : ChildrenConfig
  deriving DecidableEq, Repr

/-- `RelayConfig`. -/
structure RelayConfig where
  proxy : ProxyConfig
  servers : List ServerConfig
  endpoints : List EndpointConfig
  clients : List ClientConfig
  deriving DecidableEq, Repr

/-! ### The proxy -/

variable (host : Host)

/-- `repr` of a string. -/
def quoted (text : String) : String := host.repr (Raw.ofString text)

/-- The loop of `_validate_store_path`: drops the last part of a path, given here from the last
part on, until something is there. -/
def nearestExisting (root : String) : List String → PosixPath
  | [] => ⟨root, []⟩
  | part :: rest =>
      let current : PosixPath := ⟨root, (part :: rest).reverse⟩
      if host.pathExists current then current else nearestExisting root rest

/-- `_validate_store_path`. -/
def validateStorePath (path : String) : Result Unit :=
  match host.expanduser (PosixPath.ofString path) with
  | none => .error .other
  | some expanded =>
      let parent := expanded.parent
      let current := nearestExisting host parent.root parent.parts.reverse
      refuse (host.pathExists current = true ∧ host.isDir current = false)
        (.config ("store.path " ++ quoted host path ++ ": parent directory " ++ parent.text ++
          " is not creatable (blocked by existing file " ++ current.text ++ ")"))

/-- `_build_proxy`. -/
def buildProxy (raw : Mapping) : Result ProxyConfig := do
  let storeRaw ← asSection (raw.get "store") "proxy.store"
  let storePath ← getStrOr storeRaw "path" "proxy.store" "./relay.db"
  validateStorePath host storePath
  let address ← getStrOr raw "host" "proxy" "0.0.0.0"
  let port ← getInt host raw "port" "proxy" 8000 (some 1)
  let unknownPathPolicy ←
    getEnum host raw "unknown_path_policy" "proxy" unknownPathPolicies (some .allow)
  let targetReadTimeout ← getInt host raw "target_read_timeout" "proxy" 0 (some 0)
  let headers ← getStrList raw "session_id_headers" "proxy" ["x-session-id"]
  let shutdownTick ← getFloat host raw "shutdown_tick" "proxy" 60 (some (1 / 10))
  let retentionDays ← getInt host storeRaw "retention_days" "proxy.store" 90 (some 0)
  return {
    host := address
    port := port
    unknownPathPolicy := unknownPathPolicy
    targetReadTimeout := targetReadTimeout
    sessionIdHeaders := headers.map host.lower
    shutdownTick := shutdownTick
    store := { path := storePath, retentionDays := retentionDays } }

/-! ### Servers -/

/-- `_validate_schedule`. -/
def validateSchedule (schedule : String) : Result Unit := do
  let fields := split schedule.toList
  refuse (fields.length ≠ 5)
    (.config ("schedule must be a 5-field cron expression, got " ++ quoted host schedule ++ " (" ++
      toString fields.length ++ " fields)"))
  match host.croniter schedule with
  | .ok () => return ()
  | .error (.invalid text) =>
      fail ("schedule is not a valid cron expression: " ++ quoted host schedule ++ " (" ++ text ++
        ")")
  | .error .other => .error .other

/-- Whether an optional string is set and not empty. -/
def isSet (text : Option String) : Bool := text.any (· ≠ "")

/-- `_build_power`, type redfish. -/
def buildRedfish (raw : Mapping) (where' : String) : Result PowerConfig := do
  let address ← getStrOpt raw "host" where'
  let baseUrl ← getStrOpt raw "base_url" where'
  refuse (address = none ∧ baseUrl = none)
    (.config ("power block in " ++ where' ++
      " (type redfish) requires 'host' (or an explicit 'base_url')"))
  let user ← getStr raw "user" where'
  let password ← getStr raw "password" where'
  let systemPath ← getStrOr raw "system_path" where' "/redfish/v1/Systems/Self"
  let verifySsl ← getBool host raw "verify_ssl" where' false
  return .redfish (address.getD "") user password baseUrl systemPath verifySsl

/-- `_build_power`, type noop. An unquoted `on` or `off` is a boolean of YAML. -/
def buildNoop (raw : Mapping) (where' : String) : Result PowerConfig :=
  let initial := (raw.get? "initial_state").getD (Raw.ofString "on")
  let refused := fail ("field 'initial_state' in " ++ where' ++ " must be 'on' or 'off', got " ++
    host.repr initial)
  match initial with
  | .other (.bool true) => .ok (.noop .on)
  | .other (.bool false) => .ok (.noop .off)
  | .str text =>
      if text = "on".toList then .ok (.noop .on)
      else if text = "off".toList then .ok (.noop .off)
      else refused
  | _ => refused

/-- `_build_power`, type aws-ec2. -/
def buildAwsEc2 (raw : Mapping) (where' : String) : Result PowerConfig := do
  let accessKey ← getStrOpt raw "access_key" where'
  let secretKey ← getStrOpt raw "secret_key" where'
  let profile ← getStrOpt raw "profile" where'
  let hasKeys := isSet accessKey && isSet secretKey
  refuse ((hasKeys || isSet profile) = false)
    (.config ("power block in " ++ where' ++
      " (type aws-ec2) requires either access_key+secret_key or a profile"))
  -- with `has_keys` both are set, so this never refuses anything
  refuse (hasKeys = true ∧ isSet accessKey ≠ isSet secretKey)
    (.config ("power block in " ++ where' ++ " needs both access_key and secret_key"))
  let region ← getStr raw "region" where'
  let instanceId ← getStr raw "instance_id" where'
  let sessionToken ← getStrOpt raw "session_token" where'
  let offAction ← getEnum host raw "off_action" where' offActions (some .stop)
  return .awsEc2 region instanceId accessKey secretKey sessionToken profile offAction

/-- `_build_power`. -/
def buildPower (raw : Mapping) (serverType : ServerType) (where' : String) : Result PowerConfig :=
  match serverType with
  | .redfish => buildRedfish host raw where'
  | .noop => buildNoop host raw where'
  | .awsEc2 => buildAwsEc2 host raw where'

/-- What a loop has built, and the names it has seen. -/
structure Collected (α : Type) where
  built : List α := []
  seen : List String := []

/-- One iteration of `_build_servers`. -/
def addServer (acc : Collected ServerConfig) (entry : Raw × Nat) :
    Result (Collected ServerConfig) := do
  let where' := indexPath "servers" entry.2
  let fields ← asSection entry.1 where'
  let name ← getStr fields "name" where'
  refuse (name ∈ acc.seen)
    (.config ("duplicate server name " ++ quoted host name ++ " (in " ++ where' ++ ")"))
  let serverType ← getEnum host fields "type" where' serverTypes none
  let powerRaw ← asSection (fields.get "power") (where' ++ ".power")
  let schedule ← getStrOpt fields "schedule" where'
  schedule.forM (validateSchedule host)
  let serviceUrl ← getStr fields "service_url" where'
  let power ← buildPower host powerRaw serverType (where' ++ ".power")
  let idleTimeout ← getFloat host fields "idle_timeout" where' 3600 (some (1 / 1000))
  let shutdownEnabled ← getBool host fields "shutdown_enabled" where' true
  let adoptOnTraffic ← getBool host fields "adopt_on_traffic" where' true
  let server : ServerConfig :=
    { name := name
      type := serverType
      power := power
      serviceUrl := rstripSlash serviceUrl
      idleTimeout := idleTimeout
      shutdownEnabled := shutdownEnabled
      adoptOnTraffic := adoptOnTraffic
      schedule := schedule }
  return { built := acc.built ++ [server], seen := acc.seen ++ [name] }

/-- `_build_servers`. -/
def buildServers (raw : List Raw) : Result (List ServerConfig) := do
  let acc ← raw.zipIdx.foldlM (addServer host) {}
  return acc.built

/-! ### Endpoints -/

/-- `_build_readiness`. -/
def buildReadiness (raw : Mapping) (where' : String) : Result ReadinessConfig := do
  let path ← getStrOr raw "path" where' "/health"
  let method ← getEnum host raw "method" where' readinessMethods (some .get)
  let interval ← getFloat host raw "interval" where' 5 (some (1 / 10))
  let timeout ← getFloat host raw "timeout" where' 2 (some (1 / 10))
  let healthyStatuses ← getIntList raw "healthy_statuses" where' [200]
  return {
    path := if startsWith path "/" then path else "/" ++ path
    method := method
    interval := interval
    timeout := timeout
    healthyStatuses := healthyStatuses }

/-- `_build_session`. -/
def buildSession (raw : Mapping) (where' : String) : Result SessionConfig := do
  let perSessionRequests ← getInt host raw "per_session_requests" where' (-1) none
  let requestMode ← getEnum host raw "request_mode" where' requestModes (some .parallel)
  let busyWindow ← getFloat host raw "busy_window" where' 120 (some 0)
  let expiry ← getFloat host raw "expiry" where' 300 (some 1)
  let immediateIdleRelease ← getBool host raw "immediate_idle_release" where' true
  return {
    perSessionRequests := perSessionRequests
    requestMode := requestMode
    busyWindow := busyWindow
    expiry := expiry
    immediateIdleRelease := immediateIdleRelease }

/-- What the loop of `_build_endpoints` has built, and its bookkeeping. -/
structure Endpoints extends Collected EndpointConfig where
  prefixes : OrdDict String String := .empty
  catchAll : Nat := 0

/-- One iteration of `_build_endpoints`. -/
def addEndpoint (serverNames : List String) (acc : Endpoints) (entry : Raw × Nat) :
    Result Endpoints := do
  let where' := indexPath "endpoints" entry.2
  let fields ← asSection entry.1 where'
  let name ← getStr fields "name" where'
  refuse (name ∈ acc.seen)
    (.config ("duplicate endpoint name " ++ quoted host name ++ " (in " ++ where' ++ ")"))
  let server ← getStr fields "server" where'
  refuse (server ∉ serverNames)
    (.config ("endpoint " ++ quoted host name ++ " references unknown server " ++
      quoted host server ++ " (in " ++ where' ++ ")"))
  let pathPrefix ← getStr fields "path_prefix" where'
  refuse (startsWith pathPrefix "/" = false)
    (.config ("field 'path_prefix' in " ++ where' ++ " must start with '/', got " ++
      quoted host pathPrefix))
  match acc.prefixes.get? pathPrefix with
  | some owner =>
      fail ("identical path_prefix " ++ quoted host pathPrefix ++ " on endpoints " ++
        quoted host owner ++ " and " ++ quoted host name)
  | none => do
      let isCatchAll := truthy (fields.get "catch_all")
      let catchAll := if isCatchAll then acc.catchAll + 1 else acc.catchAll
      refuse (isCatchAll = true ∧ 1 < catchAll)
        (.config ("at most one catch_all endpoint per platform (D17); " ++ quoted host name ++
          " is a second"))
      let routing ← getEnum host fields "routing" where' routings (some .queued)
      let concurrency ← getInt host fields "concurrency" where' 1 none
      refuse (routing = .queued ∧ concurrency < 1)
        (.config ("endpoint " ++ quoted host name ++
          ": routing 'queued' requires concurrency >= 1"))
      let readinessRaw ← asSection (fields.get "readiness") (where' ++ ".readiness")
      let sessionRaw ← asSection (fields.get "session") (where' ++ ".session")
      let readiness ← buildReadiness host readinessRaw (where' ++ ".readiness")
      let waitPolicy ← getEnum host fields "wait_policy" where' waitPolicies (some .wait)
      let queueTimeout ← getFloat host fields "queue_timeout" where' 0 none
      let session ← buildSession host sessionRaw (where' ++ ".session")
      let sessionIdBodyFields ← getStrList fields "session_id_body_fields" where' []
      let endpoint : EndpointConfig :=
        { name := name
          server := server
          pathPrefix := pathPrefix
          catchAll := isCatchAll
          readiness := readiness
          waitPolicy := waitPolicy
          routing := routing
          concurrency := concurrency
          queueTimeout := queueTimeout
          session := session
          sessionIdBodyFields := sessionIdBodyFields }
      return {
        built := acc.built ++ [endpoint]
        seen := acc.seen ++ [name]
        prefixes := acc.prefixes.insert pathPrefix name
        catchAll := catchAll }

/-- `_build_endpoints`. -/
def buildEndpoints (raw : List Raw) (serverNames : List String) : Result (List EndpointConfig) := do
  let acc ← raw.zipIdx.foldlM (addEndpoint host serverNames) {}
  return acc.built

/-! ### Clients -/

/-- `_build_match`. -/
def buildMatch (raw : Mapping) (where' : String) : Result MatchConfig := do
  let uaPrefix ← getStrOr raw "ua_prefix" where' ""
  let sessionHeaders ← getStrList raw "session_headers" where' []
  let gatedSessionHeaders ← getStrList raw "gated_session_headers" where' []
  return {
    uaPrefix := uaPrefix
    sessionHeaders := sessionHeaders
    gatedSessionHeaders := gatedSessionHeaders }

/-- `_build_status`. -/
def buildStatus (raw : Mapping) (where' : String) : Result StatusConfig := do
  let kind ← getEnum host raw "kind" where' statusKinds (some .opencode)
  -- an explicit empty list disables the poll of the pending lists
  let pendingPaths ← getStrList raw "pending_paths" where'
    (if kind = .opencode then ["/permission", "/question"] else [])
  let port ← getInt host raw "port" where' 4096 (some 1)
  let password ← getStrOr raw "password" where' ""
  let pollInterval ← getFloat host raw "poll_interval" where' 5 (some (1 / 10))
  let statusPath ← getStrOr raw "status_path" where' "/session/status"
  let sessionPath ← getStrOr raw "session_path" where' "/session"
  return {
    kind := kind
    port := port
    password := password
    pollInterval := pollInterval
    statusPath := statusPath
    sessionPath := sessionPath
    pendingPaths := pendingPaths }

/-- `_build_children`. -/
def buildChildren (raw : Mapping) (where' : String) : Result ChildrenConfig := do
  let kind ← getEnum host raw "kind" where' childrenKinds (some .none)
  let depth ← getInt host raw "depth" where' 10 (some 1)
  return { kind := kind, depth := depth }

/-- One iteration of `_build_clients`. -/
def addClient (acc : Collected ClientConfig) (entry : Raw × Nat) :
    Result (Collected ClientConfig) := do
  let where' := indexPath "clients" entry.2
  let fields ← asSection entry.1 where'
  let name ← getStr fields "name" where'
  refuse (name ∈ acc.seen)
    (.config ("duplicate client name " ++ quoted host name ++ " (in " ++ where' ++ ")"))
  let matchRaw ← asSection (fields.get "match") (where' ++ ".match")
  let statusRaw ← asSection (fields.get "status") (where' ++ ".status")
  let childrenRaw ← asSection (fields.get "children") (where' ++ ".children")
  let recognition ← buildMatch matchRaw (where' ++ ".match")
  let status ← buildStatus host statusRaw (where' ++ ".status")
  let children ← buildChildren host childrenRaw (where' ++ ".children")
  let client : ClientConfig :=
    { name := name, recognition := recognition, status := status, children := children }
  return { built := acc.built ++ [client], seen := acc.seen ++ [name] }

/-- `_build_clients`. -/
def buildClients (raw : List Raw) : Result (List ClientConfig) := do
  let acc ← raw.zipIdx.foldlM (addClient host) {}
  return acc.built

/-! ### The topology -/

/-- `_build`. -/
def build (data : Mapping) : Result RelayConfig := do
  let proxyRaw ← asSection (data.get "proxy") "proxy"
  let proxy ← buildProxy host proxyRaw
  let serversRaw ← listSection (data.get "servers") "servers"
  let servers ← buildServers host serversRaw
  let endpointsRaw ← listSection (data.get "endpoints") "endpoints"
  let endpoints ← buildEndpoints host endpointsRaw (servers.map ServerConfig.name)
  let clientsRaw ← listSection (data.get "clients") "clients"
  let clients ← buildClients host clientsRaw
  return { proxy := proxy, servers := servers, endpoints := endpoints, clients := clients }

end Relay.Topology
