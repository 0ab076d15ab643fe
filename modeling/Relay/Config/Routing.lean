import Mathlib.Data.List.MinMax
import Relay.Config.Build

/-!
# Relay.Config.Routing

**An accepted topology routes in one way.** What `build` accepts is `WellFormed`: the loops of the
builders refuse a name or a path prefix that an earlier entry has. So the tables of `RelayApp`,
which are keyed by name, have an entry for each entry of the configuration.

`route` keeps the first endpoint with the longest matching prefix. Two prefixes of one path that
are equally long are equal, and prefixes are distinct, so there is never a tie: the endpoint does
not depend on the order of the table.
-/

namespace Relay.Topology

open Checks

/-! ### What is accepted -/

/-- The rules for the servers, endpoints and clients of a topology. -/
structure WellFormed (config : RelayConfig) : Prop where
  servers_nodup : (config.servers.map ServerConfig.name).Nodup
  endpoints_nodup : (config.endpoints.map EndpointConfig.name).Nodup
  clients_nodup : (config.clients.map ClientConfig.name).Nodup
  server : ∀ e ∈ config.endpoints, ∃ s ∈ config.servers, s.name = e.server
  rooted : ∀ e ∈ config.endpoints, startsWith e.pathPrefix "/" = true
  prefixes_nodup : (config.endpoints.map EndpointConfig.pathPrefix).Nodup
  catchAll_le : config.endpoints.countP EndpointConfig.catchAll ≤ 1
  concurrency : ∀ e ∈ config.endpoints, e.routing = .queued → 1 ≤ e.concurrency

variable {host : Host}

/-- A loop whose iterations add something with a name they have not seen. -/
theorem nodup_of_loop {α : Type} {name : α → String}
    {step : Collected α → Raw × Nat → Result (Collected α)}
    (hstep : ∀ acc entry acc', step acc entry = .ok acc' → ∃ a, name a ∉ acc.seen ∧
      acc' = { built := acc.built ++ [a], seen := acc.seen ++ [name a] })
    {raw : List (Raw × Nat)} {acc : Collected α} (h : raw.foldlM step {} = .ok acc) :
    (acc.built.map name).Nodup := by
  have hkept : acc.seen = acc.built.map name ∧ acc.seen.Nodup := by
    refine foldlM_ok (I := fun _ acc => acc.seen = acc.built.map name ∧ acc.seen.Nodup) ?_ h
      ⟨rfl, List.nodup_nil⟩
    rintro - acc entry acc' - ⟨hseen, hnodup⟩ hok
    obtain ⟨a, hnew, rfl⟩ := hstep acc entry acc' hok
    refine ⟨by simp [hseen], ?_⟩
    exact List.Nodup.append hnodup (List.nodup_singleton _) (List.disjoint_singleton.mpr hnew)
  rw [← hkept.1]
  exact hkept.2

theorem addServer_ok {acc acc' : Collected ServerConfig} {entry : Raw × Nat}
    (h : addServer host acc entry = .ok acc') : ∃ server, server.name ∉ acc.seen ∧
      acc' = { built := acc.built ++ [server], seen := acc.seen ++ [server.name] } := by
  simp only [addServer, bind_eq_ok, refuse_eq_ok, pure_eq_ok] at h
  obtain ⟨fields, -, name, -, -, hnew, _, -, _, -, _, -, _, -, _, -, _, -, _, -, _, -, _, -, rfl⟩ :=
    h
  exact ⟨_, hnew, rfl⟩

theorem addClient_ok {acc acc' : Collected ClientConfig} {entry : Raw × Nat}
    (h : addClient host acc entry = .ok acc') : ∃ client, client.name ∉ acc.seen ∧
      acc' = { built := acc.built ++ [client], seen := acc.seen ++ [client.name] } := by
  simp only [addClient, bind_eq_ok, refuse_eq_ok, pure_eq_ok] at h
  obtain ⟨fields, -, name, -, -, hnew, _, -, _, -, _, -, _, -, _, -, _, -, rfl⟩ := h
  exact ⟨_, hnew, rfl⟩

/-- What one iteration of `_build_endpoints` checks. -/
structure Admissible (serverNames : List String) (acc : Endpoints) (e : EndpointConfig) : Prop where
  name : e.name ∉ acc.seen
  server : e.server ∈ serverNames
  rooted : startsWith e.pathPrefix "/" = true
  pathPrefix : e.pathPrefix ∉ acc.prefixes
  catchAll : e.catchAll = true → acc.catchAll = 0
  concurrency : e.routing = .queued → 1 ≤ e.concurrency

theorem addEndpoint_ok {serverNames : List String} {acc acc' : Endpoints} {entry : Raw × Nat}
    (h : addEndpoint host serverNames acc entry = .ok acc') :
    ∃ e, Admissible serverNames acc e ∧
      acc' = { built := acc.built ++ [e]
               seen := acc.seen ++ [e.name]
               prefixes := acc.prefixes.insert e.pathPrefix e.name
               catchAll := if e.catchAll then acc.catchAll + 1 else acc.catchAll } := by
  simp only [addEndpoint, bind_eq_ok, refuse_eq_ok] at h
  obtain ⟨fields, -, name, -, -, hname, server, -, -, hserver, pathPrefix, -, -, hrooted, h⟩ := h
  split at h
  · cases h
  · rename_i hprefixes
    simp only [bind_eq_ok, refuse_eq_ok, pure_eq_ok] at h
    obtain ⟨-, hcatch, routing, -, concurrency, -, -, hqueued, _, -, _, -, _, -, _, -, _, -, _, -,
      _, -, rfl⟩ := h
    refine ⟨_, ?_, rfl⟩
    exact
      { name := hname
        server := not_not.mp hserver
        rooted := by simpa using hrooted
        pathPrefix := OrdDict.get?_eq_none_iff.mp hprefixes
        catchAll := fun hcatchAll => by
          by_contra hpos
          exact hcatch ⟨hcatchAll, by rw [if_pos hcatchAll]; omega⟩
        concurrency := fun hrouting => by
          by_contra hlow
          exact hqueued ⟨hrouting, Int.not_le.mp hlow⟩ }

/-- What the loop of `_build_endpoints` keeps. -/
structure Endpoints.Kept (serverNames : List String) (acc : Endpoints) : Prop where
  seen : acc.seen = acc.built.map EndpointConfig.name
  seen_nodup : acc.seen.Nodup
  prefixes : acc.prefixes.keys = acc.built.map EndpointConfig.pathPrefix
  catchAll : acc.catchAll = acc.built.countP EndpointConfig.catchAll
  catchAll_le : acc.catchAll ≤ 1
  server : ∀ e ∈ acc.built, e.server ∈ serverNames
  rooted : ∀ e ∈ acc.built, startsWith e.pathPrefix "/" = true
  concurrency : ∀ e ∈ acc.built, e.routing = .queued → 1 ≤ e.concurrency

namespace Endpoints.Kept

theorem nil (serverNames : List String) : Kept serverNames {} where
  seen := rfl
  seen_nodup := List.nodup_nil
  prefixes := rfl
  catchAll := rfl
  catchAll_le := Nat.zero_le 1
  server := fun _ h => absurd h List.not_mem_nil
  rooted := fun _ h => absurd h List.not_mem_nil
  concurrency := fun _ h => absurd h List.not_mem_nil

theorem add {serverNames : List String} {acc acc' : Endpoints} {entry : Raw × Nat}
    (hkept : acc.Kept serverNames) (h : addEndpoint host serverNames acc entry = .ok acc') :
    acc'.Kept serverNames := by
  obtain ⟨e, he, rfl⟩ := addEndpoint_ok h
  have hsnoc : ∀ {p : EndpointConfig → Prop}, (∀ a ∈ acc.built, p a) → p e →
      ∀ a ∈ acc.built ++ [e], p a := by
    intro p hold hnew a ha
    rcases List.mem_append.mp ha with ha | ha
    · exact hold a ha
    · exact List.mem_singleton.mp ha ▸ hnew
  constructor
  · simp [hkept.seen]
  · exact List.Nodup.append hkept.seen_nodup (List.nodup_singleton _)
      (List.disjoint_singleton.mpr he.name)
  · dsimp only
    rw [OrdDict.keys_insert_of_not_mem he.pathPrefix, hkept.prefixes]
    simp
  · dsimp only
    rw [List.countP_append, List.countP_singleton, hkept.catchAll]
    split <;> rfl
  · dsimp only
    split
    · rename_i hcatchAll
      rw [he.catchAll hcatchAll]
    · exact hkept.catchAll_le
  · exact hsnoc hkept.server he.server
  · exact hsnoc hkept.rooted he.rooted
  · exact hsnoc hkept.concurrency he.concurrency

end Endpoints.Kept

/-- **What `_build` accepts is well formed.** -/
theorem wellFormed_of_build {data : Mapping} {config : RelayConfig}
    (h : build host data = .ok config) : WellFormed config := by
  simp only [build, buildServers, buildEndpoints, buildClients, bind_eq_ok, pure_eq_ok] at h
  obtain ⟨_, -, proxy, -, _, -, servers, ⟨servers', hservers, rfl⟩, _, -, endpoints,
    ⟨endpoints', hendpoints, rfl⟩, _, -, clients, ⟨clients', hclients, rfl⟩, rfl⟩ := h
  have hkept : endpoints'.Kept (servers'.built.map ServerConfig.name) :=
    foldlM_ok (I := fun _ acc => Endpoints.Kept _ acc) (fun _ _ _ _ _ hacc hok => hacc.add hok)
      hendpoints (.nil _)
  constructor
  · exact nodup_of_loop (fun _ _ _ => addServer_ok) hservers
  · rw [← hkept.seen]
    exact hkept.seen_nodup
  · exact nodup_of_loop (fun _ _ _ => addClient_ok) hclients
  · intro e he
    exact List.mem_map.mp (hkept.server e he)
  · exact hkept.rooted
  · rw [← hkept.prefixes]
    exact endpoints'.prefixes.keys_nodup
  · rw [← hkept.catchAll]
    exact hkept.catchAll_le
  · exact hkept.concurrency

/-! ### The tables -/

/-- What of a `ClientConfig` recognises the client. -/
def ClientConfig.identity (client : ClientConfig) : Relay.ClientConfig where
  name := client.name
  uaPrefix := client.recognition.uaPrefix
  sessionHeaders := client.recognition.sessionHeaders
  gatedSessionHeaders := client.recognition.gatedSessionHeaders
  statusKind := client.status.kind

/-- `StatusPoller`, as it is constructed. -/
structure StatusPoller where
  provider : ClientProvider
  port : Int
  password : String
  pollInterval : PyFloat

/-- `ServerRuntime`: its configuration, and the names of the endpoints appended to it. -/
structure ServerRuntime where
  config : ServerConfig
  endpoints : List String

/-- `EndpointRuntime`: its configuration, and that of its server. -/
structure EndpointRuntime where
  config : EndpointConfig
  server : ServerConfig

/-- `RelayApp`. -/
structure RelayApp where
  config : RelayConfig
  servers : OrdDict String ServerRuntime
  providers : List ClientProvider
  pollers : OrdDict String StatusPoller
  endpoints : OrdDict String EndpointRuntime
  catchAll : Option EndpointRuntime

/-- `create_power_backend`: there is none for servers of type aws-ec2. -/
def createPowerBackend (host : Host) (server : ServerConfig) : Result Unit :=
  refuse (server.type = .awsEc2)
    (.config ("server " ++ quoted host server.name ++ ": no power backend available for type " ++
      quoted host "aws-ec2" ++ " in this version (aws-ec2 lands in Phase 2)"))

/-- The loop body of `RelayApp.__init__`. -/
def addServerRuntime (host : Host) (servers : OrdDict String ServerRuntime)
    (server : ServerConfig) : Result (OrdDict String ServerRuntime) := do
  createPowerBackend host server
  return servers.insert server.name { config := server, endpoints := [] }

/-- The poller of a client. -/
def pollerOf (host : Host) (client : ClientConfig) : StatusPoller where
  provider := providerFromConfig host.lower client.identity
  port := client.status.port
  password := client.status.password
  pollInterval := client.status.pollInterval

/-- The loop of `setup` over the clients: only those with a status API are polled. -/
def pollersOf (host : Host) (clients : List ClientConfig) : OrdDict String StatusPoller :=
  clients.foldl (fun pollers client =>
    if client.status.kind = .opencode then pollers.insert client.name (pollerOf host client)
    else pollers) .empty

/-- The loop body of `setup` over the endpoints. -/
def addEndpointRuntime (app : RelayApp) (endpointConfig : EndpointConfig) : Result RelayApp :=
  match app.servers.get? endpointConfig.server with
  | none => .error .other
  | some server =>
      let endpoint : EndpointRuntime := { config := endpointConfig, server := server.config }
      .ok { app with
        servers := app.servers.insert endpointConfig.server
          { server with endpoints := server.endpoints ++ [endpointConfig.name] }
        endpoints := app.endpoints.insert endpointConfig.name endpoint
        catchAll := if endpointConfig.catchAll then some endpoint else app.catchAll }

/-- `RelayApp.__init__`. -/
def RelayApp.init (host : Host) (config : RelayConfig) : Result RelayApp := do
  let servers ← config.servers.foldlM (addServerRuntime host) .empty
  return {
    config := config
    servers := servers
    providers := config.clients.map fun client => providerFromConfig host.lower client.identity
    pollers := .empty
    endpoints := .empty
    catchAll := none }

/-- `setup`. -/
def RelayApp.setup (host : Host) (app : RelayApp) : Result RelayApp :=
  app.config.endpoints.foldlM addEndpointRuntime
    { app with pollers := pollersOf host app.config.clients }

/-- The application for a configuration, ready to serve. -/
def createApp (host : Host) (config : RelayConfig) : Result RelayApp := do
  let app ← RelayApp.init host config
  app.setup host

/-- The tables have an entry for each entry of the configuration, in the same order. -/
structure KeepsAll (host : Host) (config : RelayConfig) (app : RelayApp) : Prop where
  servers : app.servers.entries.map (fun p => (p.1, p.2.config)) =
    config.servers.map (fun s => (s.name, s))
  endpoints : app.endpoints.entries.map (fun p => (p.1, p.2.config)) =
    config.endpoints.map (fun e => (e.name, e))
  pollers : app.pollers.entries = (config.clients.filter (fun c => c.status.kind = .opencode)).map
    (fun c => (c.name, pollerOf host c))

variable {config : RelayConfig} {app : RelayApp}

/-- The keys of a table that shows the entries of a list under their names. -/
theorem keys_of_entries {ν α : Type} {d : OrdDict String ν} {view : ν → α} {name : α → String}
    {l : List α} (h : d.entries.map (fun p => (p.1, view p.2)) = l.map (fun a => (name a, a))) :
    d.keys = l.map name := by
  have hkeys := congrArg (List.map Prod.fst) h
  simpa [OrdDict.keys, Function.comp_def] using hkeys

/-- One more item with a new name, in a table that shows the items of a list. -/
theorem entries_insert_snoc {ν α : Type} {d : OrdDict String ν} {view : ν → α} {name : α → String}
    {l : List α} {a : α} {v : ν}
    (h : d.entries.map (fun p => (p.1, view p.2)) = l.map (fun a => (name a, a)))
    (hnew : name a ∉ l.map name) (hv : view v = a) :
    (d.insert (name a) v).entries.map (fun p => (p.1, view p.2)) =
      (l ++ [a]).map (fun a => (name a, a)) := by
  have hfresh : name a ∉ d := by rwa [OrdDict.mem_def, keys_of_entries h]
  rw [OrdDict.entries_insert_of_not_mem hfresh, List.map_append, List.map_append, h]
  simp [hv]

theorem servers_of_init {servers : OrdDict String ServerRuntime} {configs : List ServerConfig}
    (hnames : (configs.map ServerConfig.name).Nodup)
    (h : configs.foldlM (addServerRuntime host) .empty = .ok servers) :
    servers.entries.map (fun p => (p.1, p.2.config)) = configs.map (fun s => (s.name, s)) := by
  refine foldlM_ok (I := fun done (servers : OrdDict String ServerRuntime) =>
    servers.entries.map (fun p => (p.1, p.2.config)) = done.map (fun s => (s.name, s))) ?_ h rfl
  intro done servers server servers' hdone hkept hok
  obtain ⟨-, -, hinsert⟩ := bind_eq_ok.mp hok
  obtain rfl := pure_eq_ok.mp hinsert
  exact entries_insert_snoc hkept (name_notMem_of_nodup hdone hnames) rfl

theorem pollers_of_setup {clients : List ClientConfig}
    (hnames : (clients.map ClientConfig.name).Nodup) :
    (pollersOf host clients).entries = (clients.filter (fun c => c.status.kind = .opencode)).map
      (fun c => (c.name, pollerOf host c)) := by
  have hfilter : pollersOf host clients =
      (clients.filter (fun c => c.status.kind = .opencode)).foldl
        (fun pollers client => pollers.insert client.name (pollerOf host client)) .empty := by
    rw [List.foldl_filter]
    simp [pollersOf]
  rw [hfilter]
  exact OrdDict.entries_foldl_insert (hnames.sublist (List.filter_sublist.map _))

/-- One endpoint more is set up. -/
theorem addEndpointRuntime_ok {app app' : RelayApp} {e : EndpointConfig}
    (h : addEndpointRuntime app e = .ok app') : ∃ server : ServerRuntime,
      app.servers.get? e.server = some server ∧
      app'.servers = app.servers.insert e.server
        { server with endpoints := server.endpoints ++ [e.name] } ∧
      app'.endpoints = app.endpoints.insert e.name { config := e, server := server.config } ∧
      app'.pollers = app.pollers := by
  unfold addEndpointRuntime at h
  split at h
  · cases h
  · rename_i server hserver
    obtain rfl := Except.ok.inj h
    exact ⟨server, hserver, rfl, rfl, rfl⟩

theorem addEndpointRuntime_isOk {app : RelayApp} {e : EndpointConfig}
    (h : e.server ∈ app.servers) :
    ∃ app', addEndpointRuntime app e = .ok app' ∧ ∀ k ∈ app.servers, k ∈ app'.servers := by
  obtain ⟨server, hserver⟩ := OrdDict.mem_iff_get?.mp h
  refine ⟨_, by rw [addEndpointRuntime, hserver], fun k hk => ?_⟩
  exact OrdDict.mem_insert.mpr (Or.inr hk)

/-- Appending an endpoint to its server changes no configuration. -/
theorem servers_addEndpointRuntime {app app' : RelayApp} {e : EndpointConfig}
    (h : addEndpointRuntime app e = .ok app') :
    app'.servers.entries.map (fun p => (p.1, p.2.config)) =
      app.servers.entries.map (fun p => (p.1, p.2.config)) := by
  obtain ⟨server, hserver, hservers, -, -⟩ := addEndpointRuntime_ok h
  rw [hservers]
  exact OrdDict.map_entries_insert hserver rfl

theorem keepsAll_of_createApp (hconfig : WellFormed config)
    (h : createApp host config = .ok app) : KeepsAll host config app := by
  simp only [createApp, RelayApp.init, bind_eq_ok, pure_eq_ok] at h
  obtain ⟨start, ⟨servers, hservers, rfl⟩, hsetup⟩ := h
  have hkept := foldlM_ok (I := fun done (app : RelayApp) =>
    app.servers.entries.map (fun p => (p.1, p.2.config)) =
        config.servers.map (fun s => (s.name, s)) ∧
      app.endpoints.entries.map (fun p => (p.1, p.2.config)) = done.map (fun e => (e.name, e)) ∧
      app.pollers = pollersOf host config.clients) ?_ hsetup
    ⟨servers_of_init hconfig.servers_nodup hservers, rfl, rfl⟩
  · exact ⟨hkept.1, hkept.2.1, hkept.2.2 ▸ pollers_of_setup hconfig.clients_nodup⟩
  · rintro done app e app' hdone ⟨happ, hendpoints, hpollers⟩ hok
    obtain ⟨server, -, -, hendpoints', hpollers'⟩ := addEndpointRuntime_ok hok
    refine ⟨(servers_addEndpointRuntime hok).trans happ, ?_, hpollers'.trans hpollers⟩
    rw [hendpoints']
    exact entries_insert_snoc hendpoints (name_notMem_of_nodup hdone hconfig.endpoints_nodup) rfl

/-- The application can be created exactly when every server has a power backend. -/
theorem createApp_isOk_iff (hconfig : WellFormed config) :
    (∃ app, createApp host config = .ok app) ↔ ∀ s ∈ config.servers, s.type ≠ .awsEc2 := by
  constructor
  · rintro ⟨app, h⟩
    simp only [createApp, RelayApp.init, bind_eq_ok, pure_eq_ok] at h
    obtain ⟨start, ⟨servers, hservers, rfl⟩, -⟩ := h
    refine foldlM_ok (I := fun done (_ : OrdDict String ServerRuntime) =>
      ∀ s ∈ done, s.type ≠ ServerType.awsEc2) ?_ hservers (fun _ h => absurd h List.not_mem_nil)
    intro done servers server servers' _ hkept hok s hs
    obtain ⟨_, hbackend, -⟩ := bind_eq_ok.mp hok
    rcases List.mem_append.mp hs with hs | hs
    · exact hkept s hs
    · exact List.mem_singleton.mp hs ▸ refuse_eq_ok.mp hbackend
  · intro htypes
    obtain ⟨servers, hservers, -⟩ := foldlM_total (f := addServerRuntime host)
      (I := fun _ => True) (s := .empty) (l := config.servers)
      (fun servers server hserver _ => ⟨_, bind_eq_ok.mpr
        ⟨(), refuse_eq_ok.mpr (htypes server hserver), rfl⟩, trivial⟩) trivial
    have hkeys := keys_of_entries (servers_of_init hconfig.servers_nodup hservers)
    -- every server an endpoint names is in the table from the start
    have hsetup : ∀ (app : RelayApp), ∀ e ∈ config.endpoints,
        (∀ s ∈ config.servers, s.name ∈ app.servers) →
        ∃ app', addEndpointRuntime app e = .ok app' ∧
          ∀ s ∈ config.servers, s.name ∈ app'.servers := by
      intro app e he hknown
      obtain ⟨s, hs, hname⟩ := hconfig.server e he
      obtain ⟨app', happ', hkeep⟩ := addEndpointRuntime_isOk (hname ▸ hknown s hs)
      exact ⟨app', happ', fun s' hs' => hkeep _ (hknown s' hs')⟩
    obtain ⟨app, happ, -⟩ := foldlM_total hsetup (s := RelayApp.mk config servers _
      (pollersOf host config.clients) .empty none)
      (fun s hs => OrdDict.mem_def.mpr (hkeys ▸ List.mem_map_of_mem hs))
    exact ⟨app, bind_eq_ok.mpr ⟨_, bind_eq_ok.mpr ⟨servers, hservers, rfl⟩, happ⟩⟩

/-! ### Routing -/

/-- The path `route` compares: with a leading slash. -/
def rooted (path : String) : String := if startsWith path "/" then path else "/" ++ path

/-- The loop body of `route`: the best endpoint so far, and the length of its prefix. -/
def better (path : String) (best : Option EndpointRuntime × Int) (endpoint : EndpointRuntime) :
    Option EndpointRuntime × Int :=
  let pathPrefix := endpoint.config.pathPrefix
  if startsWith path pathPrefix = true ∧ best.2 < pathPrefix.length then
    (some endpoint, pathPrefix.length)
  else best

/-- `route`. -/
def route (path : String) (endpoints : OrdDict String EndpointRuntime) : Option EndpointRuntime :=
  (endpoints.values.foldl (better (rooted path)) (none, -1)).1

/-- The endpoint has the longest of the configured prefixes of a path. -/
structure Longest (endpoints : List EndpointConfig) (path : String) (e : EndpointConfig) :
    Prop where
  mem : e ∈ endpoints
  matching : e.pathPrefix.toList <+: path.toList
  longest : ∀ e' ∈ endpoints, e'.pathPrefix.toList <+: path.toList →
    e'.pathPrefix.length ≤ e.pathPrefix.length

/-- The loop of `route` finds the first endpoint with the longest matching prefix. -/
theorem foldl_better (path : String) (endpoints : List EndpointRuntime) :
    endpoints.foldl (better path) (none, -1) =
      let best := (endpoints.filter fun e => startsWith path e.config.pathPrefix).argmax
        fun e => e.config.pathPrefix.length
      (best, best.elim (-1) fun e => (e.config.pathPrefix.length : Int)) := by
  induction endpoints using List.reverseRecOn with
  | nil => rfl
  | append_singleton endpoints e ih =>
      rw [List.foldl_append, ih, List.foldl_cons, List.foldl_nil, List.filter_append]
      cases hmatch : startsWith path e.config.pathPrefix with
      | false => simp [better, hmatch]
      | true =>
          simp only [hmatch, List.filter_cons_of_pos, List.filter_nil, List.argmax_concat]
          cases hbest : (endpoints.filter fun e => startsWith path e.config.pathPrefix).argmax
              fun e => e.config.pathPrefix.length with
          | none =>
              have hfirst : (-1 : Int) < e.config.pathPrefix.length := by omega
              simp [better, hmatch, hfirst]
          | some best =>
              by_cases hlt : best.config.pathPrefix.length < e.config.pathPrefix.length
              · simp [better, hmatch, hlt]
              · simp [better, hmatch, hlt]

theorem route_eq_argmax (path : String) (endpoints : OrdDict String EndpointRuntime) :
    route path endpoints =
      (endpoints.values.filter fun e => startsWith (rooted path) e.config.pathPrefix).argmax
        fun e => e.config.pathPrefix.length := by
  rw [route, foldl_better]

/-- Only one endpoint has the longest prefix: equally long prefixes of one path are equal. -/
theorem Longest.unique (hconfig : WellFormed config) {path : String} {e e' : EndpointConfig}
    (h : Longest config.endpoints path e) (h' : Longest config.endpoints path e') : e = e' := by
  have hlength : e.pathPrefix.toList.length = e'.pathPrefix.toList.length := by
    rw [String.length_toList, String.length_toList]
    exact Nat.le_antisymm (h'.longest e h.mem h.matching) (h.longest e' h'.mem h'.matching)
  have hprefixes : e.pathPrefix.toList = e'.pathPrefix.toList :=
    (List.prefix_of_prefix_length_le h.matching h'.matching hlength.le).eq_of_length hlength
  exact List.inj_on_of_nodup_map hconfig.prefixes_nodup h.mem h'.mem
    (String.toList_injective hprefixes)

section Table

variable {table : OrdDict String EndpointRuntime} {path : String} {e : EndpointConfig}

/-- What `route` returns has the longest prefix. -/
theorem longest_of_route (htable : (table.values.map EndpointRuntime.config).Perm config.endpoints)
    {endpoint : EndpointRuntime} (h : route path table = some endpoint) :
    endpoint ∈ table.values ∧ Longest config.endpoints (rooted path) endpoint.config := by
  rw [route_eq_argmax] at h
  obtain ⟨hmem, hmatch⟩ := List.mem_filter.mp (List.argmax_mem h)
  refine ⟨hmem, htable.subset (List.mem_map_of_mem hmem), startsWith_iff.mp hmatch, ?_⟩
  intro e' he' hmatch'
  obtain ⟨endpoint', hmem', rfl⟩ := List.mem_map.mp (htable.symm.subset he')
  exact List.le_of_mem_argmax (f := fun e : EndpointRuntime => e.config.pathPrefix.length)
    (List.mem_filter.mpr ⟨hmem', startsWith_iff.mpr hmatch'⟩) h

/-- `route` returns nothing exactly when no configured prefix is one of the path. -/
theorem route_eq_none_iff
    (htable : (table.values.map EndpointRuntime.config).Perm config.endpoints) :
    route path table = none ↔
      ∀ e ∈ config.endpoints, ¬ e.pathPrefix.toList <+: (rooted path).toList := by
  rw [route_eq_argmax, List.argmax_eq_none, List.filter_eq_nil_iff]
  constructor
  · intro hnone e he hmatch
    obtain ⟨endpoint, hmem, rfl⟩ := List.mem_map.mp (htable.symm.subset he)
    exact hnone endpoint hmem (startsWith_iff.mpr hmatch)
  · intro hnone endpoint hmem hmatch
    exact hnone endpoint.config (htable.subset (List.mem_map_of_mem hmem))
      (startsWith_iff.mp hmatch)

/-- `route` returns the endpoint that has the longest prefix. -/
theorem route_iff (hconfig : WellFormed config)
    (htable : (table.values.map EndpointRuntime.config).Perm config.endpoints) :
    (route path table).map EndpointRuntime.config = some e ↔
      Longest config.endpoints (rooted path) e := by
  constructor
  · intro h
    obtain ⟨endpoint, hroute, rfl⟩ := Option.map_eq_some_iff.mp h
    exact (longest_of_route htable hroute).2
  · intro hlongest
    cases hroute : route path table with
    | none => exact absurd hlongest.matching ((route_eq_none_iff htable).mp hroute e hlongest.mem)
    | some endpoint =>
        exact congrArg some ((longest_of_route htable hroute).2.unique hconfig hlongest)

end Table

/-! ### Every order of the endpoints -/

/-- The rules do not depend on the order of the endpoints. -/
theorem WellFormed.perm (h : WellFormed config) {endpoints : List EndpointConfig}
    (hperm : endpoints.Perm config.endpoints) :
    WellFormed { config with endpoints := endpoints } where
  servers_nodup := h.servers_nodup
  endpoints_nodup := (hperm.map _).nodup_iff.mpr h.endpoints_nodup
  clients_nodup := h.clients_nodup
  server := fun e he => h.server e (hperm.subset he)
  rooted := fun e he => h.rooted e (hperm.subset he)
  prefixes_nodup := (hperm.map _).nodup_iff.mpr h.prefixes_nodup
  catchAll_le := by
    rw [hperm.countP_eq]
    exact h.catchAll_le
  concurrency := fun e he => h.concurrency e (hperm.subset he)

theorem longest_perm {endpoints endpoints' : List EndpointConfig} (h : endpoints.Perm endpoints')
    {path : String} {e : EndpointConfig} :
    Longest endpoints path e ↔ Longest endpoints' path e := by
  constructor
  · rintro ⟨hmem, hmatch, hlongest⟩
    exact ⟨h.subset hmem, hmatch, fun e' he' => hlongest e' (h.symm.subset he')⟩
  · rintro ⟨hmem, hmatch, hlongest⟩
    exact ⟨h.symm.subset hmem, hmatch, fun e' he' => hlongest e' (h.subset he')⟩

theorem KeepsAll.configs (h : KeepsAll host config app) :
    app.endpoints.values.map EndpointRuntime.config = config.endpoints := by
  have hvalues := congrArg (List.map Prod.snd) h.endpoints
  simpa [OrdDict.values, Function.comp_def] using hvalues

/-- In a table with the same endpoints in another order, `route` finds the same one. -/
theorem route_perm (hconfig : WellFormed config) (happ : KeepsAll host config app)
    {table : OrdDict String EndpointRuntime} (htable : table.entries.Perm app.endpoints.entries)
    (path : String) : route path table = route path app.endpoints := by
  have hvalues : table.values.Perm app.endpoints.values := htable.map _
  have hconfigs : (table.values.map EndpointRuntime.config).Perm config.endpoints :=
    happ.configs ▸ hvalues.map _
  have hconfigs' : (app.endpoints.values.map EndpointRuntime.config).Perm config.endpoints :=
    happ.configs ▸ .refl _
  have hnames : (app.endpoints.values.map fun endpoint => endpoint.config.name).Nodup := by
    have hnodup := hconfig.endpoints_nodup
    rw [← happ.configs, List.map_map] at hnodup
    exact hnodup
  cases hroute : route path table with
  | none =>
      rw [route_eq_none_iff hconfigs, ← route_eq_none_iff hconfigs'] at hroute
      exact hroute.symm
  | some endpoint =>
      obtain ⟨hmem, hlongest⟩ := longest_of_route hconfigs hroute
      have hconfig' := (route_iff hconfig hconfigs').mpr hlongest
      obtain ⟨endpoint', hroute', heq⟩ := Option.map_eq_some_iff.mp hconfig'
      have hsame := List.inj_on_of_nodup_map hnames (longest_of_route hconfigs' hroute').1
        (hvalues.subset hmem) (congrArg EndpointConfig.name heq)
      rw [hroute', hsame]

/-- **An accepted topology is well formed and routes in one way.** The application for it can be
created unless a server has no power backend, and its tables drop nothing. Whatever the order of
the endpoints, `route` returns the one with the longest configured prefix of the path, and nothing
exactly when no configured prefix is one of the path. -/
theorem topology_of_build {data : Mapping} (h : build host data = .ok config) :
    WellFormed config ∧
    ((∃ app, createApp host config = .ok app) ↔ ∀ s ∈ config.servers, s.type ≠ .awsEc2) ∧
    ∀ app, createApp host config = .ok app →
      KeepsAll host config app ∧
      (∀ table : OrdDict String EndpointRuntime, table.entries.Perm app.endpoints.entries →
        ∀ path, route path table = route path app.endpoints) ∧
      (∀ endpoints app', endpoints.Perm config.endpoints →
        createApp host { config with endpoints := endpoints } = .ok app' →
        ∀ path, (route path app'.endpoints).map EndpointRuntime.config =
          (route path app.endpoints).map EndpointRuntime.config) ∧
      ∀ path,
        (startsWith path "/" = true → rooted path = path) ∧
        (∀ e, (route path app.endpoints).map EndpointRuntime.config = some e ↔
          Longest config.endpoints (rooted path) e) ∧
        (route path app.endpoints = none ↔
          ∀ e ∈ config.endpoints, ¬ e.pathPrefix.toList <+: (rooted path).toList) := by
  have hconfig := wellFormed_of_build h
  refine ⟨hconfig, createApp_isOk_iff hconfig, fun app hcreate => ?_⟩
  have happ := keepsAll_of_createApp hconfig hcreate
  have hconfigs : (app.endpoints.values.map EndpointRuntime.config).Perm config.endpoints :=
    happ.configs ▸ .refl _
  refine ⟨happ, fun table htable path => route_perm hconfig happ htable path, ?_, fun path => ?_⟩
  · intro endpoints app' hperm hcreate' path
    have hconfig' := hconfig.perm hperm
    have happ' := keepsAll_of_createApp hconfig' hcreate'
    refine Option.ext fun e => ?_
    rw [route_iff hconfig hconfigs, route_iff hconfig' (happ'.configs ▸ .refl _)]
    exact longest_perm hperm
  · exact ⟨fun hslash => if_pos hslash, fun e => route_iff hconfig hconfigs,
      route_eq_none_iff hconfigs⟩

/-- A machine without files, whose Python shows values by their types. -/
def bareHost : Host where
  repr := typeName
  floatText := fun _ => "float"
  float := fun n => some (.finite n)
  lower := lower
  croniter := fun _ => .ok ()
  expanduser := some
  pathExists := fun _ => false
  isDir := fun _ => false

/-- One server with two endpoints, the path prefix of one beginning with that of the other. -/
def nestedEndpoints : Mapping :=
  let text (key value : String) : RawKey × Raw := (.str key, Raw.ofString value)
  [(.str "servers", .list [.mapping [text "name" "devbox", text "type" "noop",
      text "service_url" "http://127.0.0.1:8100/"]]),
    (.str "endpoints", .list [
      .mapping [text "name" "llm", text "server" "devbox", text "path_prefix" "/v1"],
      .mapping [text "name" "messages", text "server" "devbox", text "path_prefix" "/v1/messages",
        (.str "catch_all", .other (.bool true))]])]

theorem topology_of_build_nestedEndpoints :
    ∃ config app, build bareHost nestedEndpoints = .ok config ∧
      createApp bareHost config = .ok app ∧ KeepsAll bareHost config app ∧
      config.endpoints.map EndpointConfig.pathPrefix = ["/v1", "/v1/messages"] := by
  have hview : (build bareHost nestedEndpoints).toOption.map (fun config =>
      (decide (∀ s ∈ config.servers, s.type ≠ .awsEc2),
        config.endpoints.map EndpointConfig.pathPrefix)) =
      some (true, ["/v1", "/v1/messages"]) := by
    decide +kernel
  obtain ⟨config, hconfig, hview⟩ := Option.map_eq_some_iff.mp hview
  obtain ⟨htypes, hprefixes⟩ := Prod.mk.inj hview
  have hbuild : build bareHost nestedEndpoints = .ok config := by
    cases hok : build bareHost nestedEndpoints <;> simp_all [Except.toOption]
  obtain ⟨-, hcreate, htables⟩ := topology_of_build hbuild
  obtain ⟨app, happ⟩ := hcreate.mpr (of_decide_eq_true htypes)
  exact ⟨config, app, hbuild, happ, (htables app happ).1, hprefixes⟩

end Relay.Topology
