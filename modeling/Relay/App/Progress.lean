import Relay.App.Awaiting

/-!
# Relay.App.Progress

**No request is refused, and no handler gets stuck.** The app takes a request, a WebSocket or an
order of the monitor at any time, and a handler that is suspended goes on with whatever comes of
what it awaits: the server and the endpoint it looks up are always there, and the call it awaits is
under way (`no_handler_stuck`).
-/

namespace Relay

open Runs Checks

/-! ### The tables -/

namespace Topology

/-- The server of an endpoint has it in its list. -/
def EndpointRuntime.IsListed (servers : OrdDict String ServerRuntime) (e : EndpointRuntime) :
    Prop :=
  ∃ server, servers.get? e.config.server = some server ∧ e.config.name ∈ server.endpoints

/-- Every endpoint to which a path can lead is in the list of its server. -/
structure RelayApp.Wired (tables : RelayApp) : Prop where
  endpoint : ∀ e ∈ tables.endpoints.values, e.IsListed tables.servers
  catchAll : ∀ e, tables.catchAll = some e → e.IsListed tables.servers

theorem RelayApp.Wired.add {tables tables' : RelayApp} {config : EndpointConfig}
    (h : tables.Wired) (hadd : addEndpointRuntime tables config = .ok tables') :
    tables'.Wired := by
  unfold addEndpointRuntime at hadd
  split at hadd
  · cases hadd
  · rename_i server hserver
    obtain rfl := Except.ok.inj hadd
    -- the lists of the servers only grow
    have hgrows : ∀ e : EndpointRuntime, e.IsListed tables.servers →
        e.IsListed (tables.servers.insert config.server
          { server with endpoints := server.endpoints ++ [config.name] }) := by
      rintro e ⟨server', hserver', hmem⟩
      by_cases hk : e.config.server = config.server
      · rw [hk] at hserver'
        obtain rfl : server = server' := Option.some.inj (hserver.symm.trans hserver')
        exact ⟨_, by rw [hk, OrdDict.get?_insert_self], List.mem_append_left _ hmem⟩
      · exact ⟨server', by rw [OrdDict.get?_insert_of_ne _ _ hk, hserver'], hmem⟩
    have hnew : (EndpointRuntime.mk config server.config).IsListed
        (tables.servers.insert config.server
          { server with endpoints := server.endpoints ++ [config.name] }) :=
      ⟨_, OrdDict.get?_insert_self _ _ _, List.mem_append_right _ List.mem_cons_self⟩
    constructor
    · intro e he
      obtain ⟨k, hk⟩ := OrdDict.mem_values_iff.mp he
      rw [OrdDict.get?_insert] at hk
      split at hk
      · obtain rfl := Option.some.inj hk
        exact hnew
      · exact hgrows e (h.endpoint e (OrdDict.mem_values_iff.mpr ⟨k, hk⟩))
    · intro e he
      dsimp only at he
      split at he
      · obtain rfl := Option.some.inj he
        exact hnew
      · exact hgrows e (h.catchAll e he)

theorem wired_of_createApp {host : Host} {config : RelayConfig} {tables : RelayApp}
    (h : createApp host config = .ok tables) : tables.Wired := by
  simp only [createApp, RelayApp.init, bind_eq_ok, pure_eq_ok] at h
  obtain ⟨start, ⟨servers, -, rfl⟩, hsetup⟩ := h
  refine foldlM_ok (I := fun _ tables => RelayApp.Wired tables) ?_ hsetup ⟨?_, ?_⟩
  · exact fun _ _ _ _ _ hwired hadd => hwired.add hadd
  · exact fun e he => absurd he List.not_mem_nil
  · exact fun e he => absurd he (by simp)

end Topology

namespace App

variable {platform : Platform} {A A' : App} {asked : Asked} {e : Topology.EndpointRuntime}
  {kind : RequestKind}

/-! ### What the handlers look up -/

/-- Every server has a position, and its endpoints have theirs. -/
def Furnished (A : App) : Prop :=
  ∀ name server, A.tables.servers.get? name = some server →
    ∃ S, A.systems[A.tables.servers.keys.idxOf name]? = some S ∧
      S.endpoints.length = server.endpoints.length

theorem length_endpoints_exec {S S' : System} {ops : List System.Op}
    (h : exec System.step S ops = some S') : S'.endpoints.length = S.endpoints.length := by
  induction ops generalizing S with
  | nil => rw [Option.some.inj h]
  | cons op ops ih =>
      obtain ⟨S₁, hstep, hrest⟩ := Option.bind_eq_some_iff.mp h
      rw [ih hrest]
      rcases System.step_cases hstep with ⟨sop, -, -, hendpoints⟩ | ⟨eop, -, hendpoints, -⟩
      · rw [hendpoints]
        cases sop <;> simp [System.endpointsAfter]
      · obtain ⟨_, _, -, -, heq⟩ := stepAt_eq_some hendpoints
        rw [heq, List.length_set]

theorem Furnished.of_exec {labels : List Label} (h : A.Furnished)
    (hsystems : exec (stepAt System.step) A.systems labels = some A'.systems)
    (htables : A'.tables = A.tables) : A'.Furnished := by
  intro name server hserver
  rw [htables] at hserver ⊢
  obtain ⟨S, hS, hlength⟩ := h name server hserver
  obtain ⟨S', hS', hexec⟩ := exec_stepAt_component hsystems hS
  exact ⟨S', hS', (length_endpoints_exec hexec).trans hlength⟩

theorem furnished_start {tables : Topology.RelayApp} {rows : String → ServerRow} {degraded : Bool}
    {now : Time} (h : App.start platform tables rows degraded now = some A) : A.Furnished := by
  obtain ⟨hsystems, htables, -⟩ := start_eq h
  intro name server hserver
  rw [htables] at hserver ⊢
  obtain ⟨S, hS, hstart⟩ := exists_getElem?_of_mapM hsystems (OrdDict.getElem?_values_idxOf hserver)
  refine ⟨S, hS, ?_⟩
  obtain ⟨config, -, hrest⟩ := Option.bind_eq_some_iff.mp hstart
  obtain ⟨cfgs, hcfgs, heq⟩ := Option.bind_eq_some_iff.mp hrest
  rw [← Option.some.inj heq, List.length_map, length_of_mapM hcfgs]

/-- An endpoint to which a path leads is where the handlers look it up. -/
theorem Furnished.exists_endpointAt (h : A.Furnished) (he : e.IsListed A.tables.servers) :
    ∃ E, A.endpointAt (place A.tables e) = some E := by
  obtain ⟨server, hserver, hmem⟩ := he
  obtain ⟨S, hS, hlength⟩ := h _ _ hserver
  have hlt : server.endpoints.idxOf e.config.name < S.endpoints.length := by
    rw [hlength]
    exact List.idxOf_lt_length_of_mem hmem
  refine ⟨S.endpoints[server.endpoints.idxOf e.config.name], ?_⟩
  simp only [endpointAt, place, hserver, Option.elim_some]
  rw [hS, Option.bind_some, List.getElem?_eq_getElem hlt]

/-! ### What the handlers can do -/

theorem act_isSome {n : Nat} {op : System.Op} {S : System} (hS : A.systems[n]? = some S)
    (hstep : ∃ S', S.step op = some S') : ∃ A', A.act n op = some A' := by
  obtain ⟨S', hS'⟩ := hstep
  refine ⟨{ A with systems := A.systems.set n S' }, ?_⟩
  simp [act, stepAt, hS, hS']

theorem callServer_isSome {n : Nat} {S : System} (hS : A.systems[n]? = some S)
    (hon : A.OnTime) (call : Call) : ∃ result, A.callServer n call = some result := by
  have hstep : ∃ S', S.step (.server (.call call A.clock)) = some S' := by
    obtain ⟨server, hserver⟩ := ServerRuntime.call_isSome S.hasActivity call
      (hon S (List.mem_of_getElem? hS))
    exact ⟨_, Option.map_eq_some_iff.mpr ⟨server, hserver, rfl⟩⟩
  obtain ⟨A', hact⟩ := act_isSome hS hstep
  exact ⟨_, Option.bind_eq_some_iff.mpr ⟨S, hS, Option.map_eq_some_iff.mpr ⟨A', hact, rfl⟩⟩⟩

theorem endpoint_isSome {p : Place} {E : Endpoint} (hE : A.endpointAt p = some E)
    (op : Endpoint.Op) (hstep : ∃ E', E.step op = some E') :
    ∃ A', A.act p.server (.endpoint (p.endpoint, op)) = some A' := by
  obtain ⟨S, hS, hE⟩ := Option.bind_eq_some_iff.mp hE
  obtain ⟨E', hE'⟩ := hstep
  refine act_isSome hS ⟨{ S with endpoints := S.endpoints.set p.endpoint E' }, ?_⟩
  simp [System.step, stepAt, hE, hE']

theorem admitRequest_isSome (platform : Platform) (h : A.Furnished)
    (he : e.IsListed A.tables.servers) (kind : RequestKind) (inbound : Inbound)
    (body : List UInt8) : ∃ result, A.admitRequest platform e kind inbound body = some result := by
  obtain ⟨E, hE⟩ := h.exists_endpointAt he
  obtain ⟨A', hact⟩ := endpoint_isSome hE
    (.arrive (admission platform A.tables e kind inbound body)) ⟨_, rfl⟩
  exact ⟨_, Option.bind_eq_some_iff.mpr ⟨E, hE, Option.map_eq_some_iff.mpr ⟨A', hact, rfl⟩⟩⟩

theorem routed_isSome (platform : Platform) (asked : Asked) (kind : RequestKind)
    (h : A.Furnished) (he : e.IsListed A.tables.servers) (c : Nat) :
    ∃ result, A.routed platform asked e kind c = some result := by
  unfold routed
  split
  · split
    · exact admitRequest_isSome platform h he kind _ _
    · exact ⟨_, rfl⟩
  · exact ⟨_, rfl⟩

theorem routeTo_isSome (h : A.Furnished) (hon : A.OnTime) (he : e.IsListed A.tables.servers) :
    ∃ A', A.routeTo platform asked e kind = some A' := by
  obtain ⟨E, hE⟩ := h.exists_endpointAt he
  obtain ⟨S, hS, -⟩ := Option.bind_eq_some_iff.mp hE
  obtain ⟨⟨c, A₁⟩, hcalled⟩ := callServer_isSome hS hon .onRoutedTraffic
  have hacts := callServer_acts hcalled
  obtain ⟨result, hrouted⟩ := routed_isSome platform asked kind
    (h.of_exec hacts.systems hacts.tables) (hacts.tables ▸ he) c
  exact ⟨_, Option.bind_eq_some_iff.mpr ⟨_, hcalled, Option.map_eq_some_iff.mpr ⟨_, hrouted, rfl⟩⟩⟩

theorem orderServer_isSome {name : String} (h : A.Furnished) (hon : A.OnTime)
    (hname : name ∈ A.tables.servers) (order : Order) :
    ∃ A', A.orderServer asked name order = some A' := by
  obtain ⟨server, hserver⟩ := OrdDict.mem_iff_get?.mp hname
  obtain ⟨S, hS, -⟩ := h name server hserver
  obtain ⟨result, hcalled⟩ := callServer_isSome hS hon order.call
  exact ⟨_, Option.map_eq_some_iff.mpr ⟨result, hcalled, rfl⟩⟩

/-- A path leads to an endpoint that its server lists. -/
theorem isListed_of_target {tables : Topology.RelayApp} (h : tables.Wired) {path : String}
    {passthrough : Bool} (htarget : target tables path = .endpoint e passthrough) :
    e.IsListed tables.servers := by
  unfold target at htarget
  split at htarget
  · rename_i e' hroute
    obtain ⟨rfl, -⟩ := Target.endpoint.inj htarget
    rw [Topology.route_eq_argmax] at hroute
    exact h.endpoint e' (List.mem_of_mem_filter (List.argmax_mem hroute))
  · split at htarget
    · exact absurd htarget (by simp)
    · split at htarget
      · exact absurd htarget (by simp)
      · rename_i e' hcatch
        obtain ⟨rfl, -⟩ := Target.endpoint.inj htarget
        exact h.catchAll e' hcatch

/-- What clients and the monitor ask, at readings of the clock that do not go back. -/
def Op.IsAsked (clock : Time) : Op → Prop
  | .http _ recordAt now => clock ≤ recordAt ∧ recordAt ≤ now
  | .webSocket _ now | .release _ now | .shutdown _ now | .power _ now => clock ≤ now
  | .timeout _ => True
  | _ => False

theorem proxy_isSome (hwired : A.tables.Wired) (h : A.Furnished) {now : Time}
    (hon : (A.at' now).OnTime) (inbound : Inbound) (recordAt : Time) :
    ∃ A', A.proxy platform inbound recordAt now = some A' := by
  unfold proxy
  dsimp only
  split
  · exact ⟨_, rfl⟩
  · exact ⟨_, rfl⟩
  · rename_i e htarget
    exact routeTo_isSome (A := (A.recordUnknown inbound recordAt e).at' now) h hon
      (isListed_of_target hwired htarget)
  · rename_i e htarget
    exact routeTo_isSome (A := A.at' now) h hon (isListed_of_target hwired htarget)

theorem wsProxy_isSome (hwired : A.tables.Wired) (h : A.Furnished) {now : Time}
    (hon : (A.at' now).OnTime) (inbound : Inbound) :
    ∃ A', A.wsProxy platform inbound now = some A' := by
  unfold wsProxy
  dsimp only
  split
  · exact ⟨_, rfl⟩
  · exact ⟨_, rfl⟩
  · rename_i e htarget
    exact routeTo_isSome (A := A.at' now) h hon (isListed_of_target hwired htarget)
  · rename_i e htarget
    exact routeTo_isSome (A := A.at' now) h hon (isListed_of_target hwired htarget)

theorem monitorRelease_isSome (hwired : A.tables.Wired) (h : A.Furnished) (body : Option Json)
    (now : Time) : ∃ A', A.monitorRelease platform body now = some A' := by
  unfold monitorRelease
  dsimp only
  split
  · exact ⟨_, rfl⟩
  · split
    · exact ⟨_, rfl⟩
    · rename_i e hfind
      have he := hwired.endpoint e (List.mem_of_find?_eq_some hfind)
      obtain ⟨E, hE⟩ := h.exists_endpointAt he
      obtain ⟨A', hact⟩ := endpoint_isSome hE (.manage (.releaseSession _ _ now)) ⟨_, rfl⟩
      exact ⟨_, Option.map_eq_some_iff.mpr ⟨A', hact, rfl⟩⟩

theorem monitorShutdown_isSome (h : A.Furnished) (hon : A.OnTime) (body : Option Json) :
    ∃ A', A.monitorShutdown platform body = some A' := by
  unfold monitorShutdown
  split
  · exact ⟨_, rfl⟩
  · rename_i hread
    exact orderServer_isSome h hon (readShutdown_ok hread) _

theorem monitorPower_isSome (h : A.Furnished) (hon : A.OnTime) (body : Option Json) :
    ∃ A', A.monitorPower platform body = some A' := by
  unfold monitorPower
  split
  · exact ⟨_, rfl⟩
  · rename_i hread
    exact orderServer_isSome h hon (readPower_ok hread) _

/-- Everything that is asked is taken. -/
theorem asked_isSome (hwired : A.tables.Wired) (h : A.Furnished) (hon : A.OnTime) {op : Op}
    (hop : op.IsAsked A.clock) : ∃ A', A.step platform op = some A' := by
  have hlater : ∀ {now : Time}, A.clock ≤ now → (A.at' now).OnTime :=
    fun hnow S hS => (hon S hS).trans hnow
  cases op with
  | http request recordAt now =>
      have hasked : A.clock ≤ recordAt ∧ recordAt ≤ now := hop
      simp only [step]
      rw [if_pos hasked]
      exact proxy_isSome hwired h (hlater (hasked.1.trans hasked.2)) request recordAt
  | webSocket request now =>
      have hasked : A.clock ≤ now := hop
      simp only [step]
      rw [if_pos hasked]
      exact wsProxy_isSome hwired h (hlater hasked) request
  | release body now =>
      have hasked : A.clock ≤ now := hop
      simp only [step]
      rw [if_pos hasked]
      exact monitorRelease_isSome (A := A.at' now) hwired h body now
  | shutdown body now =>
      have hasked : A.clock ≤ now := hop
      simp only [step]
      rw [if_pos hasked]
      exact monitorShutdown_isSome (A := A.at' now) h (hlater hasked) body
  | power body now =>
      have hasked : A.clock ≤ now := hop
      simp only [step]
      rw [if_pos hasked]
      exact monitorPower_isSome (A := A.at' now) h (hlater hasked) body
  | timeout body => exact ⟨_, rfl⟩
  | resume i outcome body => exact hop.elim
  | server n op => exact hop.elim
  | endpoint p op => exact hop.elim
  | prune now => exact hop.elim

/-- The endpoint to which a request leads is one that its server lists. -/
theorem isListed_of_destination {tables : Topology.RelayApp} (h : tables.Wired)
    (hdest : asked.destination? tables = some (e, kind)) : e.IsListed tables.servers := by
  have hfound : ∃ path passthrough, target tables path = .endpoint e passthrough := by
    cases asked with
    | http inbound recordAt =>
        simp only [Asked.destination?] at hdest
        split at hdest
        · rename_i e' passthrough htarget
          obtain ⟨rfl, -⟩ := Prod.mk.inj (Option.some.inj hdest)
          exact ⟨_, _, htarget⟩
        · exact absurd hdest (by simp)
        · exact absurd hdest (by simp)
    | webSocket inbound =>
        simp only [Asked.destination?] at hdest
        split at hdest
        · rename_i e' passthrough htarget
          obtain ⟨rfl, -⟩ := Prod.mk.inj (Option.some.inj hdest)
          exact ⟨_, _, htarget⟩
        · exact absurd hdest (by simp)
        · exact absurd hdest (by simp)
    | release body => exact absurd hdest (by simp [Asked.destination?])
    | shutdown body => exact absurd hdest (by simp [Asked.destination?])
    | power body => exact absurd hdest (by simp [Asked.destination?])
    | timeout body => exact absurd hdest (by simp [Asked.destination?])
  obtain ⟨path, passthrough, htarget⟩ := hfound
  exact isListed_of_target h htarget

/-- The call a handler awaits can go on. -/
theorem awaited_isSome (hgoing : Going A) {i : Nat} {handler : Handler}
    (hi : A.handlers[i]? = some handler) {outcome : Outcome} (hnow : A.clock ≤ outcome.now)
    {n c : Nat} (hawaited : handler.phase.awaited? A.tables = some (n, c)) :
    ∃ A', (A.at' outcome.now).act n (.server (.resume c outcome)) = some A' := by
  have hawaitedBy : A.awaitedBy i = some (n, c) := by
    rw [awaitedBy, hi, Option.bind_some, hawaited]
  obtain ⟨S, hS, hcall⟩ := hgoing.underWay i (n, c) hawaitedBy
  have hclock := (hgoing.onTime S (List.mem_of_getElem? hS)).trans hnow
  obtain ⟨server, hserver⟩ := ServerRuntime.resume_isSome S.hasActivity hcall hclock
  exact act_isSome (A := A.at' outcome.now) hS
    ⟨_, Option.map_eq_some_iff.mpr ⟨server, hserver, rfl⟩⟩

/-- A handler that is suspended can go on, with any outcome of what it awaits. -/
theorem resume_isSome (hwired : A.tables.Wired) (h : A.Furnished) (hgoing : Going A)
    {i : Nat} {handler : Handler} (hi : A.handlers[i]? = some handler)
    (hright : handler.phase.Right platform A.tables handler.asked)
    (hsuspended : handler.phase.isSuspended = true) {outcome : Outcome}
    (hnow : A.clock ≤ outcome.now) (body : Option (List UInt8)) :
    ∃ A', A.step platform (.resume i outcome body) = some A' := by
  have hlisted : ∀ {e kind}, handler.asked.destination? A.tables = some (e, kind) →
      e.IsListed A.tables.servers := fun hdest => isListed_of_destination hwired hdest
  have hact : ∀ n c, handler.phase.awaited? A.tables = some (n, c) →
      ∃ A', (A.at' outcome.now).act n (.server (.resume c outcome)) = some A' :=
    fun _ _ hawaited => awaited_isSome hgoing hi hnow hawaited
  have hgoes : ∃ A', (A.at' outcome.now).resume platform i handler outcome body = some A' := by
    unfold resume
    cases hphase : handler.phase with
    | adopting e kind c =>
        rw [hphase] at hright hact
        obtain ⟨A₁, hA₁⟩ := hact _ _ rfl
        have hacts := Acts.of_act hA₁ rfl
        dsimp only
        rw [show (place (A.at' outcome.now).tables e).server = (place A.tables e).server from rfl,
          hA₁, Option.bind_some]
        split
        · exact ⟨_, rfl⟩
        · have hfurnished : A₁.Furnished :=
            Furnished.of_exec (A := A.at' outcome.now) h hacts.systems hacts.tables
          have htables : A₁.tables = A.tables := hacts.tables
          obtain ⟨result, hrouted⟩ := routed_isSome platform handler.asked kind
            hfurnished (htables ▸ hlisted hright) c
          exact ⟨_, Option.map_eq_some_iff.mpr ⟨result, hrouted, rfl⟩⟩
    | reading e kind =>
        rw [hphase] at hright
        dsimp only
        split
        · obtain ⟨result, hgiven⟩ := admitRequest_isSome (A := A.at' outcome.now) platform h
            (hlisted hright) kind _ _
          exact ⟨_, Option.map_eq_some_iff.mpr ⟨result, hgiven, rfl⟩⟩
        · exact ⟨_, rfl⟩
    | ordering n c order ok =>
        rw [hphase] at hact
        obtain ⟨A₁, hA₁⟩ := hact n c rfl
        exact ⟨_, Option.map_eq_some_iff.mpr ⟨A₁, hA₁, rfl⟩⟩
    | admitted e task request body =>
        rw [hphase] at hsuspended
        exact absurd hsuspended Bool.false_ne_true
    | answered answer =>
        rw [hphase] at hsuspended
        exact absurd hsuspended Bool.false_ne_true
  obtain ⟨A', hA'⟩ := hgoes
  refine ⟨A', ?_⟩
  simp only [step]
  rw [if_pos hnow, hi, Option.bind_some, hA']

/-- What every state of a run has. -/
theorem going_of_run {tables : Topology.RelayApp} {rows : String → ServerRow} {degraded : Bool}
    {now : Time} {A₀ : App} {ops : List Op}
    (hstart : App.start platform tables rows degraded now = some A₀)
    (hrun : Run (Steps (App.step platform) Any) A₀ ops A) :
    A.tables = tables ∧ A.Furnished ∧ A.AllRight platform ∧ Going A := by
  obtain ⟨hsystems, htables, hempty, -, -⟩ := start_eq hstart
  obtain ⟨hright, labels, hdid⟩ := did_of_run hempty hrun
  refine ⟨hdid.tables.trans htables, (furnished_start hstart).of_exec hdid.systems hdid.tables,
    hright, ?_⟩
  have hnone : ∀ i, A₀.awaitedBy i = none := fun i => by simp [awaitedBy, hempty]
  have hgoing : Going A₀ := by
    refine ⟨fun S hS => ?_, fun i call hi => ?_, fun i j call hi => ?_⟩
    · obtain ⟨server, -, hserver⟩ := exists_of_mem_mapM hsystems hS
      obtain ⟨systems, -, heq⟩ := Option.bind_eq_some_iff.mp hstart
      obtain ⟨config, -, hrest⟩ := Option.bind_eq_some_iff.mp hserver
      obtain ⟨cfgs, -, heq'⟩ := Option.bind_eq_some_iff.mp hrest
      rw [← Option.some.inj heq, ← Option.some.inj heq']
      exact le_refl now
    · exact absurd hi (by simp [hnone])
    · exact absurd hi (by simp [hnone])
  exact hrun.invariant (fun A l A' h hstep => h.step hstep.1) hgoing

/-- **No request is refused, and no handler gets stuck.** In every run of an app that was created
from a configuration: whatever clients and the monitor ask, the app takes; a handler that awaits a
call of a server or the body goes on with whatever comes of it; and the call it awaits is under way
and belongs to no other handler. -/
theorem no_handler_stuck {host : Topology.Host} {config : Topology.RelayConfig}
    {tables : Topology.RelayApp} (hcreate : Topology.createApp host config = .ok tables)
    {rows : String → ServerRow} {degraded : Bool} {now : Time} {A₀ : App} {ops : List Op}
    (hstart : App.start platform tables rows degraded now = some A₀)
    (hrun : Run (Steps (App.step platform) Any) A₀ ops A) :
    (∀ op : Op, op.IsAsked A.clock → ∃ A', A.step platform op = some A') ∧
    ∀ (i : Nat) (handler : Handler), A.handlers[i]? = some handler →
      handler.phase.isSuspended = true →
      (∀ (outcome : Outcome) (body : Option (List UInt8)), A.clock ≤ outcome.now →
        ∃ A', A.step platform (.resume i outcome body) = some A') ∧
      ∀ call, handler.phase.awaited? tables = some call → A.IsUnderWay call ∧
        ∀ (j : Nat) (other : Handler), A.handlers[j]? = some other →
          other.phase.awaited? tables = some call → j = i := by
  obtain ⟨htables, hfurnished, hright, hgoing⟩ := going_of_run hstart hrun
  have hwired : A.tables.Wired := htables ▸ Topology.wired_of_createApp hcreate
  constructor
  · exact fun op hop => asked_isSome hwired hfurnished hgoing.onTime hop
  · intro i handler hi hsuspended
    refine ⟨fun outcome body hnow => resume_isSome hwired hfurnished hgoing hi
      (hright handler (List.mem_of_getElem? hi)) hsuspended hnow body, fun call hcall => ?_⟩
    have hawaitedBy : ∀ {j : Nat} {other : Handler}, A.handlers[j]? = some other →
        other.phase.awaited? tables = some call → A.awaitedBy j = some call := by
      intro j other hj hother
      rw [awaitedBy, hj, Option.bind_some, htables, hother]
    exact ⟨hgoing.underWay i call (hawaitedBy hi hcall), fun j other hj hother =>
      hgoing.distinct j i call (hawaitedBy hj hother) (hawaitedBy hi hcall)⟩

theorem no_handler_stuck_threeRequests :
    ∃ A A' : App, A.callsFor barePlatform 0 = [.onRoutedTraffic, .onRoutedTraffic, .powerOff] ∧
      A.step barePlatform (.http (getOf "v1/models") A.clock A.clock) = some A' := by
  obtain ⟨A₀, A, hstart, hrun, hview⟩ := run_threeRequests
  simp only [Prod.mk.injEq] at hview
  have hcreate : Topology.createApp Topology.bareHost oneEndpoint.config = .ok oneEndpoint := rfl
  obtain ⟨htaken, -⟩ := no_handler_stuck hcreate hstart hrun
  obtain ⟨A', hA'⟩ := htaken (.http (getOf "v1/models") A.clock A.clock) ⟨le_refl _, le_refl _⟩
  exact ⟨A, A', hview.2.1, hA'⟩

end App

end Relay
