import Relay.Queue.Session

/-!
# Relay.Server.Basic

`ServerRuntime` (`relay/servers.py`): the power state machine, ownership and the shutdown
engine, as coroutines that run from one await to the next.

A server keeps a list of calls, and a call is in a `CallPhase` that names the await it is
suspended at: a call of the power backend, or a write of the store. A write is performed
by a step of its own, `commit`, before the await returns or not at all, so that a restart
may fall between the two. `active` is what `has_activity` answers at the step.

`log` is a history variable: what happened to the power of the server, and under which
circumstances a power-off was issued. No step reads it.
-/

namespace Relay

/-! ### Records -/

/-- `PowerState` (`relay/power/base.py`). -/
inductive PowerState
  | on
  | off
  | unknown
  deriving DecidableEq, Repr

/-- `_TRANSIENT_ON` and `_TRANSIENT_OFF`. -/
inductive Transient
  | poweringOn
  | poweringOff
  deriving DecidableEq, Repr

/-- A `cycle_id`; fresh ones are numbered. -/
abbrev CycleId := Nat

/-- The settings of a server that its runtime reads. A schedule is known by
`last_fire_before`, which is a function of the wall clock. -/
structure ServerConfig where
  idleTimeout : Time
  shutdownEnabled : Bool
  adoptOnTraffic : Bool
  lastFireBefore : Option (Time → Time)
  powerOnCooldown : Time

/-- `ServerRuntimeRow` (`relay/store.py`); a `power_state` that is no `PowerState` is
`none`. -/
structure ServerRow where
  powerState : Option PowerState := some .unknown
  owned : Bool := false
  shutdownOverride : Option Bool := none
  cycleId : Option CycleId := none
  deriving DecidableEq, Repr

/-- The values of a `set_server_runtime`; `none` leaves a column alone. -/
structure RowUpdate where
  powerState : Option PowerState := none
  owned : Option Bool := none
  shutdownOverride : Option (Option Bool) := none
  cycleId : Option (Option CycleId) := none
  deriving DecidableEq, Repr

/-- The row after the update. -/
def RowUpdate.apply (u : RowUpdate) (row : ServerRow) : ServerRow where
  powerState := u.powerState.or row.powerState
  owned := u.owned.getD row.owned
  shutdownOverride := u.shutdownOverride.getD row.shutdownOverride
  cycleId := u.cycleId.getD row.cycleId

/-- The `action` of a power event. -/
inductive PowerAction
  | powerOn
  | powerOff
  | stateSync
  | externalChange
  deriving DecidableEq, Repr

/-- The `reason` of a power event. -/
inductive PowerReason
  | manual
  | requestWake
  | idleTimeout
  | schedule
  | poll
  | adopted
  | serviceReady
  | startupSync
  deriving DecidableEq, Repr

/-- The `initiated_by` of a power event. -/
inductive Initiator
  | monitorUi
  | proxy
  | external
  | startup
  deriving DecidableEq, Repr

/-- The arguments of `log_power_event`. -/
structure PowerEvent where
  action : PowerAction
  reason : PowerReason
  initiatedBy : Initiator
  success : Bool
  deriving DecidableEq, Repr

/-- A write of the store. -/
inductive StoreCall
  | setServerRuntime (u : RowUpdate)
  | logPowerEvent (event : PowerEvent)
  deriving DecidableEq, Repr

/-- A pass of the shutdown engine that has passed its gate: `_idle_off_tick` that started
at `now`, and `_schedule_off_tick` for a new fire and for a deferred one. -/
inductive ShutdownTick
  | idle (now : Time)
  | schedule (fire : Time)
  | deferred
  deriving DecidableEq, Repr

/-- The reason a tick gives for its power-off. -/
def ShutdownTick.reason : ShutdownTick → PowerReason
  | .idle _ => .idleTimeout
  | .schedule _ | .deferred => .schedule

/-- Where a call is suspended. A tick that issued a power-off goes on when the power-off
has returned. -/
inductive CallPhase
  /-- `backend.power_on` and `backend.power_off`. -/
  | poweringOn (reason : PowerReason) (initiatedBy : Initiator)
  | poweringOff (reason : PowerReason) (initiatedBy : Initiator) (tick : Option ShutdownTick)
  /-- `backend.power_state` in `_power_sync_tick`, in `sync_state` and in a tick. -/
  | polling
  | startupPolling
  | verifying (tick : ShutdownTick)
  /-- A write of the store, with the writes that follow it. -/
  | storing (call : StoreCall) (rest : List StoreCall) (committed : Bool)
      (tick : Option ShutdownTick)
  | ended
  deriving DecidableEq, Repr

/-- The tick a call belongs to. -/
def CallPhase.tick? : CallPhase → Option ShutdownTick
  | .verifying tick => some tick
  | .poweringOff _ _ tick | .storing _ _ _ tick => tick
  | _ => none

/-- The writes a call has still to make. -/
def CallPhase.pendingWrites : CallPhase → List StoreCall
  | .storing call rest committed _ => if committed then rest else call :: rest
  | _ => []

/-- The circumstances of a call of `backend.power_off`. -/
structure PowerOffCall where
  reason : PowerReason
  owned : Bool
  enabled : Bool
  active : Bool
  at' : Time
  deriving DecidableEq, Repr

/-- What happens to the power of a server. -/
inductive ServerEvent
  /-- `on_routed_traffic` is called. -/
  | routed (at' : Time)
  /-- A power-on of the proxy is accepted. -/
  | accepted
  /-- `_power_sync_tick` sees a change, attributed to the outside or to the proxy. -/
  | polled (previous current : PowerState) (external : Bool)
  /-- `backend.power_off` is called. -/
  | powerOff (call : PowerOffCall)
  deriving DecidableEq, Repr

/-- The shutdown engine calls `backend.power_off`. -/
def ServerEvent.isEngineOff : ServerEvent → Bool
  | .powerOff call => decide (call.reason ≠ .manual)
  | _ => false

/-- `ServerRuntime`. `row` and `events` are the tables of the store. -/
structure ServerRuntime where
  config : ServerConfig
  powerState : PowerState
  transient : Option Transient
  owned : Bool
  shutdownOverride : Option Bool
  cycleId : Option CycleId
  lastFiredCron : Option Time
  scheduleDeferred : Bool
  lastActivity : Time
  lastPowerOnAttempt : Time
  row : ServerRow
  events : List PowerEvent
  calls : List CallPhase
  clock : Time
  nextCycle : CycleId
  log : List ServerEvent

/-- A call of a coroutine method. -/
inductive Call
  | maybePowerOn
  | powerOn
  | powerOff
  | onRoutedTraffic
  | noteServiceReady
  | setShutdownOverride (enabled : Bool)
  | powerSyncTick
  | syncState
  | scheduleOffTick (wall : Time)
  | idleOffTick
  deriving DecidableEq, Repr

/-- What a call learns when it is resumed. -/
structure Outcome where
  /-- The awaited call raised. -/
  raised : Bool := false
  /-- The backend accepted the power action. -/
  accepted : Bool := false
  /-- The power state the backend reports. -/
  state : PowerState := .unknown
  /-- Some endpoint of the server is ready. -/
  healthy : Bool := false
  now : Time := 0
  deriving Inhabited

namespace ServerRuntime

/-- `ServerRuntime.__init__`, over the row the store has of the server. -/
def init (config : ServerConfig) (row : ServerRow) (now : Time) : ServerRuntime where
  config := config
  powerState := .unknown
  transient := none
  owned := false
  shutdownOverride := none
  cycleId := none
  lastFiredCron := none
  scheduleDeferred := false
  lastActivity := now
  lastPowerOnAttempt := 0
  row := row
  events := []
  calls := []
  clock := now
  nextCycle := 0
  log := []

variable (S : ServerRuntime)

/-- `shutdown_enabled_now`. -/
def shutdownEnabledNow : Bool := S.shutdownOverride.getD S.config.shutdownEnabled

/-- `_set_state`. -/
def setState (state : PowerState) : ServerRuntime :=
  if state = S.powerState then S else { S with powerState := state, transient := none }

/-- The server after the synchronous part of a call, and the await it is suspended at. -/
abbrev Step := ServerRuntime × CallPhase

/-- The call goes on to a list of store writes, and ends after the last. -/
def storing (calls : List StoreCall) (tick : Option ShutdownTick) : CallPhase :=
  match calls with
  | [] => .ended
  | call :: rest => .storing call rest false tick

/-! ### Power actions -/

/-- `power_on` up to the call of the backend. -/
def powerOn (reason : PowerReason) (initiatedBy : Initiator) : Step :=
  ({ S with transient := some .poweringOn }, .poweringOn reason initiatedBy)

/-- `maybe_power_on`. -/
def maybePowerOn (now : Time) : Step :=
  if now - S.lastPowerOnAttempt ≤ S.config.powerOnCooldown then (S, .ended)
  else powerOn { S with lastPowerOnAttempt := now } .requestWake .proxy

/-- `power_on` after the call of the backend. -/
def poweredOn (reason : PowerReason) (initiatedBy : Initiator) (ok : Bool) : Step :=
  if ok then
    ({ S with
        owned := true
        shutdownOverride := none
        cycleId := some S.nextCycle
        nextCycle := S.nextCycle + 1
        log := S.log ++ [.accepted] },
      storing
        [.setServerRuntime
            { owned := some true
              shutdownOverride := some none
              cycleId := some (some S.nextCycle) },
          .logPowerEvent ⟨.powerOn, reason, initiatedBy, true⟩] none)
  else
    ({ S with transient := none },
      storing [.logPowerEvent ⟨.powerOn, reason, initiatedBy, false⟩] none)

/-- `power_off` up to the call of the backend. -/
def powerOff (active : Bool) (now : Time) (reason : PowerReason) (initiatedBy : Initiator)
    (tick : Option ShutdownTick) : Step :=
  ({ S with
      transient := some .poweringOff
      log := S.log ++ [.powerOff ⟨reason, S.owned, S.shutdownEnabledNow, active, now⟩] },
    .poweringOff reason initiatedBy tick)

/-- `power_off` after the call of the backend. -/
def poweredOff (reason : PowerReason) (initiatedBy : Initiator) (tick : Option ShutdownTick)
    (ok : Bool) : Step :=
  if ok then
    ({ S with owned := false },
      storing
        [.setServerRuntime { owned := some false },
          .logPowerEvent ⟨.powerOff, reason, initiatedBy, true⟩] tick)
  else
    ({ S with transient := none },
      storing [.logPowerEvent ⟨.powerOff, reason, initiatedBy, false⟩] tick)

/-! ### Traffic, readiness and the monitor -/

/-- `on_routed_traffic`. -/
def onRoutedTraffic (now : Time) : Step :=
  let S' := { S with lastActivity := now, log := S.log ++ [.routed now] }
  if S.config.adoptOnTraffic && !S.owned then
    let cycle := S.cycleId.getD S.nextCycle
    ({ S' with
        owned := true
        cycleId := some cycle
        nextCycle := if S.cycleId.isNone then S.nextCycle + 1 else S.nextCycle },
      storing
        [.setServerRuntime { owned := some true, cycleId := some (some cycle) },
          .logPowerEvent ⟨.externalChange, .adopted, .proxy, true⟩] none)
  else (S', .ended)

/-- `note_service_ready`. -/
def noteServiceReady : Step :=
  if S.powerState = .on then (S, .ended)
  else
    (S.setState .on,
      storing
        [.setServerRuntime { powerState := some .on },
          .logPowerEvent ⟨.stateSync, .serviceReady, .proxy, true⟩] none)

/-- `set_shutdown_override`. -/
def setShutdownOverride (enabled : Bool) : Step :=
  ({ S with shutdownOverride := some enabled },
    storing [.setServerRuntime { shutdownOverride := some (some enabled) }] none)

/-! ### Power-state polls -/

/-- `_power_sync_tick` after the call of the backend. -/
def polled (state : PowerState) : Step :=
  if state = S.powerState then (S, .ended)
  else
    let external := S.transient.isNone
    ({ S.setState state with log := S.log ++ [.polled S.powerState state external] },
      storing
        [.setServerRuntime { powerState := some state },
          .logPowerEvent
            (if external then ⟨.externalChange, .poll, .external, true⟩
              else ⟨.stateSync, .poll, .proxy, true⟩)] none)

/-- `sync_state` after the call of the backend. -/
def startupPolled (state : PowerState) (healthy : Bool) : Step :=
  let state := if healthy then .on else state
  (S.setState state,
    storing
      [.setServerRuntime { powerState := some state },
        .logPowerEvent ⟨.stateSync, .startupSync, .startup, true⟩] none)

/-! ### The shutdown engine -/

/-- What a tick does when its power-off has returned, or was not issued. -/
def finishTick : Option ShutdownTick → ServerRuntime
  | none => S
  -- P12: the clock is reset to the start of the tick
  | some (.idle now) => { S with lastActivity := now }
  | some (.schedule fire) => { S with lastFiredCron := some fire, scheduleDeferred := false }
  | some .deferred => { S with scheduleDeferred := false }

/-- The part of `_can_power_off` before the call of the backend, and what follows when it
fails. -/
def canPowerOff (tick : ShutdownTick) : Step :=
  if S.owned && S.shutdownEnabledNow then (S, .verifying tick)
  else (S.finishTick (some tick), .ended)

/-- `_schedule_off_tick`. -/
def scheduleOffTick (active : Bool) (wall : Time) : Step :=
  match S.config.lastFireBefore with
  | none => (S, .ended)
  | some lastFireBefore =>
      match S.lastFiredCron with
      | none => ({ S with lastFiredCron := some wall }, .ended)
      | some lastFired =>
          let fire := lastFireBefore wall
          if fire ≤ lastFired then
            if S.scheduleDeferred && !active then S.canPowerOff .deferred else (S, .ended)
          else if active then
            ({ S with scheduleDeferred := true, lastFiredCron := some fire }, .ended)
          else S.canPowerOff (.schedule fire)

/-- `_idle_off_tick` up to the call of the backend. -/
def idleOffTick (active : Bool) (now : Time) : Step :=
  if active then ({ S with lastActivity := now }, .ended)
  else if !S.shutdownEnabledNow then (S, .ended)
  else if now - S.lastActivity ≤ S.config.idleTimeout then (S, .ended)
  else (S, .verifying (.idle now))

/-- A tick after it has verified the power state. Only the idle tick looks at the
ownership now; the other ones looked before the call of the backend. -/
def verified (active : Bool) (now : Time) (tick : ShutdownTick) (state : PowerState) : Step :=
  match tick with
  | .idle _ =>
      if state = .on then
        if S.owned then S.powerOff active now .idleTimeout .proxy (some tick)
        else (S.finishTick (some tick), .ended)
      else (S, .ended)
  | .schedule _ | .deferred =>
      if state = .on then S.powerOff active now .schedule .proxy (some tick)
      else (S.finishTick (some tick), .ended)

/-! ### Calls -/

/-- A call runs to its first await. -/
def start (call : Call) (active : Bool) (now : Time) : Step :=
  match call with
  | .maybePowerOn => S.maybePowerOn now
  | .powerOn => S.powerOn .manual .monitorUi
  | .powerOff => S.powerOff active now .manual .monitorUi none
  | .onRoutedTraffic => S.onRoutedTraffic now
  | .noteServiceReady => S.noteServiceReady
  | .setShutdownOverride enabled => S.setShutdownOverride enabled
  | .powerSyncTick => (S, .polling)
  | .syncState => (S, .startupPolling)
  | .scheduleOffTick wall => S.scheduleOffTick active wall
  | .idleOffTick => S.idleOffTick active now

/-- A call runs from the await it is suspended at to the next one. An exception ends it. -/
def run (phase : CallPhase) (active : Bool) (outcome : Outcome) : Step :=
  if outcome.raised then (S, .ended)
  else
    match phase with
    | .poweringOn reason initiatedBy => S.poweredOn reason initiatedBy outcome.accepted
    | .poweringOff reason initiatedBy tick =>
        S.poweredOff reason initiatedBy tick outcome.accepted
    | .polling => S.polled outcome.state
    | .startupPolling => S.startupPolled outcome.state outcome.healthy
    | .verifying tick => S.verified active outcome.now tick outcome.state
    | .storing _ [] _ tick => (S.finishTick tick, .ended)
    | .storing _ (call :: rest) _ tick => (S, .storing call rest false tick)
    | .ended => (S, .ended)

/-- The store performs a write. -/
def perform : StoreCall → ServerRuntime
  | .setServerRuntime u => { S with row := u.apply S.row }
  | .logPowerEvent event => { S with events := S.events ++ [event] }

/-- A restart of the proxy: a new runtime, restored from the row that
`reconcile_servers` returns. When the store is unusable that is the default row. -/
def restart (degraded : Bool) (now : Time) : ServerRuntime :=
  let row := if degraded then {} else S.row
  { init S.config S.row now with
    owned := row.owned
    shutdownOverride := row.shutdownOverride
    cycleId := row.cycleId
    powerState := row.powerState.getD .unknown
    events := S.events
    nextCycle := S.nextCycle
    log := S.log }

/-- What happens to a server. -/
inductive Op
  | call (call : Call) (now : Time)
  | resume (i : Nat) (outcome : Outcome)
  | commit (i : Nat)
  | restart (degraded : Bool) (now : Time)

/-- One step of a server; the monotonic clock does not go back. -/
def step (active : Bool) : Op → Option ServerRuntime
  | .call call now =>
      if S.clock ≤ now then
        let result := start { S with clock := now } call active now
        some { result.1 with calls := result.1.calls ++ [result.2] }
      else none
  | .resume i outcome =>
      match S.calls[i]? with
      | none | some .ended => none
      | some phase =>
          if S.clock ≤ outcome.now then
            let result := run { S with clock := outcome.now } phase active outcome
            some { result.1 with calls := result.1.calls.set i result.2 }
          else none
  | .commit i =>
      match S.calls[i]? with
      | some (.storing call rest false tick) =>
          let S' := S.perform call
          some { S' with calls := S.calls.set i (.storing call rest true tick) }
      | _ => none
  | .restart degraded now => if S.clock ≤ now then some (S.restart degraded now) else none

end ServerRuntime

end Relay
