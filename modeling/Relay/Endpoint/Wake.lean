import Relay.Endpoint.Moves
import Relay.Queue.Fifo
import Relay.Server.System

/-!
# Relay.Endpoint.Wake

**Does a held request wake the box?** While its server is off, a request that is held is to have
the server powered on. An HTTP request does so itself, by `_ensure_wake`, when it joins the queue
or in its hold loop; the queue manager does it again as long as requests are queued. The hold
loop of a WebSocket does not call `_ensure_wake`, and a WebSocket is not queued.

`wakes_iff` says that this is the whole difference, whatever else happens in the meantime.
-/

namespace Relay

open Runs

/-! ### Power-ons of a server -/

/-- The call awaits `backend.power_on`. -/
def CallPhase.isPoweringOn : CallPhase → Bool
  | .poweringOn _ _ => true
  | _ => false

namespace ServerRuntime

/-- Whether a step calls `backend.power_on`. -/
def callsPowerOn (S : ServerRuntime) (active : Bool) : Op → Bool
  | .call call now => (start { S with clock := now } call active now).2.isPoweringOn
  | _ => false

/-- The calls that are for powering the server on. -/
def Op.isWake : Op → Bool
  | .call .powerOn _ | .call .maybePowerOn _ => true
  | _ => false

/-- The operation is a call of `maybe_power_on`. -/
def Op.isMaybePowerOn : Op → Bool
  | .call .maybePowerOn _ => true
  | _ => false

def Op.isRestart : Op → Bool
  | .restart _ _ => true
  | _ => false

/-- The cooldown of the power-on has elapsed. -/
def CooledDown (S : ServerRuntime) : Prop :=
  S.config.powerOnCooldown < S.clock - S.lastPowerOnAttempt

variable {S S' : ServerRuntime} {active : Bool} {now : Time} {op : Op}

theorem CooledDown.congr (h : S.CooledDown) (hconfig : S'.config = S.config)
    (hclock : S.clock ≤ S'.clock) (hattempt : S'.lastPowerOnAttempt = S.lastPowerOnAttempt) :
    S'.CooledDown := by
  unfold CooledDown
  rw [hconfig, hattempt]
  exact lt_of_lt_of_le h (sub_le_sub_right hclock _)

theorem callsPowerOn_maybePowerOn (h : S.CooledDown) (hclock : S.clock ≤ now) :
    S.callsPowerOn active (.call .maybePowerOn now) = true := by
  have hlt : S.config.powerOnCooldown < now - S.lastPowerOnAttempt :=
    lt_of_lt_of_le h (sub_le_sub_right hclock _)
  show (maybePowerOn { S with clock := now } now).2.isPoweringOn = true
  rw [maybePowerOn, if_neg (not_le.mpr hlt)]
  rfl

theorem callsPowerOn_of_isWake (h : S.CooledDown) (hop : op.isWake = true)
    (hstep : S.step active op = some S') : S.callsPowerOn active op = true := by
  unfold Op.isWake at hop
  split at hop
  · rfl
  · rename_i now
    exact callsPowerOn_maybePowerOn h (Option.ite_none_right_eq_some.mp hstep).1
  · cases hop

theorem setState_attempt (S : ServerRuntime) (state : PowerState) :
    (S.setState state).lastPowerOnAttempt = S.lastPowerOnAttempt := by
  unfold setState
  split <;> rfl

theorem HoldsBack.isPoweringOn {result : Step} (h : S.HoldsBack result) :
    result.2.isPoweringOn = false := by
  rcases h.phase with hphase | ⟨tick, hphase⟩
  · rw [hphase]
    rfl
  · rw [hphase]
    rfl

/-- A call powers the server on, or leaves the cooldown alone. -/
theorem start_attempt (S : ServerRuntime) (call : Call) (active : Bool) (now : Time) :
    ((S.start call active now).1.lastPowerOnAttempt = S.lastPowerOnAttempt ∧
      (S.start call active now).2.isPoweringOn = false) ∨
    (S.start call active now).2.isPoweringOn = true ∧
      (call = .powerOn ∨ call = .maybePowerOn) := by
  cases call with
  | maybePowerOn =>
      by_cases hwait : now - S.lastPowerOnAttempt ≤ S.config.powerOnCooldown
      · refine Or.inl ?_
        simp only [start, maybePowerOn, if_pos hwait]
        exact ⟨trivial, rfl⟩
      · refine Or.inr ⟨?_, Or.inr rfl⟩
        simp only [start, maybePowerOn, if_neg hwait]
        rfl
  | powerOn => exact Or.inr ⟨rfl, Or.inl rfl⟩
  | powerOff => exact Or.inl ⟨rfl, rfl⟩
  | onRoutedTraffic =>
      refine Or.inl ?_
      simp only [start]
      unfold onRoutedTraffic
      dsimp only
      split <;> exact ⟨rfl, rfl⟩
  | noteServiceReady =>
      refine Or.inl ?_
      simp only [start]
      unfold noteServiceReady
      split
      · exact ⟨rfl, rfl⟩
      · exact ⟨setState_attempt S _, rfl⟩
  | setShutdownOverride enabled => exact Or.inl ⟨rfl, rfl⟩
  | powerSyncTick => exact Or.inl ⟨rfl, rfl⟩
  | syncState => exact Or.inl ⟨rfl, rfl⟩
  | scheduleOffTick wall =>
      have hheld := scheduleOffTick_holdsBack S active wall
      exact Or.inl ⟨hheld.lastPowerOnAttempt, hheld.isPoweringOn⟩
  | idleOffTick =>
      have hheld := idleOffTick_holdsBack S active now
      exact Or.inl ⟨hheld.lastPowerOnAttempt, hheld.isPoweringOn⟩

theorem isWake_of_callsPowerOn (h : S.callsPowerOn active op = true) : op.isWake = true := by
  cases op with
  | call call now =>
      rcases start_attempt { S with clock := now } call active now with ⟨-, hnot⟩ | ⟨-, hcall⟩
      · exact absurd (hnot.symm.trans h) Bool.false_ne_true
      · rcases hcall with rfl | rfl <;> rfl
  | resume i outcome => cases h
  | commit i => cases h
  | restart degraded now => cases h

/-- A call that goes on leaves the cooldown alone. -/
theorem run_attempt (S : ServerRuntime) (phase : CallPhase) (active : Bool) (outcome : Outcome) :
    (S.run phase active outcome).1.lastPowerOnAttempt = S.lastPowerOnAttempt := by
  unfold run
  split
  · rfl
  · cases phase with
    | poweringOn reason initiatedBy =>
        simp only [poweredOn]
        split <;> rfl
    | poweringOff reason initiatedBy tick =>
        simp only [poweredOff]
        split <;> rfl
    | polling =>
        simp only [polled]
        split
        · rfl
        · exact setState_attempt S _
    | startupPolling => exact setState_attempt S _
    | verifying tick =>
        simp only
        rcases verified_cases S active outcome.now tick outcome.state with hoff | hheld
        · rw [hoff]
          rfl
        · exact hheld.lastPowerOnAttempt
    | storing call rest committed tick =>
        cases rest with
        | nil => exact (finishTick_holdsBack S tick).lastPowerOnAttempt
        | cons next rest => rfl
    | ended => rfl

theorem Op.exists_of_isMaybePowerOn (h : op.isMaybePowerOn = true) :
    ∃ now, op = .call .maybePowerOn now := by
  unfold Op.isMaybePowerOn at h
  split at h
  · exact ⟨_, rfl⟩
  · cases h

/-- Only a restart changes the configuration, and the clock does not go back. -/
theorem step_frame (hstep : S.step active op = some S') (hop : op.isRestart = false) :
    S'.config = S.config ∧ S.clock ≤ S'.clock := by
  cases op with
  | call call now =>
      obtain ⟨hclock, hS'⟩ := Option.ite_none_right_eq_some.mp hstep
      obtain ⟨hconfig, -, -, hnow⟩ := Move.frame (start_moves call :
        Moves { S with clock := now } active now _ (start { S with clock := now } call active now))
      rw [← Option.some.inj hS']
      exact ⟨hconfig, hclock.trans_eq hnow.symm⟩
  | resume i outcome =>
      simp only [ServerRuntime.step] at hstep
      split at hstep
      · cases hstep
      · cases hstep
      · rename_i phase _ _
        obtain ⟨hclock, hS'⟩ := Option.ite_none_right_eq_some.mp hstep
        obtain ⟨hconfig, -, -, hnow⟩ := Move.frame (run_moves phase outcome :
          Moves { S with clock := outcome.now } active _ _
            (run { S with clock := outcome.now } phase active outcome))
        rw [← Option.some.inj hS']
        exact ⟨hconfig, hclock.trans_eq hnow.symm⟩
  | commit i =>
      simp only [ServerRuntime.step] at hstep
      split at hstep
      · rename_i call rest tick _
        cases hstep
        cases call <;> exact ⟨rfl, le_refl _⟩
      · cases hstep
  | restart degraded now => cases hop

/-- The cooldown is that of `maybe_power_on`. -/
theorem step_attempt (hstep : S.step active op = some S') (hop : op.isRestart = false)
    (hwake : op.isMaybePowerOn = false) : S'.lastPowerOnAttempt = S.lastPowerOnAttempt := by
  cases op with
  | call call now =>
      obtain ⟨-, hS'⟩ := Option.ite_none_right_eq_some.mp hstep
      rw [← Option.some.inj hS']
      rcases start_attempt { S with clock := now } call active now with ⟨hattempt, -⟩ | ⟨-, hcall⟩
      · exact hattempt
      · rcases hcall with rfl | rfl
        · rfl
        · cases hwake
  | resume i outcome =>
      simp only [ServerRuntime.step] at hstep
      split at hstep
      · cases hstep
      · cases hstep
      · obtain ⟨-, hS'⟩ := Option.ite_none_right_eq_some.mp hstep
        rw [← Option.some.inj hS']
        exact run_attempt _ _ active outcome
  | commit i =>
      simp only [ServerRuntime.step] at hstep
      split at hstep
      · rename_i call rest tick _
        cases hstep
        cases call <;> rfl
      · cases hstep
  | restart degraded now => cases hop

/-- What a call of `maybe_power_on` does to the cooldown. -/
theorem step_maybePowerOn {now : Time}
    (hstep : S.step active (.call .maybePowerOn now) = some S') :
    S.clock ≤ now ∧ S'.clock = now ∧
    (S.callsPowerOn active (.call .maybePowerOn now) = true ↔
      S.config.powerOnCooldown < now - S.lastPowerOnAttempt) ∧
    S'.lastPowerOnAttempt =
      if S.callsPowerOn active (.call .maybePowerOn now) then now else S.lastPowerOnAttempt := by
  obtain ⟨hclock, hS'⟩ := Option.ite_none_right_eq_some.mp hstep
  rw [← Option.some.inj hS']
  refine ⟨hclock, ?_⟩
  simp only [callsPowerOn, start, maybePowerOn]
  by_cases hwait : now - S.lastPowerOnAttempt ≤ S.config.powerOnCooldown
  · rw [if_pos hwait]
    exact ⟨rfl, iff_of_false Bool.false_ne_true (not_lt.mpr hwait), rfl⟩
  · rw [if_neg hwait]
    exact ⟨rfl, iff_of_true rfl (not_le.mp hwait), rfl⟩

/-- As long as `backend.power_on` is not called, the cooldown stays elapsed. -/
theorem CooledDown.step (h : S.CooledDown) (hstep : S.step active op = some S')
    (hcalls : S.callsPowerOn active op = false) (hop : op.isRestart = false) : S'.CooledDown := by
  obtain ⟨hconfig, hclock⟩ := step_frame hstep hop
  refine h.congr hconfig hclock ?_
  cases hwake : op.isMaybePowerOn with
  | false => exact step_attempt hstep hop hwake
  | true =>
      obtain ⟨now, rfl⟩ := Op.exists_of_isMaybePowerOn hwake
      obtain ⟨-, -, -, hattempt⟩ := step_maybePowerOn hstep
      rw [hattempt, hcalls]
      rfl

end ServerRuntime

/-! ### An endpoint with its server -/

/-- The operation is a probe that succeeds. -/
def QueueOp.answers : QueueOp → Bool
  | .setReady ready => ready
  | _ => false

namespace EndpointQueue

variable {q q' : EndpointQueue}

/-- Only a probe makes the endpoint ready. -/
theorem ready_of_step {op : QueueOp} (hop : op.isManaged = true) (hanswers : op.answers = false)
    (h : q.step op = some q') (hready : q.ready = false) : q'.ready = false := by
  cases op with
  | admitQueued r path sessionAt queuedAt promoteAt => exact absurd hop Bool.false_ne_true
  | abandon e => exact absurd hop Bool.false_ne_true
  | release e now promoteAt => exact absurd hop Bool.false_ne_true
  | releaseSession client sessionId promoteAt =>
      obtain rfl := Option.some.inj h
      rcases releaseSession_cases q client sessionId promoteAt with ⟨s, -, -, heq⟩ | ⟨-, heq⟩
      · rw [heq]
        exact (tryPromote_ready _ _).trans hready
      · rw [heq]
        exact hready
  | tick now promoteAt =>
      obtain rfl := Option.some.inj h
      exact tick_induction (I := fun q => q.ready = false) (P := fun _ _ _ => True)
        (fun q key s hq _ _ => (visit_ready q now (promoteAt key) key s).trans hq)
        (fun _ _ => trivial) hready
  | setReady ready =>
      obtain rfl := Option.some.inj h
      exact hanswers
  | tryPromote now =>
      obtain rfl := Option.some.inj h
      exact (tryPromote_ready q now).trans hready
  | setClientStatus s status detail at' =>
      obtain ⟨-, hq'⟩ := Option.ite_none_right_eq_some.mp h
      obtain rfl := Option.some.inj hq'
      exact hready
  | setSharedSpotKey s key =>
      obtain ⟨-, hq'⟩ := Option.ite_none_right_eq_some.mp h
      obtain rfl := Option.some.inj hq'
      exact hready

/-- The managed operations leave an empty queue empty. -/
theorem managed_queue_eq_nil : Managed (fun q => q.queue = []) where
  promote := fun q e _ h hsel => absurd hsel.mem (by simp [h])
  freeSpot := fun _ _ _ h _ => h
  forget := fun _ _ _ h _ _ => h
  cosmetic := fun _ _ _ h _ => h
  setReady := fun _ _ h => h

end EndpointQueue

namespace Phase

/-- The await is that of `_ensure_wake`. -/
def ensuresWake : Phase → Bool
  | .waking | .readyPolling _ => true
  | _ => false

/-- The task sleeps in its hold loop. -/
def isHeld : Phase → Bool
  | .sleeping _ | .readySleeping _ | .wsReadyWaiting _ | .spotWaiting _ _ => true
  | _ => false

end Phase

/-- The request comes by HTTP. -/
def RequestKind.isHttp : RequestKind → Bool
  | .http | .catchAll => true
  | .webSocket | .catchAllWebSocket => false

/-- An endpoint with its server, and the `last_check` of its queue manager. `powerOns`, how often
`backend.power_on` has been called, is a history variable. -/
structure Site where
  endpoint : Endpoint
  server : ServerRuntime
  lastCheck : Time
  powerOns : Nat

namespace Site

/-- What happens at an endpoint and its server. A manager tick comes with the outcome of its
probe; what it does before its third step, and its promotion, are operations of the queue. -/
inductive Op
  | arrive (request : Request)
  | resume (i : Nat) (input : Input) (wakeAt : Time)
  | manage (op : QueueOp)
  | managerTick (now wakeAt : Time) (probe : Bool)
  | server (op : ServerRuntime.Op)

/-- The operation powers the server on for other reasons than a request at the endpoint. -/
def Op.isWake : Op → Bool
  | .server op => op.isWake
  | _ => false

variable (W : Site)

/-- A step of the server. -/
def onServer (op : ServerRuntime.Op) : Option Site :=
  (W.server.step W.endpoint.hasActivity op).map (fun server =>
    { W with
      server := server
      powerOns := W.powerOns +
        (if W.server.callsPowerOn W.endpoint.hasActivity op then 1 else 0) })

/-- `_ensure_wake`, up to the await of the backend. -/
def ensureWake (now : Time) : Option Site :=
  if W.endpoint.queue.ready then some W
  else if W.server.powerState = .on then some W
  else W.onServer (.call .maybePowerOn now)

/-- A task runs on to its next await. -/
def resume (i : Nat) (input : Input) (wakeAt : Time) : Option Site :=
  let input := { input with wakes := decide (W.server.powerState ≠ .on) }
  (W.endpoint.step (.resume i input)).bind (fun E =>
    if (E.tasks[i]?).any (fun t => t.phase.ensuresWake) then
      ensureWake { W with endpoint := E } wakeAt
    else some { W with endpoint := E })

/-- The probe of a manager tick. -/
def probed (now : Time) (probe : Bool) : Site :=
  if 2 ≤ now - W.lastCheck then
    { W with
      endpoint := { W.endpoint with queue := { W.endpoint.queue with ready := probe } }
      lastCheck := now }
  else W

/-- The third step of `_queue_manager_tick`. -/
def managerTick (now wakeAt : Time) (probe : Bool) : Option Site :=
  if W.endpoint.queue.queue.isEmpty then some W else (W.probed now probe).ensureWake wakeAt

/-- One step. -/
def step : Op → Option Site
  | .arrive request =>
      (W.endpoint.step (.arrive request)).map (fun E => { W with endpoint := E })
  | .resume i input wakeAt => W.resume i input wakeAt
  | .manage op => (W.endpoint.step (.manage op)).map (fun E => { W with endpoint := E })
  | .managerTick now wakeAt probe => W.managerTick now wakeAt probe
  | .server op => W.onServer op

/-- The probe of the step fails if there is one, and the server stays off. -/
def Stays (W : Site) : Op → Prop
  | .arrive _ | .resume _ _ _ => True
  | .manage op => op.answers = false
  | .managerTick _ _ probe => probe = false
  | .server op => op.isRestart = false ∧
      (W.server.step W.endpoint.hasActivity op).all (fun S => S.powerState ≠ .on) = true

instance (W : Site) (op : Op) : Decidable (W.Stays op) :=
  match op with
  | .arrive _ | .resume _ _ _ => isTrue trivial
  | .manage op => inferInstanceAs (Decidable (op.answers = false))
  | .managerTick _ _ probe => inferInstanceAs (Decidable (probe = false))
  | .server _ => inferInstanceAs (Decidable (_ ∧ _))

/-- Where the run starts: requests are to wait, none does, the endpoint is not ready, the server
is off, and the cooldown of the power-on has elapsed. -/
structure Cold (W : Site) : Prop where
  wait : W.endpoint.cfg.waitPolicy = .wait
  notReady : W.endpoint.queue.ready = false
  queue : W.endpoint.queue.queue = []
  tasks : W.endpoint.tasks = []
  off : W.server.powerState ≠ .on
  cooledDown : W.server.CooledDown
  powerOns : W.powerOns = 0

variable {W}

/-! ### As long as nobody has been woken -/

/-- A task that has not called `_ensure_wake`: it has not come to it, or it never will. -/
def Dozes (t : Task) : Prop :=
  (t.phase = .arrived ∨ t.phase = .probing ∨ t.phase = .ended .failed) ∨
    t.request.kind.isHttp = false ∧ ((∃ deadline, t.phase = .wsReadyWaiting deadline) ∨
      ∃ reply, t.phase = .ended reply)

/-- What holds as long as `backend.power_on` has not been called. -/
structure Asleep (W : Site) : Prop where
  wait : W.endpoint.cfg.waitPolicy = .wait
  notReady : W.endpoint.queue.ready = false
  queue : W.endpoint.queue.queue = []
  tasks : ∀ t ∈ W.endpoint.tasks, Dozes t
  off : W.server.powerState ≠ .on
  cooledDown : W.server.CooledDown

theorem Cold.asleep (h : W.Cold) : W.Asleep where
  wait := h.wait
  notReady := h.notReady
  queue := h.queue
  tasks := by simp [h.tasks]
  off := h.off
  cooledDown := h.cooledDown

section Steps

variable {W' : Site}

theorem onServer_eq_some {op : ServerRuntime.Op} (h : W.onServer op = some W') :
    W.server.step W.endpoint.hasActivity op = some W'.server ∧ W'.endpoint = W.endpoint ∧
      W'.powerOns =
        W.powerOns + (if W.server.callsPowerOn W.endpoint.hasActivity op then 1 else 0) := by
  obtain ⟨server, hserver, rfl⟩ := Option.map_eq_some_iff.mp h
  exact ⟨hserver, rfl, rfl⟩

theorem ensureWake_endpoint {now : Time} (h : W.ensureWake now = some W') :
    W'.endpoint = W.endpoint := by
  unfold ensureWake at h
  split at h
  · rw [Option.some.inj h]
  · split at h
    · rw [Option.some.inj h]
    · exact (onServer_eq_some h).2.1

theorem ensureWake_le {now : Time} (h : W.ensureWake now = some W') :
    W.powerOns ≤ W'.powerOns := by
  unfold ensureWake at h
  split at h
  · obtain rfl := Option.some.inj h
    exact Nat.le_refl _
  · split at h
    · obtain rfl := Option.some.inj h
      exact Nat.le_refl _
    · rw [(onServer_eq_some h).2.2]
      exact Nat.le_add_right _ _

theorem managerTick_le {now wakeAt : Time} {probe : Bool}
    (h : W.managerTick now wakeAt probe = some W') : W.powerOns ≤ W'.powerOns := by
  unfold managerTick at h
  split at h
  · obtain rfl := Option.some.inj h
    exact Nat.le_refl _
  · have hprobed : (W.probed now probe).powerOns = W.powerOns := by
      unfold probed
      split <;> rfl
    exact hprobed ▸ ensureWake_le h

theorem step_le {op : Op} (h : W.step op = some W') : W.powerOns ≤ W'.powerOns := by
  cases op with
  | arrive request =>
      obtain rfl := Option.some.inj h
      exact Nat.le_refl _
  | resume i input wakeAt =>
      obtain ⟨E, -, h⟩ := Option.bind_eq_some_iff.mp h
      split at h
      · have hle := ensureWake_le h
        exact hle
      · obtain rfl := Option.some.inj h
        exact Nat.le_refl _
  | manage op =>
      obtain ⟨E, -, rfl⟩ := Option.map_eq_some_iff.mp h
      exact Nat.le_refl _
  | managerTick now wakeAt probe => exact managerTick_le h
  | server op =>
      rw [(onServer_eq_some h).2.2]
      exact Nat.le_add_right _ _

/-- `_ensure_wake` powers on a server that is off, once the cooldown has elapsed. -/
theorem ensureWake_pos {now : Time} (hready : W.endpoint.queue.ready = false)
    (hoff : W.server.powerState ≠ .on) (hcool : W.server.CooledDown)
    (h : W.ensureWake now = some W') : 0 < W'.powerOns := by
  rw [ensureWake, hready, if_neg Bool.false_ne_true, if_neg hoff] at h
  obtain ⟨hstep, -, hpowerOns⟩ := onServer_eq_some h
  rw [hpowerOns, ServerRuntime.callsPowerOn_of_isWake hcool rfl hstep, if_pos rfl]
  exact Nat.succ_pos _

/-- What becomes of a task of the endpoint: it calls `_ensure_wake`, as an HTTP request does, or
it dozes on. -/
def Settles (W : Site) (t : Task) (result : Endpoint.Step) : Prop :=
  result.1 = W.endpoint ∧
    ((result.2.ensuresWake = true ∧ t.request.kind.isHttp = true) ∨
      result.2.ensuresWake = false ∧ Dozes (t.moveTo result.2))

variable {t : Task} {input : Input}

theorem Asleep.wsReadyHead (h : W.Asleep) (ht : t.request.kind.isHttp = false)
    (deadline : Option Time) :
    W.Settles t (W.endpoint.wsReadyHead t.request deadline input) := by
  rw [Endpoint.wsReadyHead, h.notReady, if_neg Bool.false_ne_true]
  split
  · exact ⟨rfl, Or.inr ⟨rfl, Or.inr ⟨ht, Or.inr ⟨_, rfl⟩⟩⟩⟩
  · exact ⟨rfl, Or.inr ⟨rfl, Or.inr ⟨ht, Or.inl ⟨_, rfl⟩⟩⟩⟩

/-- The readiness gate. -/
theorem Asleep.gate (h : W.Asleep) (hwakes : input.wakes = true) :
    W.Settles t (W.endpoint.gate t.request input) := by
  unfold Endpoint.gate
  cases hkind : t.request.kind
  case http | catchAll =>
    have hhttp : t.request.kind.isHttp = true := by rw [hkind]; rfl
    simp only [h.notReady, h.wait, hwakes, Bool.false_eq_true, if_false, if_true]
    split
    · exact ⟨rfl, Or.inl ⟨rfl, hhttp⟩⟩
    · rw [Endpoint.readyHead, h.notReady, if_neg Bool.false_ne_true]
      exact ⟨rfl, Or.inl ⟨rfl, hhttp⟩⟩
  case webSocket | catchAllWebSocket =>
    have hws : t.request.kind.isHttp = false := by rw [hkind]; rfl
    simp only [h.notReady, h.wait, Bool.false_eq_true, if_false]
    exact h.wsReadyHead hws _

/-- A step of a task that dozes. -/
theorem Asleep.run (h : W.Asleep) (ht : Dozes t) (hwakes : input.wakes = true)
    {result : Endpoint.Step} (hrun : W.endpoint.run t input = some result) :
    W.Settles t result := by
  unfold Endpoint.run at hrun
  rcases ht with (hphase | hphase | hphase) | ⟨hws, ⟨deadline, hphase⟩ | ⟨reply, hphase⟩⟩
  · rw [hphase] at hrun
    obtain rfl := Option.some.inj hrun
    unfold Endpoint.start
    split
    · exact ⟨rfl, Or.inr ⟨rfl, Or.inl (Or.inr (Or.inl rfl))⟩⟩
    · exact h.gate hwakes
  · rw [hphase] at hrun
    obtain rfl := Option.some.inj hrun
    split
    · exact ⟨rfl, Or.inr ⟨rfl, Or.inl (Or.inr (Or.inr rfl))⟩⟩
    · exact h.gate hwakes
  · rw [hphase] at hrun
    cases hrun
  · rw [hphase] at hrun
    obtain rfl := Option.some.inj hrun
    exact h.wsReadyHead hws deadline
  · rw [hphase] at hrun
    cases hrun

/-- What a step of a task leaves. -/
theorem resume_cases {i : Nat} {wakeAt : Time} (h : W.resume i input wakeAt = some W') :
    ∃ t result, W.endpoint.tasks[i]? = some t ∧
      W.endpoint.run t { input with wakes := decide (W.server.powerState ≠ .on) } = some result ∧
      if result.2.ensuresWake then
        ensureWake { W with endpoint := W.endpoint.settle i t result } wakeAt = some W'
      else W' = { W with endpoint := W.endpoint.settle i t result } := by
  obtain ⟨E, hE, h⟩ := Option.bind_eq_some_iff.mp h
  cases ht : W.endpoint.tasks[i]? with
  | none =>
      rw [Endpoint.step, ht] at hE
      cases hE
  | some t =>
      rw [Endpoint.step, ht] at hE
      obtain ⟨result, hrun, rfl⟩ := Option.map_eq_some_iff.mp hE
      refine ⟨t, result, rfl, hrun, ?_⟩
      have hi : i < W.endpoint.tasks.length := (List.getElem?_eq_some_iff.mp ht).1
      -- the phase that `resume` looks up is the one the task has just come to
      have hphase : ((W.endpoint.settle i t result).tasks[i]?).any
          (fun t => t.phase.ensuresWake) = result.2.ensuresWake := by
        simp [Endpoint.settle, Task.moveTo, hi]
      rw [hphase] at h
      split at h
      · rename_i hwake
        rw [if_pos hwake]
        exact h
      · rename_i hwake
        rw [if_neg hwake]
        exact (Option.some.inj h).symm

/-- What a step of a task leaves of the endpoint. -/
theorem resume_endpoint {i : Nat} {wakeAt : Time} (h : W.resume i input wakeAt = some W') :
    ∃ t result, W.endpoint.tasks[i]? = some t ∧ W'.endpoint = W.endpoint.settle i t result := by
  obtain ⟨t, result, ht, -, hcase⟩ := resume_cases h
  refine ⟨t, result, ht, ?_⟩
  split at hcase
  · exact ensureWake_endpoint hcase
  · rw [hcase]

/-- No request is forgotten. -/
theorem step_requests {op : Op} (h : W.step op = some W') (ht : t ∈ W.endpoint.tasks) :
    ∃ t' ∈ W'.endpoint.tasks, t'.request = t.request := by
  cases op with
  | arrive request =>
      obtain rfl := Option.some.inj h
      exact ⟨t, List.mem_append_left _ ht, rfl⟩
  | resume i input wakeAt =>
      obtain ⟨t₀, result, ht₀, hE⟩ := resume_endpoint h
      obtain ⟨j, hj⟩ := List.mem_iff_getElem?.mp ht
      obtain ⟨hlt, -⟩ := List.getElem?_eq_some_iff.mp ht₀
      rw [hE]
      by_cases hij : i = j
      · subst hij
        obtain rfl := Option.some.inj (ht₀.symm.trans hj)
        exact ⟨_, List.mem_set hlt _, rfl⟩
      · refine ⟨t, List.mem_of_getElem? (i := j) ?_, rfl⟩
        exact (List.getElem?_set_ne hij).trans hj
  | manage op =>
      obtain ⟨E, hE, rfl⟩ := Option.map_eq_some_iff.mp h
      obtain ⟨-, hmap⟩ := Option.ite_none_right_eq_some.mp hE
      obtain ⟨q, -, rfl⟩ := Option.map_eq_some_iff.mp hmap
      exact ⟨t, ht, rfl⟩
  | managerTick now wakeAt probe =>
      have htick : W.managerTick now wakeAt probe = some W' := h
      unfold managerTick at htick
      split at htick
      · obtain rfl := Option.some.inj htick
        exact ⟨t, ht, rfl⟩
      · have hprobed : (W.probed now probe).endpoint.tasks = W.endpoint.tasks := by
          unfold probed
          split <;> rfl
        rw [ensureWake_endpoint htick, hprobed]
        exact ⟨t, ht, rfl⟩
  | server op =>
      rw [(onServer_eq_some h).2.1]
      exact ⟨t, ht, rfl⟩

theorem Asleep.resume (h : W.Asleep) {i : Nat} {wakeAt : Time}
    (hstep : W.resume i input wakeAt = some W') (hpowerOns : W'.powerOns = 0) : W'.Asleep := by
  obtain ⟨t, result, ht, hrun, hcase⟩ := resume_cases hstep
  have hdozes := h.tasks t (List.mem_of_getElem? ht)
  obtain ⟨hE, hsettles⟩ := h.run hdozes (decide_eq_true h.off) hrun
  rcases hsettles with ⟨hwake, -⟩ | ⟨hwake, hnext⟩
  · rw [if_pos hwake] at hcase
    have hready : (W.endpoint.settle i t result).queue.ready = false := by
      rw [Endpoint.settle, hE]
      exact h.notReady
    -- the server is off and has cooled down, so `_ensure_wake` does not stop short
    have hpos : 0 < W'.powerOns :=
      ensureWake_pos (W := { W with endpoint := W.endpoint.settle i t result }) hready h.off
        h.cooledDown hcase
    exact absurd hpowerOns (Nat.ne_of_gt hpos)
  · rw [hwake, if_neg Bool.false_ne_true] at hcase
    obtain rfl := hcase
    obtain ⟨E₁, phase⟩ := result
    obtain rfl : E₁ = W.endpoint := hE
    refine { h with tasks := fun t' ht' => ?_ }
    rcases List.mem_or_eq_of_mem_set ht' with hold | rfl
    · exact h.tasks t' hold
    · exact hnext

/-- As long as `backend.power_on` is not called, a step leaves everything asleep. -/
theorem Asleep.step (h : W.Asleep) {op : Op} (hstays : W.Stays op) (hstep : W.step op = some W')
    (hpowerOns : W'.powerOns = 0) : W'.Asleep := by
  cases op with
  | arrive request =>
      obtain rfl := Option.some.inj hstep
      refine { h with tasks := fun t ht => ?_ }
      rcases List.mem_append.mp ht with hold | hnew
      · exact h.tasks t hold
      · rw [List.mem_singleton.mp hnew]
        exact Or.inl (Or.inl rfl)
  | resume i input wakeAt => exact h.resume hstep hpowerOns
  | manage op =>
      obtain ⟨E, hE, rfl⟩ := Option.map_eq_some_iff.mp hstep
      obtain ⟨hmanaged, hmap⟩ := Option.ite_none_right_eq_some.mp hE
      obtain ⟨q, hq, rfl⟩ := Option.map_eq_some_iff.mp hmap
      exact
        { h with
          notReady := EndpointQueue.ready_of_step hmanaged hstays hq h.notReady
          queue := EndpointQueue.managed_queue_eq_nil.step h.queue hmanaged hq }
  | managerTick now wakeAt probe =>
      have htick : W.managerTick now wakeAt probe = some W' := hstep
      rw [managerTick, h.queue] at htick
      obtain rfl := Option.some.inj htick
      exact h
  | server op =>
      obtain ⟨hserver, hE, hcount⟩ := onServer_eq_some hstep
      obtain ⟨hrestart, hoff⟩ := hstays
      -- a call of `backend.power_on` would show in the count
      have hcalls : W.server.callsPowerOn W.endpoint.hasActivity op = false := by
        by_contra hcalls
        rw [Bool.not_eq_false] at hcalls
        rw [hcalls, if_pos rfl] at hcount
        omega
      rw [hserver] at hoff
      exact
        { wait := hE ▸ h.wait
          notReady := hE ▸ h.notReady
          queue := hE ▸ h.queue
          tasks := hE ▸ h.tasks
          off := by simpa using hoff
          cooledDown := h.cooledDown.step hserver hcalls hrestart }

/-- A call of `backend.power_on` comes from an HTTP request or from elsewhere. -/
theorem Asleep.woken (h : W.Asleep) {op : Op} (hstep : W.step op = some W')
    (hbefore : W.powerOns = 0) (hafter : 0 < W'.powerOns) :
    op.isWake = true ∨ ∃ t ∈ W'.endpoint.tasks, t.request.kind.isHttp = true := by
  cases op with
  | arrive request =>
      obtain rfl := Option.some.inj hstep
      exact absurd hbefore (Nat.ne_of_gt hafter)
  | resume i input wakeAt =>
      obtain ⟨t, result, ht, hrun, hcase⟩ := resume_cases hstep
      obtain ⟨-, hsettles⟩ :=
        h.run (h.tasks t (List.mem_of_getElem? ht)) (decide_eq_true h.off) hrun
      rcases hsettles with ⟨-, hhttp⟩ | ⟨hwake, -⟩
      · obtain ⟨t', ht', hrequest⟩ := step_requests hstep (List.mem_of_getElem? ht)
        exact Or.inr ⟨t', ht', hrequest ▸ hhttp⟩
      · rw [hwake, if_neg Bool.false_ne_true] at hcase
        obtain rfl := hcase
        exact absurd hbefore (Nat.ne_of_gt hafter)
  | manage op =>
      obtain ⟨E, -, rfl⟩ := Option.map_eq_some_iff.mp hstep
      exact absurd hbefore (Nat.ne_of_gt hafter)
  | managerTick now wakeAt probe =>
      have htick : W.managerTick now wakeAt probe = some W' := hstep
      rw [managerTick, h.queue] at htick
      obtain rfl := Option.some.inj htick
      exact absurd hbefore (Nat.ne_of_gt hafter)
  | server op =>
      obtain ⟨-, -, hcount⟩ := onServer_eq_some hstep
      have hcalls : W.server.callsPowerOn W.endpoint.hasActivity op = true := by
        by_contra hcalls
        rw [if_neg hcalls] at hcount
        omega
      exact Or.inl (ServerRuntime.isWake_of_callsPowerOn hcalls)

/-- Powering the server on from elsewhere calls `backend.power_on` when nobody has yet. -/
theorem Asleep.isWake_pos (h : W.Asleep) {op : Op} (hop : op.isWake = true)
    (hstep : W.step op = some W') : 0 < W'.powerOns := by
  cases op with
  | server op =>
      obtain ⟨hserver, -, hcount⟩ := onServer_eq_some hstep
      rw [hcount, ServerRuntime.callsPowerOn_of_isWake h.cooledDown hop hserver, if_pos rfl]
      exact Nat.succ_pos _
  | _ => cases hop

end Steps

/-! ### Runs -/

variable {W₀ W' : Site} {ops : List Op}

theorem asleep_of_run (hcold : W₀.Cold) (hrun : Run (Steps step Stays) W₀ ops W)
    (hpowerOns : W.powerOns = 0) : W.Asleep := by
  induction hrun with
  | nil => exact hcold.asleep
  | snoc hrest hlast ih =>
      have hbefore := Nat.le_zero.mp (hpowerOns ▸ step_le hlast.1)
      exact (ih hbefore).step hlast.2 hlast.1 hpowerOns

/-- `backend.power_on` is called for an HTTP request, or from elsewhere. -/
theorem woken_of_run (hcold : W₀.Cold) (hrun : Run (Steps step Stays) W₀ ops W)
    (hpowerOns : 0 < W.powerOns) :
    (∃ t ∈ W.endpoint.tasks, t.request.kind.isHttp = true) ∨ ∃ op ∈ ops, op.isWake = true := by
  induction hrun with
  | nil => exact absurd hcold.powerOns (Nat.ne_of_gt hpowerOns)
  | @snoc W W' ops op hrest hlast ih =>
      -- only the first call of `backend.power_on` has to be traced back
      by_cases hbefore : W.powerOns = 0
      · rcases (asleep_of_run hcold hrest hbefore).woken hlast.1 hbefore hpowerOns with
          hwake | hhttp
        · exact Or.inr ⟨op, List.mem_append_right _ List.mem_cons_self, hwake⟩
        · exact Or.inl hhttp
      · rcases ih (Nat.pos_of_ne_zero hbefore) with ⟨t, ht, hhttp⟩ | ⟨op', hop', hwake⟩
        · obtain ⟨t', ht', hrequest⟩ := step_requests hlast.1 ht
          exact Or.inl ⟨t', ht', hrequest ▸ hhttp⟩
        · exact Or.inr ⟨op', List.mem_append_left _ hop', hwake⟩

/-- What powers the server on from elsewhere. -/
theorem powerOns_of_isWake (hcold : W₀.Cold) (hrun : Run (Steps step Stays) W₀ ops W)
    (hwake : ∃ op ∈ ops, op.isWake = true) : 0 < W.powerOns := by
  induction hrun with
  | nil =>
      obtain ⟨op, hop, -⟩ := hwake
      cases hop
  | @snoc W W' ops op hrest hlast ih =>
      obtain ⟨op', hop', hwake⟩ := hwake
      by_cases hbefore : W.powerOns = 0
      · rcases List.mem_append.mp hop' with hold | hnew
        · exact absurd hbefore (Nat.ne_of_gt (ih ⟨op', hold, hwake⟩))
        · obtain rfl := List.mem_singleton.mp hnew
          exact (asleep_of_run hcold hrest hbefore).isWake_pos hwake hlast.1
      · exact Nat.lt_of_lt_of_le (Nat.pos_of_ne_zero hbefore) (step_le hlast.1)

/-- A request that is held has called `_ensure_wake` if it comes by HTTP. -/
theorem powerOns_of_held (hcold : W₀.Cold) (hrun : Run (Steps step Stays) W₀ ops W) {t : Task}
    (ht : t ∈ W.endpoint.tasks) (hheld : t.phase.isHeld = true)
    (hhttp : t.request.kind.isHttp = true) : 0 < W.powerOns := by
  refine Nat.pos_of_ne_zero fun hpowerOns => ?_
  rcases (asleep_of_run hcold hrun hpowerOns).tasks t ht with
    (hphase | hphase | hphase) | ⟨hws, -⟩
  · rw [hphase] at hheld
    cases hheld
  · rw [hphase] at hheld
    cases hheld
  · rw [hphase] at hheld
    cases hheld
  · exact absurd (hws.symm.trans hhttp) Bool.false_ne_true

/-- **When a held request wakes the box.** A single request is held through an iteration of its
hold loop and then through a manager tick; then `backend.power_on` has been called exactly when
the request comes by HTTP, or the server was powered on from elsewhere. -/
theorem wakes_iff (hcold : W₀.Cold) (hrun : Run (Steps step Stays) W₀ ops W) {t : Task}
    (ht : W.endpoint.tasks = [t]) (hheld : t.phase.isHeld = true) {now wakeAt : Time}
    (htick : W.managerTick now wakeAt false = some W') :
    0 < W'.powerOns ↔ t.request.kind.isHttp = true ∨ ∃ op ∈ ops, op.isWake = true := by
  have hmem : t ∈ W.endpoint.tasks := ht ▸ List.mem_singleton_self t
  constructor
  · intro hpowerOns
    -- the manager does nothing on an empty queue, so the call came before its tick
    have hbefore : 0 < W.powerOns := by
      by_contra hno
      have hzero : W.powerOns = 0 := Nat.le_zero.mp (Nat.not_lt.mp hno)
      rw [managerTick, (asleep_of_run hcold hrun hzero).queue] at htick
      obtain rfl := Option.some.inj htick
      exact hno hpowerOns
    rcases woken_of_run hcold hrun hbefore with ⟨t', ht', hhttp⟩ | hwake
    · rw [ht, List.mem_singleton] at ht'
      exact Or.inl (ht' ▸ hhttp)
    · exact Or.inr hwake
  · rintro (hhttp | hwake)
    · exact Nat.lt_of_lt_of_le (powerOns_of_held hcold hrun hmem hheld hhttp) (managerTick_le htick)
    · exact Nat.lt_of_lt_of_le (powerOns_of_isWake hcold hrun hwake) (managerTick_le htick)

/-- Every request that is held so has woken the box. -/
def HoldsWake : Prop :=
  ∀ (W₀ W W' : Site) (ops : List Op) (t : Task) (now wakeAt : Time), W₀.Cold →
    Run (Steps step Stays) W₀ ops W → W.endpoint.tasks = [t] → t.phase.isHeld = true →
    W.managerTick now wakeAt false = some W' → 0 < W'.powerOns

/-- A queued endpoint with one spot, on a server that has been off for a while. -/
def coldSite : Site where
  endpoint := .init (.queued (.ofArgs 1 1 300 600 false true))
  server := .init ⟨3600, true, true, none, 60⟩ {} 100
  lastCheck := 0
  powerOns := 0

theorem coldSite_cold : coldSite.Cold where
  wait := rfl
  notReady := rfl
  queue := rfl
  tasks := rfl
  off := by decide
  cooledDown := by
    show (60 : Time) < 100 - 0
    decide +kernel
  powerOns := rfl

/-- A request, and `n` steps of its admission. -/
def admission (kind : RequestKind) (n : Nat) : List Op :=
  .arrive (.ofSession kind "a") ::
    (List.range n).map (fun i => .resume 0 { now := 101 + i } (101 + i))

/-- A queued request powers the server on before it joins the queue. -/
theorem wakes_iff_queued :
    ∃ W W', Run (Steps step Stays) coldSite (admission .http 5) W ∧
      W.managerTick 107 107 false = some W' ∧ 0 < W'.powerOns := by
  have hview : (exec (guarded step Stays) coldSite (admission .http 5)).map
      (fun W => (W.endpoint.tasks, (W.managerTick 107 107 false).isSome)) =
        some ([⟨.ofSession .http "a", .sleeping 0, 0⟩], true) := by decide +kernel
  obtain ⟨W, hexec, hW⟩ := Option.map_eq_some_iff.mp hview
  obtain ⟨htasks, htick⟩ := Prod.mk.inj hW
  obtain ⟨W', htick⟩ := Option.isSome_iff_exists.mp htick
  have hrun := run_of_exec_guarded hexec
  exact ⟨W, W', hrun, htick, (wakes_iff coldSite_cold hrun htasks rfl htick).mpr (Or.inl rfl)⟩

/-- A connection is held without anybody powering the server on. -/
theorem wakes_counterexample : ¬ HoldsWake := by
  intro h
  have hview : (exec (guarded step Stays) coldSite (admission .webSocket 2)).map
      (fun W => (W.endpoint.tasks, (W.managerTick 107 107 false).map (fun W => W.powerOns))) =
        some ([⟨.ofSession .webSocket "a", .wsReadyWaiting none, 0⟩], some 0) := by
    decide +kernel
  obtain ⟨W, hexec, hW⟩ := Option.map_eq_some_iff.mp hview
  obtain ⟨htasks, htick⟩ := Prod.mk.inj hW
  obtain ⟨W', htick, hpowerOns⟩ := Option.map_eq_some_iff.mp htick
  have hrun := run_of_exec_guarded hexec
  have hpos := h coldSite W W' _ _ 107 107 coldSite_cold hrun htasks rfl htick
  omega

end Site

end Relay
