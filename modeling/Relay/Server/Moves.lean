import Relay.Library.Runs
import Relay.Server.Basic

/-!
# Relay.Server.Moves

What one step of a server can do, said once. `Move S active now source S' phase` lists the
ways in which a call runs from `source`, its start or an await, to `phase`;
`start_move` and `run_move` show that calls do nothing else. The laws of the power state
machine are case analyses over `Move`.
-/

namespace Relay

namespace StoreCall

/-- The write says that the proxy owns the server. -/
def takesOwnership : StoreCall → Bool
  | .setServerRuntime u => decide (u.owned = some true)
  | .logPowerEvent _ => false

end StoreCall

namespace CallPhase

/-- The call belongs to no tick, and writes nothing about the ownership. -/
def isQuiet (phase : CallPhase) : Bool :=
  phase.tick?.isNone && phase.pendingWrites.all (fun call => !call.takesOwnership)

end CallPhase

namespace ServerRuntime

/-- Where a step of a call comes from: its start, or the await it was suspended at, with what
it learns there. -/
inductive Source
  | call (call : Call)
  | phase (phase : CallPhase) (outcome : Outcome)

/-- What lets a tick go on to power the server off. The idle tick looks at the ownership
later. -/
structure Open (S : ServerRuntime) (active : Bool) (tick : ShutdownTick) : Prop where
  inactive : active = false
  enabled : S.shutdownEnabledNow = true
  owned : (∀ n, tick ≠ .idle n) → S.owned = true

/-- What the gate of a tick has found. -/
structure Gate (S : ServerRuntime) (active : Bool) (now : Time) (tick : ShutdownTick) : Prop
    extends Open S active tick where
  idle : ∀ n, tick = .idle n → n = now ∧ S.config.idleTimeout < now - S.lastActivity

/-- The steps of a call. -/
inductive Move (S : ServerRuntime) (active : Bool) (now : Time) (source : Source) :
    ServerRuntime → CallPhase → Prop
  /-- The call touches neither ownership, switch nor idle clock, nor does it record
  anything. -/
  | quiet {powerState : PowerState} {transient : Option Transient} {attempt : Time}
      {fired : Option Time} {deferred : Bool} {phase : CallPhase} : phase.isQuiet = true →
      Move S active now source
        { S with
          powerState := powerState
          transient := transient
          lastPowerOnAttempt := attempt
          lastFiredCron := fired
          scheduleDeferred := deferred } phase
  | accept {reason : PowerReason} {initiatedBy : Initiator} {outcome : Outcome} :
      source = .phase (.poweringOn reason initiatedBy) outcome → outcome.accepted = true →
      Move S active now source (S.poweredOn reason initiatedBy true).1
        (S.poweredOn reason initiatedBy true).2
  | route : source = .call .onRoutedTraffic →
      Move S active now source (S.onRoutedTraffic now).1 (S.onRoutedTraffic now).2
  | toggle (enabled : Bool) : source = .call (.setShutdownOverride enabled) →
      Move S active now source (S.setShutdownOverride enabled).1 (S.setShutdownOverride enabled).2
  | poll {state : PowerState} {outcome : Outcome} : source = .phase .polling outcome →
      state ≠ S.powerState →
      Move S active now source (S.polled state).1 (S.polled state).2
  | powerOffByHand : source = .call .powerOff →
      Move S active now source (S.powerOff active now .manual .monitorUi none).1
        (S.powerOff active now .manual .monitorUi none).2
  | gate {call : Call} {tick : ShutdownTick} : source = .call call → Gate S active now tick →
      Move S active now source S (.verifying tick)
  | restartClock : source = .call .idleOffTick → active = true →
      Move S active now source { S with lastActivity := now } .ended
  | powerOff {tick : ShutdownTick} {outcome : Outcome} :
      source = .phase (.verifying tick) outcome →
      (∀ n, tick = .idle n → S.owned = true) →
      Move S active now source (S.powerOff active now tick.reason .proxy (some tick)).1
        (S.powerOff active now tick.reason .proxy (some tick)).2
  | off {reason : PowerReason} {initiatedBy : Initiator} {tick : Option ShutdownTick}
      {outcome : Outcome} : source = .phase (.poweringOff reason initiatedBy tick) outcome →
      Move S active now source (S.poweredOff reason initiatedBy tick outcome.accepted).1
        (S.poweredOff reason initiatedBy tick outcome.accepted).2
  | advance {call next : StoreCall} {rest : List StoreCall} {committed : Bool}
      {tick : Option ShutdownTick} {outcome : Outcome} :
      source = .phase (.storing call (next :: rest) committed tick) outcome →
      Move S active now source S (.storing next rest false tick)
  | finish {phase : CallPhase} {tick : ShutdownTick} {outcome : Outcome} :
      source = .phase phase outcome →
      phase.tick? = some tick → Move S active now source (S.finishTick (some tick)) .ended

/-- The result of the synchronous part of a call, as a move. -/
def Moves (S : ServerRuntime) (active : Bool) (now : Time) (source : Source)
    (result : Step) : Prop :=
  Move S active now source result.1 result.2

variable {S : ServerRuntime} {active : Bool} {now : Time} {source : Source}

/-! ### Shutdown ticks

Until a shutdown tick powers the server off, it is over or verifies the power state. -/

/-- A shutdown tick leaves the machine, and what is known of it, alone. -/
structure HoldsBack (S : ServerRuntime) (result : Step) : Prop where
  powerState : result.1.powerState = S.powerState
  transient : result.1.transient = S.transient
  lastPowerOnAttempt : result.1.lastPowerOnAttempt = S.lastPowerOnAttempt
  phase : result.2 = .ended ∨ ∃ tick, result.2 = .verifying tick

theorem ended_holdsBack (S : ServerRuntime) : S.HoldsBack (S, .ended) :=
  ⟨rfl, rfl, rfl, Or.inl rfl⟩

theorem finishTick_holdsBack (S : ServerRuntime) (tick : Option ShutdownTick) :
    S.HoldsBack (S.finishTick tick, .ended) := by
  unfold finishTick
  split <;> exact ⟨rfl, rfl, rfl, Or.inl rfl⟩

theorem canPowerOff_holdsBack (S : ServerRuntime) (tick : ShutdownTick) :
    S.HoldsBack (S.canPowerOff tick) := by
  unfold canPowerOff
  split
  · exact ⟨rfl, rfl, rfl, Or.inr ⟨tick, rfl⟩⟩
  · exact finishTick_holdsBack S (some tick)

theorem scheduleOffTick_holdsBack (S : ServerRuntime) (active : Bool) (wall : Time) :
    S.HoldsBack (S.scheduleOffTick active wall) := by
  unfold scheduleOffTick
  split
  · exact ended_holdsBack S
  · split
    · exact ⟨rfl, rfl, rfl, Or.inl rfl⟩
    · dsimp only
      split
      · split
        · exact canPowerOff_holdsBack S .deferred
        · exact ended_holdsBack S
      · split
        · exact ⟨rfl, rfl, rfl, Or.inl rfl⟩
        · exact canPowerOff_holdsBack S _

theorem idleOffTick_holdsBack (S : ServerRuntime) (active : Bool) (now : Time) :
    S.HoldsBack (S.idleOffTick active now) := by
  unfold idleOffTick
  split
  · exact ⟨rfl, rfl, rfl, Or.inl rfl⟩
  · split
    · exact ended_holdsBack S
    · split
      · exact ended_holdsBack S
      · exact ⟨rfl, rfl, rfl, Or.inr ⟨_, rfl⟩⟩

/-- A tick that has verified the power state powers the server off, or leaves it alone. -/
theorem verified_cases (S : ServerRuntime) (active : Bool) (now : Time) (tick : ShutdownTick)
    (state : PowerState) :
    S.verified active now tick state = S.powerOff active now tick.reason .proxy (some tick) ∨
      S.HoldsBack (S.verified active now tick state) := by
  cases tick with
  | idle n =>
      simp only [verified]
      split
      · split
        · exact Or.inl rfl
        · exact Or.inr (finishTick_holdsBack S _)
      · exact Or.inr (ended_holdsBack S)
  | schedule fire =>
      simp only [verified]
      split
      · exact Or.inl rfl
      · exact Or.inr (finishTick_holdsBack S _)
  | deferred =>
      simp only [verified]
      split
      · exact Or.inl rfl
      · exact Or.inr (finishTick_holdsBack S _)

/-! ### What calls do -/

theorem setState_moves (state : PowerState) {phase : CallPhase} (h : phase.isQuiet = true) :
    Moves S active now source (S.setState state, phase) := by
  unfold setState
  split
  · exact .quiet h
  · exact .quiet h

/-- A tick of the schedule that is not idle finishes without touching the idle clock. -/
theorem skip_moves {tick : ShutdownTick} (htick : ∀ n, tick ≠ .idle n) :
    Moves S active now source (S.finishTick (some tick), .ended) := by
  cases tick with
  | idle n => exact absurd rfl (htick n)
  | schedule fire => exact Move.quiet rfl
  | deferred => exact Move.quiet rfl

theorem canPowerOff_moves {call : Call} {tick : ShutdownTick} (htick : ∀ n, tick ≠ .idle n)
    (hactive : active = false) : Moves S active now (.call call) (S.canPowerOff tick) := by
  unfold canPowerOff
  split
  · rename_i hgate
    obtain ⟨howned, henabled⟩ := Bool.and_eq_true_iff.mp hgate
    exact Move.gate rfl
      ⟨⟨hactive, henabled, fun _ => howned⟩, fun n hn => absurd hn (htick n)⟩
  · exact skip_moves htick

theorem scheduleOffTick_moves (wall : Time) :
    Moves S active now (.call (.scheduleOffTick wall)) (S.scheduleOffTick active wall) := by
  unfold scheduleOffTick
  cases S.config.lastFireBefore with
  | none => exact Move.quiet rfl
  | some lastFireBefore =>
      cases S.lastFiredCron with
      | none => exact Move.quiet rfl
      | some lastFired =>
          dsimp only
          split
          · split
            · rename_i hdue
              obtain ⟨-, hidle⟩ := Bool.and_eq_true_iff.mp hdue
              exact canPowerOff_moves (by simp) (by simpa using hidle)
            · exact Move.quiet rfl
          · split
            · exact Move.quiet rfl
            · rename_i hidle
              exact canPowerOff_moves (by simp) (by simpa using hidle)

theorem idleOffTick_moves :
    Moves S active now (.call .idleOffTick) (S.idleOffTick active now) := by
  unfold idleOffTick
  split
  · rename_i hactive
    exact Move.restartClock rfl hactive
  · rename_i hactive
    split
    · exact Move.quiet rfl
    · rename_i henabled
      split
      · exact Move.quiet rfl
      · rename_i helapsed
        refine Move.gate rfl ⟨⟨by simpa using hactive, by simpa using henabled, ?_⟩, ?_⟩
        · exact fun hnot => absurd rfl (hnot now)
        · intro n hn
          obtain rfl := ShutdownTick.idle.inj hn
          exact ⟨rfl, not_le.mp helapsed⟩

/-- What a call does up to its first await. -/
theorem start_moves (call : Call) :
    Moves S active now (.call call) (S.start call active now) := by
  cases call with
  | maybePowerOn =>
      show Moves S active now _ (S.maybePowerOn now)
      unfold maybePowerOn
      split
      · exact Move.quiet rfl
      · exact Move.quiet rfl
  | powerOn => exact Move.quiet rfl
  | powerOff => exact Move.powerOffByHand rfl
  | onRoutedTraffic => exact Move.route rfl
  | noteServiceReady =>
      show Moves S active now _ S.noteServiceReady
      unfold noteServiceReady
      split
      · exact Move.quiet rfl
      · exact setState_moves _ rfl
  | setShutdownOverride enabled => exact Move.toggle enabled rfl
  | powerSyncTick => exact Move.quiet rfl
  | syncState => exact Move.quiet rfl
  | scheduleOffTick wall => exact scheduleOffTick_moves wall
  | idleOffTick => exact idleOffTick_moves

/-- A call that belongs to a tick goes on with it. -/
theorem finish_moves {phase : CallPhase} {tick : ShutdownTick} {outcome : Outcome}
    (h : phase.tick? = some tick) :
    Moves S active now (.phase phase outcome) (S.finishTick (some tick), .ended) :=
  Move.finish rfl h

theorem verified_moves (tick : ShutdownTick) (state : PowerState) (outcome : Outcome) :
    Moves S active now (.phase (.verifying tick) outcome) (S.verified active now tick state) := by
  cases tick with
  | idle n =>
      show Moves S active now _ (if state = .on then _ else _)
      split
      · split
        · rename_i howned
          exact Move.powerOff rfl fun _ _ => howned
        · exact finish_moves rfl
      · exact Move.quiet rfl
  | schedule fire =>
      show Moves S active now _ (if state = .on then _ else _)
      split
      · exact Move.powerOff rfl fun n hn => absurd hn (by simp)
      · exact finish_moves rfl
  | deferred =>
      show Moves S active now _ (if state = .on then _ else _)
      split
      · exact Move.powerOff rfl fun n hn => absurd hn (by simp)
      · exact finish_moves rfl

/-- What a call does from one await to the next. -/
theorem run_moves (phase : CallPhase) (outcome : Outcome) :
    Moves S active outcome.now (.phase phase outcome) (S.run phase active outcome) := by
  unfold run
  split
  · exact Move.quiet rfl
  · cases phase with
    | poweringOn reason initiatedBy =>
        show Moves S active outcome.now _ (S.poweredOn reason initiatedBy outcome.accepted)
        cases hok : outcome.accepted with
        | true => exact Move.accept rfl hok
        | false => exact Move.quiet rfl
    | poweringOff reason initiatedBy tick => exact Move.off rfl
    | polling =>
        show Moves S active outcome.now _ (S.polled outcome.state)
        by_cases hstate : outcome.state = S.powerState
        · rw [polled, if_pos hstate]
          exact Move.quiet rfl
        · exact Move.poll rfl hstate
    | startupPolling =>
        show Moves S active outcome.now _ (S.startupPolled outcome.state outcome.healthy)
        exact setState_moves _ rfl
    | verifying tick => exact verified_moves tick outcome.state outcome
    | storing call rest committed tick =>
        cases rest with
        | nil =>
            cases tick with
            | none => exact Move.quiet rfl
            | some tick => exact finish_moves rfl
        | cons next rest => exact Move.advance rfl
    | ended => exact Move.quiet rfl

/-- A move writes neither the settings, the tables, the clock nor the other calls. -/
theorem Move.frame {S' : ServerRuntime} {phase : CallPhase}
    (h : Move S active now source S' phase) :
    S'.config = S.config ∧ S'.row = S.row ∧ S'.calls = S.calls ∧ S'.clock = S.clock := by
  cases h with
  | route =>
      unfold onRoutedTraffic
      dsimp only
      split <;> exact ⟨rfl, rfl, rfl, rfl⟩
  | @poll state outcome hsource hne =>
      rw [polled, if_neg hne]
      show (S.setState state).config = _ ∧ (S.setState state).row = _ ∧
        (S.setState state).calls = _ ∧ (S.setState state).clock = _
      unfold setState
      split <;> exact ⟨rfl, rfl, rfl, rfl⟩
  | @off reason initiatedBy tick outcome hsource =>
      cases outcome.accepted <;> exact ⟨rfl, rfl, rfl, rfl⟩
  | @finish phase tick outcome hsource htick => cases tick <;> exact ⟨rfl, rfl, rfl, rfl⟩
  | _ => exact ⟨rfl, rfl, rfl, rfl⟩

/-- What a call records. -/
inductive Recorded (S : ServerRuntime) (active : Bool) (now : Time) (source : Source) :
    ServerEvent → Prop
  | accepted : Recorded S active now source .accepted
  | routed : source = .call .onRoutedTraffic → Recorded S active now source (.routed now)
  | polled {state : PowerState} : state ≠ S.powerState →
      Recorded S active now source (.polled S.powerState state S.transient.isNone)
  | byHand : Recorded S active now source
      (.powerOff ⟨.manual, S.owned, S.shutdownEnabledNow, active, now⟩)
  | engine {tick : ShutdownTick} {outcome : Outcome} :
      source = .phase (.verifying tick) outcome →
      (∀ n, tick = .idle n → S.owned = true) →
      Recorded S active now source
        (.powerOff ⟨tick.reason, S.owned, S.shutdownEnabledNow, active, now⟩)

/-- A move records at most one event. -/
theorem Move.log {S' : ServerRuntime} {phase : CallPhase} (h : Move S active now source S' phase) :
    S'.log = S.log ∨ ∃ event, S'.log = S.log ++ [event] ∧ Recorded S active now source event := by
  cases h with
  | quiet _ => exact Or.inl rfl
  | accept _ _ => exact Or.inr ⟨_, rfl, .accepted⟩
  | route hsource =>
      refine Or.inr ⟨.routed now, ?_, .routed hsource⟩
      unfold onRoutedTraffic
      dsimp only
      split <;> rfl
  | toggle enabled _ => exact Or.inl rfl
  | @poll state _ _ hne =>
      rw [ServerRuntime.polled, if_neg hne]
      exact Or.inr ⟨_, rfl, .polled hne⟩
  | powerOffByHand _ => exact Or.inr ⟨_, rfl, .byHand⟩
  | gate _ _ => exact Or.inl rfl
  | restartClock _ _ => exact Or.inl rfl
  | powerOff hsource howned => exact Or.inr ⟨_, rfl, .engine hsource howned⟩
  | @off reason initiatedBy tick outcome _ => cases outcome.accepted <;> exact Or.inl rfl
  | advance _ => exact Or.inl rfl
  | @finish p tick _ _ _ => cases tick <;> exact Or.inl rfl

/-- A step of a server: a call starts, a call moves, a write is performed, or the proxy
restarts. -/
theorem step_cases {op : Op} {S' : ServerRuntime} (h : S.step active op = some S') :
    (∃ call now S₁ phase, op = .call call now ∧ S.clock ≤ now ∧
      Move { S with clock := now } active now (.call call) S₁ phase ∧
      S' = { S₁ with calls := S.calls ++ [phase] }) ∨
    (∃ i outcome source S₁ phase, op = .resume i outcome ∧ S.calls[i]? = some source ∧
      S.clock ≤ outcome.now ∧
      Move { S with clock := outcome.now } active outcome.now (.phase source outcome) S₁ phase ∧
      S' = { S₁ with calls := S.calls.set i phase }) ∨
    (∃ i call rest tick, op = .commit i ∧ S.calls[i]? = some (.storing call rest false tick) ∧
      S' = { S.perform call with calls := S.calls.set i (.storing call rest true tick) }) ∨
    (∃ degraded now, op = .restart degraded now ∧ S.clock ≤ now ∧ S' = S.restart degraded now) := by
  cases op with
  | call call now =>
      obtain ⟨hclock, hS'⟩ := Option.ite_none_right_eq_some.mp h
      have hmove : Moves { S with clock := now } active now (.call call)
          (start { S with clock := now } call active now) := start_moves call
      refine Or.inl ⟨call, now, _, _, rfl, hclock, hmove, ?_⟩
      rw [← Option.some.inj hS', hmove.frame.2.2.1]
  | resume i outcome =>
      simp only [step] at h
      split at h
      · exact absurd h (by simp)
      · exact absurd h (by simp)
      · rename_i source hne hsource
        obtain ⟨hclock, hS'⟩ := Option.ite_none_right_eq_some.mp h
        have hmove : Moves { S with clock := outcome.now } active outcome.now
            (.phase source outcome) (run { S with clock := outcome.now } source active outcome) :=
          run_moves source outcome
        refine Or.inr (Or.inl ⟨i, outcome, source, _, _, rfl, hsource, hclock, hmove, ?_⟩)
        rw [← Option.some.inj hS', hmove.frame.2.2.1]
  | commit i =>
      simp only [step] at h
      split at h
      · rename_i call rest tick hcall
        exact Or.inr (Or.inr (Or.inl ⟨i, call, rest, tick, rfl, hcall, (Option.some.inj h).symm⟩))
      · exact absurd h (by simp)
  | restart degraded now =>
      obtain ⟨hclock, hS'⟩ := Option.ite_none_right_eq_some.mp h
      exact Or.inr (Or.inr (Or.inr ⟨degraded, now, rfl, hclock, (Option.some.inj hS').symm⟩))

end ServerRuntime

end Relay
