import Mathlib.Tactic.Linarith
import Relay.Queue.Snapshot
import Relay.Server.Gating
import Relay.Server.Ownership

/-!
# Relay.Server.Countdown

**The idle countdown of the monitor.** `_server_row` (`relay/monitor.py`) shows how long a server
has still to be idle before it is powered off. `_idle_off_tick` reads the same clock, but later, and
awaits the power state in between, while polls, writes, schedule ticks and other idle ticks go on.

The countdown is right, but for the rounding: whatever happens, no idle tick powers the server off
before it has run out (`idle_off_not_early`); and when nothing happens but the background work of
the proxy, a tick that starts later asks for the power state, and one that finds the server on does
not leave it on (`idle_off_not_missed`).
-/

namespace Relay

open Runs

/-- Rounding moves a number by a twentieth at most. -/
theorem roundTenth_close (x : ℚ) : roundTenth x ≤ x + 1 / 20 ∧ x ≤ roundTenth x + 1 / 20 := by
  have hfloor : (⌊x * 10⌋ : ℚ) ≤ x * 10 := Int.floor_le _
  have hlt : x * 10 < ⌊x * 10⌋ + 1 := Int.lt_floor_add_one _
  unfold roundTenth
  dsimp only
  split
  · rename_i hdown
    have hrest : x * 10 - ⌊x * 10⌋ ≤ 1 / 2 := hdown.elim le_of_lt fun h => h.1.le
    constructor <;> linarith
  · rename_i hup
    have hrest : 1 / 2 ≤ x * 10 - ⌊x * 10⌋ := not_lt.mp fun h => hup (Or.inl h)
    constructor <;> linarith

namespace CallPhase

/-- The call is no power action, and belongs to no tick that has issued one. -/
def isBackground : CallPhase → Bool
  | .poweringOn _ _ | .poweringOff _ _ _ => false
  | .storing _ _ _ tick => tick.isNone
  | .polling | .startupPolling | .verifying _ | .ended => true

end CallPhase

namespace ServerRuntime

variable {S S' : ServerRuntime} {active : Bool} {now : Time} {phase : CallPhase}

/-- The time the server has still to be idle. -/
def remaining (S : ServerRuntime) (now : Time) : Time :=
  S.config.idleTimeout - (now - S.lastActivity)

/-- `idle_countdown` of `_server_row`. -/
def idleCountdown (S : ServerRuntime) (active : Bool) (now : Time) : Option ℚ :=
  if S.owned && S.shutdownEnabledNow && !active then
    if 0 ≤ S.remaining now then some (roundTenth (S.remaining now)) else none
  else none

/-- A countdown is shown for a server that is owned, with its switch on, and idle. -/
structure Shows (S : ServerRuntime) (active : Bool) (now : Time) (c : ℚ) : Prop where
  owned : S.owned = true
  enabled : S.shutdownEnabledNow = true
  inactive : active = false
  ahead : now + c ≤ S.lastActivity + S.config.idleTimeout + 1 / 20
  behind : S.lastActivity + S.config.idleTimeout ≤ now + c + 1 / 20

theorem shows_of_idleCountdown {c : ℚ} (h : S.idleCountdown active now = some c) :
    S.Shows active now c := by
  obtain ⟨hgate, h⟩ := Option.ite_none_right_eq_some.mp h
  obtain ⟨-, h⟩ := Option.ite_none_right_eq_some.mp h
  obtain rfl := Option.some.inj h
  rw [Bool.and_eq_true, Bool.and_eq_true, Bool.not_eq_true'] at hgate
  obtain ⟨hclose, hclose'⟩ := roundTenth_close (S.remaining now)
  unfold remaining at hclose hclose'
  refine ⟨hgate.1.1, hgate.1.2, hgate.2, ?_, ?_⟩
  · unfold remaining
    linarith
  · unfold remaining
    linarith

/-! ### Never early -/

/-- The idle clock, and the idle ticks under way, are not ahead of the clock. -/
structure Clocked (S : ServerRuntime) : Prop where
  activity : S.lastActivity ≤ S.clock
  started : ∀ p ∈ S.calls, ∀ n, p.tick? = some (.idle n) → n ≤ S.clock

/-- Since the idle clock stood at `base`, it has not gone back behind it, no idle tick has passed
its gate before the timeout, and none has powered the server off before that. `k` is the length of
the history then. -/
structure Late (base timeout : Time) (k : Nat) (S : ServerRuntime) : Prop where
  timeout_eq : S.config.idleTimeout = timeout
  clock : base ≤ S.clock
  activity : base ≤ S.lastActivity
  started : ∀ p ∈ S.calls, ∀ n, p.tick? = some (.idle n) → base ≤ n ∧ n ≤ S.clock
  elapsed : ∀ p ∈ S.calls, ∀ n, p.verifying? = some (.idle n) → timeout < n - base
  length : k ≤ S.log.length
  offs : ∀ call, .powerOff call ∈ S.log.drop k → call.reason = .idleTimeout →
    base + timeout < call.at'

/-- A step moves a call, or performs a write, or restarts the proxy. -/
theorem step_moves {op : Op} (h : S.step active op = some S') :
    (∃ now source S₁ phase calls, S.clock ≤ now ∧
      Move { S with clock := now } active now source S₁ phase ∧
      (∀ p o, source = .phase p o → p ∈ S.calls) ∧ (∀ p ∈ calls, p ∈ S.calls ∨ p = phase) ∧
      S' = { S₁ with calls := calls }) ∨
    (∃ row events calls, S' = { S with row := row, events := events, calls := calls } ∧
      ∀ p ∈ calls, p ∈ S.calls ∨ p.verifying? = none ∧ ∃ p' ∈ S.calls, p'.tick? = p.tick?) ∨
    (∃ degraded now, S.clock ≤ now ∧ S' = S.restart degraded now) := by
  rcases step_cases h with ⟨call, now, S₁, phase, -, hnow, hmove, rfl⟩ |
    ⟨i, outcome, source, S₁, phase, -, hsource, hnow, hmove, rfl⟩ |
    ⟨i, call, rest, tick, -, hcall, rfl⟩ | ⟨degraded, now, -, hnow, rfl⟩
  · refine Or.inl ⟨now, _, S₁, phase, _, hnow, hmove, by simp, fun p hp => ?_, rfl⟩
    exact (List.mem_append.mp hp).imp_right List.mem_singleton.mp
  · refine Or.inl ⟨outcome.now, _, S₁, phase, _, hnow, hmove, ?_,
      fun p hp => List.mem_or_eq_of_mem_set hp, rfl⟩
    rintro p o heq
    obtain ⟨rfl, -⟩ := Source.phase.inj heq
    exact List.mem_of_getElem? hsource
  · have hframe : ∃ row events, S.perform call = { S with row := row, events := events } := by
      cases call <;> exact ⟨_, _, rfl⟩
    obtain ⟨row, events, heq⟩ := hframe
    rw [heq]
    refine Or.inr (Or.inl ⟨row, events, _, rfl, fun p hp => ?_⟩)
    refine (List.mem_or_eq_of_mem_set hp).imp_right ?_
    rintro rfl
    exact ⟨rfl, _, List.mem_of_getElem? hcall, rfl⟩
  · exact Or.inr (Or.inr ⟨degraded, now, hnow, rfl⟩)

theorem Clocked.step (h : Clocked S) {op : Op} (hstep : S.step active op = some S') :
    Clocked S' := by
  rcases step_moves hstep with ⟨now, source, S₁, phase, calls, hnow, hmove, hsource, hcalls, rfl⟩ |
    ⟨row, events, calls, rfl, hcalls⟩ | ⟨degraded, now, hnow, rfl⟩
  · have hclock : S₁.clock = now := hmove.frame.2.2.2
    constructor
    · show S₁.lastActivity ≤ S₁.clock
      rw [hclock]
      rcases hmove.lastActivity with hsame | hnew | ⟨p, o, n, hp, htick, hn⟩
      · exact hsame ▸ h.activity.trans hnow
      · exact hnew.le
      · exact hn ▸ (h.started p (hsource p o hp) n htick).trans hnow
    · intro p hp n hn
      show n ≤ S₁.clock
      rw [hclock]
      rcases hcalls p hp with hold | rfl
      · exact (h.started p hold n hn).trans hnow
      · rcases hmove.started hn with rfl | ⟨p', o, hp', htick⟩
        · exact le_refl _
        · exact (h.started p' (hsource p' o hp') n htick).trans hnow
  · refine ⟨h.activity, fun p hp n hn => ?_⟩
    rcases hcalls p hp with hold | ⟨-, p', hp', htick⟩
    · exact h.started p hold n hn
    · exact h.started p' hp' n (htick.trans hn)
  · exact ⟨le_refl _, fun _ hp => absurd hp List.not_mem_nil⟩

/-- A power-off that is new in the history comes from an idle tick that was verifying, if it
gives the idle timeout as its reason. -/
theorem Move.idleOff {source : Source} (h : Move S active now source S' phase) {k : Nat}
    (hk : k ≤ S.log.length) {call : PowerOffCall} (hcall : .powerOff call ∈ S'.log.drop k)
    (hreason : call.reason = .idleTimeout) :
    .powerOff call ∈ S.log.drop k ∨
      ∃ n o, source = .phase (.verifying (.idle n)) o ∧ call.at' = now := by
  rcases h.log with hlog | ⟨event, hlog, hrecorded⟩
  · exact Or.inl (hlog ▸ hcall)
  · rw [hlog, List.drop_append_of_le_length hk] at hcall
    refine (List.mem_append.mp hcall).imp_right fun hnew => ?_
    obtain rfl := List.mem_singleton.mp hnew
    cases hrecorded with
    | byHand => exact absurd hreason (by simp)
    | @engine tick o hsource _ =>
        cases tick with
        | idle n => exact ⟨n, o, hsource, rfl⟩
        | schedule fire => exact absurd hreason (by simp [ShutdownTick.reason])
        | deferred => exact absurd hreason (by simp [ShutdownTick.reason])

theorem Move.log_length {source : Source} (h : Move S active now source S' phase) :
    S.log.length ≤ S'.log.length := by
  rcases h.log with hlog | ⟨event, hlog, -⟩
  · rw [hlog]
  · rw [hlog, List.length_append]
    omega

theorem Late.step {base timeout : Time} {k : Nat} (h : Late base timeout k S) {op : Op}
    (hstep : S.step active op = some S') : Late base timeout k S' := by
  rcases step_moves hstep with ⟨now, source, S₁, phase, calls, hnow, hmove, hsource, hcalls, rfl⟩ |
    ⟨row, events, calls, rfl, hcalls⟩ | ⟨degraded, now, hnow, rfl⟩
  · obtain ⟨hconfig, -, -, hclock⟩ := hmove.frame
    have hbase : base ≤ now := h.clock.trans hnow
    constructor
    · exact (congrArg ServerConfig.idleTimeout hconfig).trans h.timeout_eq
    · exact hclock.symm ▸ hbase
    · show base ≤ S₁.lastActivity
      rcases hmove.lastActivity with hsame | hnew | ⟨p, o, n, hp, htick, hn⟩
      · exact hsame ▸ h.activity
      · exact hnew ▸ hbase
      · exact hn ▸ (h.started p (hsource p o hp) n htick).1
    · intro p hp n hn
      show base ≤ n ∧ n ≤ S₁.clock
      rw [hclock]
      rcases hcalls p hp with hold | rfl
      · exact ⟨(h.started p hold n hn).1, (h.started p hold n hn).2.trans hnow⟩
      · rcases hmove.started hn with rfl | ⟨p', o, hp', htick⟩
        · exact ⟨hbase, le_refl _⟩
        · have hold := h.started p' (hsource p' o hp') n htick
          exact ⟨hold.1, hold.2.trans hnow⟩
    · intro p hp n hn
      rcases hcalls p hp with hold | rfl
      · exact h.elapsed p hold n hn
      · -- the gate compared the start of the tick with the idle clock, which is not behind
        obtain ⟨rfl, htimeout⟩ := (hmove.verifying hn).2.idle n rfl
        calc timeout = S.config.idleTimeout := h.timeout_eq.symm
          _ < n - S.lastActivity := htimeout
          _ ≤ n - base := sub_le_sub_left h.activity n
    · exact h.length.trans hmove.log_length
    · intro call hcall hreason
      rcases hmove.idleOff h.length hcall hreason with hold | ⟨n, o, hp, hat⟩
      · exact h.offs call hold hreason
      · have hp' := hsource _ o hp
        have helapsed := h.elapsed _ hp' n rfl
        have hn := (h.started _ hp' n rfl).2
        rw [hat]
        linarith
  · refine ⟨h.timeout_eq, h.clock, h.activity, fun p hp n hn => ?_, fun p hp n hn => ?_, h.length,
      h.offs⟩
    · rcases hcalls p hp with hold | ⟨-, p', hp', htick⟩
      · exact h.started p hold n hn
      · exact h.started p' hp' n (htick.trans hn)
    · rcases hcalls p hp with hold | ⟨hnone, -⟩
      · exact h.elapsed p hold n hn
      · exact absurd (hnone.symm.trans hn) (by simp)
  · exact ⟨h.timeout_eq, h.clock.trans hnow, h.clock.trans hnow,
      fun _ hp => absurd hp List.not_mem_nil, fun _ hp => absurd hp List.not_mem_nil, h.length,
      h.offs⟩

theorem clocked_of_run {config : ServerConfig} {row : ServerRow} {start : Time}
    {ops : List (Bool × Op)} (h : exec next (init config row start) ops = some S) : Clocked S := by
  refine (run_any_of_exec h).invariant (fun _ _ _ hclocked hstep => hclocked.step hstep.1) ?_
  exact ⟨le_refl _, fun _ hp => absurd hp List.not_mem_nil⟩

/-- **Never early.** Let the monitor show a countdown between two passes of the shutdown engine.
Whatever happens then, requests, restarts and manual actions included, the idle timeout powers the
server off only after the countdown has run out. -/
theorem idle_off_not_early {config : ServerConfig} {row : ServerRow} {start m : Time}
    {before after : List (Bool × Op)} {c : ℚ}
    (hbefore : exec next (init config row start) before = some S) (hbetween : S.idling = false)
    (hshown : S.idleCountdown active m = some c) (hafter : exec next S after = some S') :
    ∀ call, .powerOff call ∈ S'.log.drop S.log.length → call.reason = .idleTimeout →
      m + c - 1 / 20 < call.at' := by
  have hclocked := clocked_of_run hbefore
  have hnone : ∀ p ∈ S.calls, ∀ n, p.tick? ≠ some (.idle n) := fun p hp n htick =>
    absurd (idling_of_mem hp htick) (by rw [hbetween]; exact Bool.false_ne_true)
  have hlate : Late S.lastActivity S.config.idleTimeout S.log.length S :=
    ⟨rfl, hclocked.activity, le_refl _, fun p hp n hn => absurd hn (hnone p hp n),
      fun p hp n hn => absurd (CallPhase.tick?_of_verifying? hn) (hnone p hp n), le_refl _,
      fun call hcall => absurd hcall (by simp)⟩
  have hend := (run_any_of_exec hafter).invariant
    (I := Late S.lastActivity S.config.idleTimeout S.log.length)
    (fun _ _ _ hlate hstep => hlate.step hstep.1) hlate
  intro call hcall hreason
  have hoff := hend.offs call hcall hreason
  have hahead := (shows_of_idleCountdown hshown).ahead
  linarith

/-! ### Not missed -/

/-- The background work of the proxy: no request, no manual action, no switch and no restart. -/
def Op.isBackground : Op → Bool
  | .call c _ =>
      match c with
      | .powerSyncTick | .syncState | .noteServiceReady | .scheduleOffTick _ | .idleOffTick => true
      | .maybePowerOn | .powerOn | .powerOff | .onRoutedTraffic | .setShutdownOverride _ => false
  | .resume _ _ | .commit _ => true
  | .restart _ _ => false

/-- The server is owned, may be powered off, and its idle clock stands at `base`; no power action
is under way. -/
structure Idles (base timeout : Time) (S : ServerRuntime) : Prop where
  owned : S.owned = true
  enabled : S.shutdownEnabledNow = true
  timeout_eq : S.config.idleTimeout = timeout
  activity : S.lastActivity = base
  calls : ∀ p ∈ S.calls, p.isBackground = true

/-- A call has left alone what keeps a server idle, and is a background call itself. -/
structure LeavesIdle (S : ServerRuntime) (result : Step) : Prop where
  owned : result.1.owned = S.owned
  override : result.1.shutdownOverride = S.shutdownOverride
  config : result.1.config = S.config
  activity : result.1.lastActivity = S.lastActivity
  phase : result.2.isBackground = true

theorem leavesIdle_self (S : ServerRuntime) (h : phase.isBackground = true) :
    S.LeavesIdle (S, phase) :=
  ⟨rfl, rfl, rfl, rfl, h⟩

theorem leavesIdle_setState (S : ServerRuntime) (state : PowerState)
    (h : phase.isBackground = true) : S.LeavesIdle (S.setState state, phase) := by
  unfold setState
  split <;> exact ⟨rfl, rfl, rfl, rfl, h⟩

/-- A tick of the schedule has nothing to do with the idle clock. -/
theorem leavesIdle_finishTick (S : ServerRuntime) {tick : ShutdownTick}
    (htick : ∀ n, tick ≠ .idle n) : S.LeavesIdle (S.finishTick (some tick), .ended) := by
  cases tick with
  | idle n => exact absurd rfl (htick n)
  | schedule fire => exact ⟨rfl, rfl, rfl, rfl, rfl⟩
  | deferred => exact ⟨rfl, rfl, rfl, rfl, rfl⟩

theorem leavesIdle_canPowerOff (S : ServerRuntime) {tick : ShutdownTick}
    (htick : ∀ n, tick ≠ .idle n) : S.LeavesIdle (S.canPowerOff tick) := by
  unfold canPowerOff
  split
  · exact leavesIdle_self S rfl
  · exact leavesIdle_finishTick S htick

theorem leavesIdle_scheduleOffTick (S : ServerRuntime) (wall : Time) :
    S.LeavesIdle (S.scheduleOffTick false wall) := by
  unfold scheduleOffTick
  cases S.config.lastFireBefore with
  | none => exact leavesIdle_self S rfl
  | some lastFireBefore =>
      cases S.lastFiredCron with
      | none => exact ⟨rfl, rfl, rfl, rfl, rfl⟩
      | some lastFired =>
          dsimp only
          split
          · split
            · exact leavesIdle_canPowerOff S (by simp)
            · exact leavesIdle_self S rfl
          · exact leavesIdle_canPowerOff S (by simp)

/-- A background call that starts on a server without activity. -/
theorem leavesIdle_start (S : ServerRuntime) {call : Call}
    (h : (Op.call call now).isBackground = true) : S.LeavesIdle (S.start call false now) := by
  cases call with
  | powerSyncTick => exact leavesIdle_self S rfl
  | syncState => exact leavesIdle_self S rfl
  | noteServiceReady =>
      show S.LeavesIdle S.noteServiceReady
      unfold noteServiceReady
      split
      · exact leavesIdle_self S rfl
      · exact leavesIdle_setState S _ rfl
  | scheduleOffTick wall => exact leavesIdle_scheduleOffTick S wall
  | idleOffTick =>
      show S.LeavesIdle (S.idleOffTick false now)
      unfold idleOffTick
      split
      · exact absurd ‹_› Bool.false_ne_true
      · split
        · exact leavesIdle_self S rfl
        · split <;> exact leavesIdle_self S rfl
  | maybePowerOn | powerOn | powerOff | onRoutedTraffic | setShutdownOverride _ =>
      exact absurd h Bool.false_ne_true

/-- A background call goes on, or the engine powers the server off. -/
theorem leavesIdle_run (S : ServerRuntime) (howned : S.owned = true) {outcome : Outcome}
    (h : phase.isBackground = true) :
    S.LeavesIdle (S.run phase false outcome) ∨
      ∃ event, event.isEngineOff = true ∧
        (S.run phase false outcome).1.log = S.log ++ [event] := by
  unfold run
  split
  · exact Or.inl (leavesIdle_self S rfl)
  · cases phase with
    | poweringOn | poweringOff => exact absurd h Bool.false_ne_true
    | polling =>
        left
        show S.LeavesIdle (S.polled outcome.state)
        unfold polled
        split
        · exact leavesIdle_self S rfl
        · have hset : S.LeavesIdle (S.setState outcome.state, .ended) :=
            leavesIdle_setState S outcome.state rfl
          exact ⟨hset.owned, hset.override, hset.config, hset.activity, rfl⟩
    | startupPolling => exact Or.inl (leavesIdle_setState S _ rfl)
    | verifying tick =>
        show S.LeavesIdle (S.verified false outcome.now tick outcome.state) ∨ _
        cases tick with
        | idle n =>
            simp only [verified, howned, if_true]
            split
            · exact Or.inr ⟨_, rfl, rfl⟩
            · exact Or.inl (leavesIdle_self S rfl)
        | schedule fire =>
            simp only [verified]
            split
            · exact Or.inr ⟨_, rfl, rfl⟩
            · exact Or.inl (leavesIdle_finishTick S (by simp))
        | deferred =>
            simp only [verified]
            split
            · exact Or.inr ⟨_, rfl, rfl⟩
            · exact Or.inl (leavesIdle_finishTick S (by simp))
    | storing call rest committed tick =>
        left
        obtain rfl : tick = none := Option.isNone_iff_eq_none.mp h
        cases rest with
        | nil => exact leavesIdle_self S rfl
        | cons next rest => exact leavesIdle_self S rfl
    | ended => exact Or.inl (leavesIdle_self S rfl)

/-- The engine has powered the server off since the history had `k` entries. -/
def EngineOff (k : Nat) (S : ServerRuntime) : Prop :=
  ∃ event ∈ S.log.drop k, event.isEngineOff = true

theorem engineOff_of_log {k : Nat} (hk : k ≤ S.log.length) {event : ServerEvent}
    (hlog : S'.log = S.log ++ [event]) (hoff : event.isEngineOff = true) : EngineOff k S' := by
  refine ⟨event, ?_, hoff⟩
  rw [hlog, List.drop_append_of_le_length hk]
  exact List.mem_append_right _ (List.mem_singleton_self event)

/-- The history grows at its end. -/
theorem log_grows {op : Op} (h : S.step active op = some S') : S.log <+: S'.log := by
  rcases step_moves h with ⟨now, source, S₁, phase, calls, -, hmove, -, -, rfl⟩ |
    ⟨row, events, calls, rfl, -⟩ | ⟨degraded, now, -, rfl⟩
  · rcases hmove.log with hlog | ⟨event, hlog, -⟩
    · exact hlog ▸ List.prefix_rfl
    · exact ⟨[event], hlog.symm⟩
  · exact List.prefix_rfl
  · exact List.prefix_rfl

theorem EngineOff.step {k : Nat} (h : EngineOff k S) {op : Op}
    (hstep : S.step active op = some S') : EngineOff k S' := by
  obtain ⟨event, hmem, hoff⟩ := h
  exact ⟨event, (List.IsPrefix.drop (log_grows hstep) k).subset hmem, hoff⟩

variable {base timeout : Time}

theorem Idles.of_leavesIdle (h : Idles base timeout S) {result : Step}
    (hleaves : S.LeavesIdle result) {calls : List CallPhase}
    (hcalls : ∀ p ∈ calls, p ∈ S.calls ∨ p = result.2) :
    Idles base timeout { result.1 with calls := calls } where
  owned := hleaves.owned.trans h.owned
  enabled := by
    have hsame : shutdownEnabledNow { result.1 with calls := calls } = S.shutdownEnabledNow := by
      unfold shutdownEnabledNow
      exact congrArg₂ Option.getD hleaves.override (congrArg _ hleaves.config)
    rw [hsame]
    exact h.enabled
  timeout_eq := (congrArg ServerConfig.idleTimeout hleaves.config).trans h.timeout_eq
  activity := hleaves.activity.trans h.activity
  calls := fun p hp => (hcalls p hp).elim (h.calls p) fun heq => heq ▸ hleaves.phase

theorem step_call {call : Call} (h : S.step active (.call call now) = some S') :
    S.clock ≤ now ∧ ∃ result, result = start { S with clock := now } call active now ∧
      S' = { result.1 with calls := S.calls ++ [result.2] } := by
  obtain ⟨hnow, hS'⟩ := Option.ite_none_right_eq_some.mp h
  have hmove : Moves { S with clock := now } active now (.call call)
      (start { S with clock := now } call active now) := start_moves call
  refine ⟨hnow, _, rfl, ?_⟩
  rw [← Option.some.inj hS', hmove.frame.2.2.1]

theorem step_resume {i : Nat} {outcome : Outcome}
    (h : S.step active (.resume i outcome) = some S') :
    ∃ phase result, S.calls[i]? = some phase ∧
      result = run { S with clock := outcome.now } phase active outcome ∧
      S' = { result.1 with calls := S.calls.set i result.2 } := by
  simp only [ServerRuntime.step] at h
  split at h
  · exact absurd h (by simp)
  · exact absurd h (by simp)
  · rename_i phase hne hphase
    obtain ⟨-, hS'⟩ := Option.ite_none_right_eq_some.mp h
    have hmove : Moves { S with clock := outcome.now } active outcome.now (.phase phase outcome)
        (run { S with clock := outcome.now } phase active outcome) := run_moves phase outcome
    refine ⟨phase, _, hphase, rfl, ?_⟩
    rw [← Option.some.inj hS', hmove.frame.2.2.1]

theorem step_commit {i : Nat} (h : S.step active (.commit i) = some S') :
    ∃ call rest tick row events, S.calls[i]? = some (.storing call rest false tick) ∧
      S' = { S with
        row := row
        events := events
        calls := S.calls.set i (.storing call rest true tick) } := by
  simp only [ServerRuntime.step] at h
  split at h
  · rename_i call rest tick hcall
    obtain rfl := Option.some.inj h
    cases call with
    | setServerRuntime u => exact ⟨_, rest, tick, u.apply S.row, S.events, hcall, rfl⟩
    | logPowerEvent event => exact ⟨_, rest, tick, S.row, S.events ++ [event], hcall, rfl⟩
  · exact absurd h (by simp)

theorem Idles.at (h : Idles base timeout S) (now : Time) :
    Idles base timeout { S with clock := now } :=
  ⟨h.owned, h.enabled, h.timeout_eq, h.activity, h.calls⟩

/-- A step of the background work leaves the server idle, or the engine powers it off. -/
theorem Idles.step (h : Idles base timeout S) {op : Op} (hop : op.isBackground = true)
    (hstep : S.step false op = some S') {k : Nat} (hk : k ≤ S.log.length) :
    Idles base timeout S' ∨ EngineOff k S' := by
  cases op with
  | call call now =>
      obtain ⟨-, result, rfl, rfl⟩ := step_call hstep
      refine Or.inl ((h.at now).of_leavesIdle (leavesIdle_start { S with clock := now } hop) ?_)
      exact fun p hp => (List.mem_append.mp hp).imp_right List.mem_singleton.mp
  | resume i outcome =>
      obtain ⟨phase, result, hphase, rfl, rfl⟩ := step_resume hstep
      have hbackground := h.calls phase (List.mem_of_getElem? hphase)
      rcases leavesIdle_run { S with clock := outcome.now } h.owned hbackground with
        hleaves | ⟨event, hoff, hlog⟩
      · refine Or.inl ((h.at outcome.now).of_leavesIdle hleaves ?_)
        exact fun p hp => List.mem_or_eq_of_mem_set hp
      · exact Or.inr (engineOff_of_log hk hlog hoff)
  | commit i =>
      obtain ⟨call, rest, tick, row, events, hcall, rfl⟩ := step_commit hstep
      refine Or.inl ⟨h.owned, h.enabled, h.timeout_eq, h.activity, fun p hp => ?_⟩
      rcases List.mem_or_eq_of_mem_set hp with hold | rfl
      · exact h.calls p hold
      · exact h.calls (.storing call rest false tick) (List.mem_of_getElem? hcall)
  | restart degraded now => exact absurd hop Bool.false_ne_true

/-- The call `i` is a tick that is over or awaits the power state, as long as it is not resumed. -/
theorem tick_stays {op : Op} (hstep : S.step active op = some S')
    (hop : op.isBackground = true) {i : Nat} (hother : ∀ outcome, op ≠ .resume i outcome)
    {tick : ShutdownTick} {phase : CallPhase} (hphase : phase = .ended ∨ phase = .verifying tick)
    (hcall : S.calls[i]? = some phase) : S'.calls[i]? = some phase := by
  obtain ⟨hi, -⟩ := List.getElem?_eq_some_iff.mp hcall
  cases op with
  | call call now =>
      obtain ⟨-, result, -, rfl⟩ := step_call hstep
      exact (List.getElem?_append_left hi).trans hcall
  | resume j outcome =>
      obtain ⟨phase, result, -, -, rfl⟩ := step_resume hstep
      have hne : j ≠ i := fun heq => hother outcome (heq ▸ rfl)
      exact (List.getElem?_set_ne hne).trans hcall
  | commit j =>
      obtain ⟨call, rest, tick', row, events, hstoring, rfl⟩ := step_commit hstep
      have hne : j ≠ i := by
        rintro rfl
        have hsame := Option.some.inj (hstoring.symm.trans hcall)
        rcases hphase with rfl | rfl
        · exact absurd hsame (by simp)
        · exact absurd hsame (by simp)
      exact (List.getElem?_set_ne hne).trans hcall
  | restart degraded now => exact absurd hop Bool.false_ne_true

/-- The background work on a server without activity. -/
def InBackground (ops : List (Bool × Op)) : Prop :=
  ∀ l ∈ ops, l.1 = false ∧ l.2.isBackground = true

/-- Background work leaves the server idle, and the history does not get shorter; or the engine
has powered the server off. -/
theorem Idles.run {ops : List (Bool × Op)} (hops : InBackground ops) (h : Idles base timeout S)
    {k : Nat} (hk : k ≤ S.log.length) (hrun : exec next S ops = some S') :
    Idles base timeout S' ∧ k ≤ S'.log.length ∨ EngineOff k S' := by
  refine (run_of_exec (fun l : Bool × Op => l.1 = false ∧ l.2.isBackground = true) hrun
    hops).invariant
    (I := fun S => Idles base timeout S ∧ k ≤ S.log.length ∨ EngineOff k S) ?_ (Or.inl ⟨h, hk⟩)
  rintro S l S' (⟨hidles, hk⟩ | hoff) ⟨hstep, hactive, hop⟩
  · have hstep' : S.step false l.2 = some S' := hactive ▸ hstep
    exact (hidles.step hop hstep' hk).imp_left fun hidles' =>
      ⟨hidles', hk.trans (log_grows hstep').length_le⟩
  · exact Or.inr (hoff.step hstep)

/-- An idle tick that is late enough awaits the power state. -/
theorem Idles.start (h : Idles base timeout S) (hlate : base + timeout < now)
    (hstep : S.step false (.call .idleOffTick now) = some S') :
    S'.calls[S.calls.length]? = some (.verifying (.idle now)) := by
  obtain ⟨-, result, rfl, rfl⟩ := step_call hstep
  have hphase : (start { S with clock := now } .idleOffTick false now).2 =
      .verifying (.idle now) := by
    show (idleOffTick { S with clock := now } false now).2 = _
    have henabled : shutdownEnabledNow { S with clock := now } = true := h.enabled
    have htimeout : ¬ now - S.lastActivity ≤ S.config.idleTimeout := by
      rw [h.activity, h.timeout_eq]
      linarith
    rw [idleOffTick, if_neg Bool.false_ne_true, henabled, if_neg (by simp), if_neg htimeout]
  rw [hphase]
  exact List.getElem?_concat_length

/-- An idle tick without activity is over at once, or awaits the power state. -/
theorem idle_start (hstep : S.step false (.call .idleOffTick now) = some S') :
    ∃ phase, (phase = .ended ∨ phase = .verifying (.idle now)) ∧
      S'.calls[S.calls.length]? = some phase := by
  obtain ⟨-, result, rfl, rfl⟩ := step_call hstep
  refine ⟨_, ?_, List.getElem?_concat_length⟩
  show (idleOffTick { S with clock := now } false now).2 = .ended ∨
    (idleOffTick { S with clock := now } false now).2 = .verifying (.idle now)
  rw [idleOffTick, if_neg Bool.false_ne_true]
  split
  · exact Or.inl rfl
  · split
    · exact Or.inl rfl
    · exact Or.inr rfl

/-- A call that is over is not resumed. -/
theorem not_resumed_of_ended {i : Nat} {outcome : Outcome} (hcall : S.calls[i]? = some .ended) :
    S.step active (.resume i outcome) ≠ some S' := by
  simp [ServerRuntime.step, hcall]

theorem run_verifying_idle (howned : S.owned = true) {outcome : Outcome}
    (hraised : outcome.raised = false) (hon : outcome.state = .on) :
    S.run (.verifying (.idle now)) active outcome =
      S.powerOff active outcome.now .idleTimeout .proxy (some (.idle now)) := by
  simp only [run, hraised, Bool.false_eq_true, if_false, verified, hon, if_true, howned]

/-- An idle tick that finds the server on powers it off. -/
theorem Idles.verified (h : Idles base timeout S) {i : Nat} {outcome : Outcome}
    (hcall : S.calls[i]? = some (.verifying (.idle now))) (hraised : outcome.raised = false)
    (hon : outcome.state = .on) (hstep : S.step false (.resume i outcome) = some S') {k : Nat}
    (hk : k ≤ S.log.length) : EngineOff k S' := by
  obtain ⟨phase, result, hphase, rfl, rfl⟩ := step_resume hstep
  obtain rfl := Option.some.inj (hcall.symm.trans hphase)
  rw [run_verifying_idle (S := { S with clock := outcome.now }) h.owned hraised hon]
  exact engineOff_of_log hk rfl rfl

/-- **Not missed.** Let the monitor show a countdown while no power action is under way, and let
nothing happen but the background work of the proxy. An idle tick that starts after the countdown
has run out, up to its rounding, asks for the power state, if the engine has not powered the server
off before; and once an idle tick has found the server on, the engine has. -/
theorem idle_off_not_missed {S₁ S₂ : ServerRuntime} {before : List (Bool × Op)} {m : Time} {c : ℚ}
    (hsettled : ∀ p ∈ S.calls, p.isBackground = true)
    (hshown : S.idleCountdown active m = some c)
    (hbefore : exec next S before = some S₁) (hquiet : InBackground before)
    (hstart : S₁.next (false, .call .idleOffTick now) = some S₂) :
    (m + c + 1 / 20 < now →
      S₂.calls[S₁.calls.length]? = some (.verifying (.idle now)) ∨ EngineOff S.log.length S₂) ∧
    ∀ (during : List (Bool × Op)) (S₃ S' : ServerRuntime) (outcome : Outcome),
      exec next S₂ during = some S₃ → InBackground during →
      (∀ l ∈ during, ∀ o, l.2 ≠ .resume S₁.calls.length o) →
      outcome.raised = false → outcome.state = .on →
      S₃.next (false, .resume S₁.calls.length outcome) = some S' →
      EngineOff S.log.length S' := by
  have hshows := shows_of_idleCountdown hshown
  have hidles : Idles S.lastActivity S.config.idleTimeout S :=
    ⟨hshows.owned, hshows.enabled, rfl, rfl, hsettled⟩
  have hbehind := hshows.behind
  -- what happens before the tick
  have hrun₁ := hidles.run hquiet (le_refl _) hbefore
  constructor
  · intro hlate
    rcases hrun₁ with ⟨hidles₁, -⟩ | hoff₁
    · exact Or.inl (hidles₁.start (by linarith) hstart)
    · exact Or.inr (hoff₁.step hstart)
  · intro during S₃ S' outcome hduring hquiet' hother hraised hon hverified
    have hkept : EngineOff S.log.length S₂ → EngineOff S.log.length S' := fun hoff₂ =>
      ((run_any_of_exec hduring).invariant (I := EngineOff S.log.length)
        (fun _ _ _ hoff hstep => hoff.step hstep.1) hoff₂).step hverified
    rcases hrun₁ with ⟨hidles₁, hk₁⟩ | hoff₁
    · have hbackground : (Op.call .idleOffTick now).isBackground = true := rfl
      rcases hidles₁.step hbackground hstart hk₁ with hidles₂ | hoff₂
      · -- what happens while it awaits the power state
        obtain ⟨phase, hphase, hcall⟩ := idle_start hstart
        have hrun := run_of_exec (fun l : Bool × Op => (l.1 = false ∧ l.2.isBackground = true) ∧
          ∀ o, l.2 ≠ .resume S₁.calls.length o) hduring fun l hl => ⟨hquiet' l hl, hother l hl⟩
        have hcall₃ := hrun.invariant (I := fun S => S.calls[S₁.calls.length]? = some phase)
          (fun _ _ _ hcall hstep => tick_stays hstep.1 hstep.2.1.2 hstep.2.2 hphase hcall) hcall
        rcases hphase with rfl | rfl
        · exact absurd hverified (not_resumed_of_ended hcall₃)
        · have hk₂ := hk₁.trans (log_grows hstart).length_le
          rcases hidles₂.run hquiet' hk₂ hduring with ⟨hidles₃, hk₃⟩ | hoff₃
          · exact hidles₃.verified hcall₃ hraised hon hverified hk₃
          · exact hoff₃.step hverified
      · exact hkept hoff₂
    · exact hkept (hoff₁.step hstart)

/-- A server that is shut down after a minute without activity. -/
def sixtySeconds : ServerConfig where
  idleTimeout := 60
  shutdownEnabled := true
  adoptOnTraffic := true
  lastFireBefore := none
  powerOnCooldown := 60

/-- A request adopts the server. -/
def adopted : List (Bool × Op) :=
  [(false, .call .onRoutedTraffic 10), (false, .commit 0), (false, .resume 0 { now := 10 }),
    (false, .commit 0), (false, .resume 0 { now := 11 })]

/-- The first idle tick after the countdown has run out, with a poll on its side. -/
def shutDown : List (Bool × Op) :=
  [(false, .call .powerSyncTick 40), (false, .call .idleOffTick 71),
    (false, .resume 1 { state := .on, now := 71 }), (false, .resume 2 { state := .on, now := 72 })]

theorem idle_off_not_early_adopted :
    ∃ S S', exec next (init sixtySeconds {} 0) adopted = some S ∧
      exec next S shutDown = some S' ∧ S.idleCountdown false 40 = some 30 ∧
      ∀ call, .powerOff call ∈ S'.log.drop S.log.length → call.reason = .idleTimeout →
        40 + 30 - 1 / 20 < call.at' := by
  have hview : (exec next (init sixtySeconds {} 0) adopted).bind (fun S =>
      (exec next S shutDown).map fun _ => (S.idling, S.idleCountdown false 40)) =
      some (false, some 30) := by
    decide +kernel
  obtain ⟨S, hS, hview⟩ := Option.bind_eq_some_iff.mp hview
  obtain ⟨S', hS', hview⟩ := Option.map_eq_some_iff.mp hview
  obtain ⟨hbetween, hshown⟩ := Prod.mk.inj hview
  exact ⟨S, S', hS, hS', hshown, idle_off_not_early hS hbetween hshown hS'⟩

theorem idle_off_not_missed_adopted :
    ∃ S S', exec next (init sixtySeconds {} 0) adopted = some S ∧
      S.idleCountdown false 40 = some 30 ∧
      (exec next S (shutDown.take 3)).bind (fun S₃ =>
        S₃.next (false, .resume 2 { state := .on, now := 72 })) = some S' ∧
      EngineOff S.log.length S' := by
  have hview : (exec next (init sixtySeconds {} 0) adopted).bind (fun S =>
      (exec next S [(false, .call .powerSyncTick 40)]).bind fun S₁ =>
        (S₁.next (false, .call .idleOffTick 71)).bind fun S₂ =>
          (exec next S₂ [(false, .resume 1 { state := .on, now := 71 })]).bind fun S₃ =>
            (S₃.next (false, .resume 2 { state := .on, now := 72 })).map fun _ =>
              (S.calls.all CallPhase.isBackground, S.idleCountdown false 40, S₁.calls.length)) =
      some (true, some 30, 2) := by
    decide +kernel
  obtain ⟨S, hS, hview⟩ := Option.bind_eq_some_iff.mp hview
  obtain ⟨S₁, hS₁, hview⟩ := Option.bind_eq_some_iff.mp hview
  obtain ⟨S₂, hS₂, hview⟩ := Option.bind_eq_some_iff.mp hview
  obtain ⟨S₃, hS₃, hview⟩ := Option.bind_eq_some_iff.mp hview
  obtain ⟨S', hS', hview⟩ := Option.map_eq_some_iff.mp hview
  obtain ⟨hsettled, hview⟩ := Prod.mk.inj hview
  obtain ⟨hshown, hlength⟩ := Prod.mk.inj hview
  have hrun : exec next S (shutDown.take 3) = some S₃ := by
    show exec next S ([(false, .call .powerSyncTick 40)] ++ [(false, .call .idleOffTick 71)] ++
      [(false, .resume 1 { state := .on, now := 71 })]) = some S₃
    rw [exec_append, exec_append, hS₁]
    show ((S₁.next (false, .call .idleOffTick 71)).bind some).bind _ = _
    rw [hS₂]
    exact hS₃
  refine ⟨S, S', hS, hshown, by rw [hrun]; exact hS', ?_⟩
  rw [← hlength] at hS'
  obtain ⟨-, hoff⟩ := idle_off_not_missed (List.all_eq_true.mp hsettled) hshown hS₁
    (by simp [InBackground, Op.isBackground]) hS₂
  exact hoff _ S₃ S' _ hS₃ (by simp [InBackground, Op.isBackground]) (by simp [hlength]) rfl rfl hS'

end ServerRuntime

end Relay
